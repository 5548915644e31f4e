import FlatQuery.Text.Split

set_option autoImplicit false

/-! # File paths

A path is text whose steps are separated by `/`. `FilePath.join` puts a path below another; messages
show paths as they were joined. A `Location` is a place that steps lead to. Which place a path leads
to depends on the directories there are, because a step back is only possible from a directory. -/

namespace FlatQuery

namespace FilePath

/-- The path `right` seen from the directory `left`: an absolute path stands for itself, and any
other is appended behind one separator. -/
def join (left right : String) : String :=
  if right.toList.head? = some '/' ∨ left = "" then right
  else if left.toList.getLast? = some '/' then left ++ right
  else left ++ "/" ++ right

theorem join_empty_left (right : String) : join "" right = right := by simp [join]

end FilePath

/-- The steps of a path. Several separators side by side separate like one. -/
def FilePath.steps (path : String) : List String :=
  ((Text.splitWhere (· == '/') path.toList).map String.ofList).filter (· ≠ "")

/-- A place in the file system, relative to the root or to the current directory. The steps of a
place are names, except that those of a place outside of the current directory begin with steps
back. -/
structure Location where
  absolute : Bool
  steps : List String
  deriving DecidableEq, Repr

namespace Location

/-- The place where a path begins. -/
def start (path : String) : Location := ⟨path.toList.head? = some '/', []⟩

/-- The place of a name in a directory. -/
def child (l : Location) (name : String) : Location := ⟨l.absolute, l.steps ++ [name]⟩

/-- The directory that a place is in. The root is in itself. -/
def parent (l : Location) : Location :=
  if ¬ l.absolute ∧ l.steps.all (· = "..") then l.child ".." else ⟨l.absolute, l.steps.dropLast⟩

theorem parent_child {l : Location} {name : String} (h : name ≠ "..") :
    (l.child name).parent = l := by
  simp [parent, child, h]

end Location

end FlatQuery
