import FlatQuery.FilePath

set_option autoImplicit false

/-! # Stored files

A file store maps places to contents. An open file is what is still to be read of it. A change of
the store puts another file at a place or takes the file there away, and who has that one open goes
on with it; only who writes into an open file itself changes what is still to be read of it. A
directory opens like a file and fails at every read. -/

namespace FlatQuery

/-! ## Lines -/

/-- Why the file system refuses an operation. -/
inductive IoFault
  | notFound
  | notDirectory
  | isDirectory
  | nameTooLong
  | nulInName
  | invalidUtf8
  deriving DecidableEq, Repr

/-- The text of a refusal. -/
def IoFault.message : IoFault → String
  | notFound => "No such file or directory (os error 2)"
  | notDirectory => "Not a directory (os error 20)"
  | isDirectory => "Is a directory (os error 21)"
  | nameTooLong => "File name too long (os error 36)"
  | nulInName => "file name contained an unexpected NUL byte"
  | invalidUtf8 => "stream did not contain valid UTF-8"

/-- A terminated line without one carriage return at its end. -/
def dropReturn (line : List UInt8) : List UInt8 :=
  if line.getLast? = some 13 then line.dropLast else line

/-- The lines among the pieces between line feeds: the last piece is a line only if it is not
empty, and only the others were terminated. -/
def linesOfPieces : List (List UInt8) → List (List UInt8)
  | [] => []
  | [last] => if last.isEmpty then [] else [last]
  | piece :: next :: pieces => dropReturn piece :: linesOfPieces (next :: pieces)

/-- The lines of a content. -/
def linesOf (content : List UInt8) : List (List UInt8) :=
  linesOfPieces (Text.splitWhere (· == 10) content)

/-- The text of a line, if it is UTF-8. -/
def decodeLine (line : List UInt8) : Except IoFault String :=
  match String.fromUTF8? ⟨line.toArray⟩ with
  | some text => .ok text
  | none => .error .invalidUtf8

/-- An open file: the lines that are still to be read, or a directory. -/
inductive LineSource
  | lines (pending : List (List UInt8))
  | directory
  deriving DecidableEq, Repr

namespace LineSource

/-- Reads one line, or `none` at the end. -/
def next : LineSource → Option (Except IoFault String × LineSource)
  | lines [] => none
  | lines (line :: pending) => some (decodeLine line, lines pending)
  | directory => some (.error .isDirectory, directory)

/-- All reads from here on, up to the first that fails for a directory. -/
def toList : LineSource → List (Except IoFault String)
  | lines pending => pending.map decodeLine
  | directory => [.error .isDirectory]

/-- The number of lines that can still be read. -/
def length : LineSource → Nat
  | lines pending => pending.length
  | directory => 0

/-- A read that yields a text uses up a line. -/
theorem length_next_lt {s s' : LineSource} {text : String} (h : s.next = some (.ok text, s')) :
    s'.length < s.length := by
  match s with
  | lines [] => simp [next] at h
  | lines (line :: pending) =>
    simp only [next, Option.some.injEq, Prod.mk.injEq] at h
    obtain ⟨-, rfl⟩ := h
    simp [length]
  | directory => simp [next] at h

/-- A read never adds a line. -/
theorem length_next_le {s s' : LineSource} {line : Except IoFault String}
    (h : s.next = some (line, s')) : s'.length ≤ s.length := by
  match s with
  | lines [] => simp [next] at h
  | lines (line :: pending) =>
    simp only [next, Option.some.injEq, Prod.mk.injEq] at h
    obtain ⟨-, rfl⟩ := h
    simp [length]
  | directory =>
    simp only [next, Option.some.injEq, Prod.mk.injEq] at h
    obtain ⟨-, rfl⟩ := h
    exact Nat.le_refl _

end LineSource

/-! ## The store -/

/-- What stands at a place. -/
inductive FileEntry
  | file (content : List UInt8)
  | directory
  deriving DecidableEq, Repr

/-- The files and directories there are. -/
structure FileStore where
  entries : List (Location × FileEntry)
  deriving DecidableEq, Repr, Inhabited

namespace FileStore

/-- The store without any file. -/
def empty : FileStore := ⟨[]⟩

/-- What stands at a place. The root, the current directory and those around it are always there. -/
def entry? (fs : FileStore) (l : Location) : Option FileEntry :=
  if l.steps.all (· = "..") then some .directory else fs.entries.lookup l

/-- Puts an entry at a place instead of what stood there. -/
def put (fs : FileStore) (l : Location) (entry : FileEntry) : FileStore :=
  ⟨(l, entry) :: fs.entries.filter (·.1 ≠ l)⟩

/-! ### Paths in a store -/

/-- The length in bytes up to which the file system takes names. -/
def maxNameSize : Nat := 255

/-- The length in bytes below which the file system takes paths. -/
def maxPathSize : Nat := 4096

/-- The place that steps lead to from a place. All but the last place on the way are directories. -/
def walk (fs : FileStore) (l : Location) : List String → Except IoFault Location
  | [] => .ok l
  | step :: steps =>
    match fs.entry? l with
    | none => .error .notFound
    | some (.file _) => .error .notDirectory
    | some .directory =>
      if step = "." then walk fs l steps
      else if step = ".." then walk fs l.parent steps
      else if maxNameSize < step.utf8ByteSize then .error .nameTooLong
      else walk fs (l.child step) steps

/-- The place that a path leads to. -/
def locate (fs : FileStore) (path : String) : Except IoFault Location :=
  if path.toList.contains '\x00' then .error .nulInName
  else if path = "" then .error .notFound
  else if maxPathSize ≤ path.utf8ByteSize then .error .nameTooLong
  else fs.walk (Location.start path) (FilePath.steps path)

/-- Opens the file at a path. All of its content is still to be read. -/
def openFile (fs : FileStore) (path : String) : Except IoFault LineSource := do
  match fs.entry? (← fs.locate path) with
  | none => throw .notFound
  | some .directory => return .directory
  | some (.file content) =>
    if path.toList.getLast? = some '/' then throw .notDirectory else return .lines (linesOf content)

/-! ### Changes -/

/-- Creates the directories that steps lead through from a place, and yields the last of them. -/
def makeDirectories (fs : FileStore) (l : Location) : List String → FileStore × Location
  | [] => (fs, l)
  | step :: steps =>
    if step = "." then makeDirectories fs l steps
    else if step = ".." then makeDirectories fs l.parent steps
    else
      let next := l.child step
      makeDirectories (if (fs.entry? next).isSome then fs else fs.put next .directory) next steps

/-- Writes a file, in the place of an older one if there is one. The directories on the way to it
are created. -/
def write (fs : FileStore) (path : String) (content : List UInt8) : FileStore :=
  let steps := FilePath.steps path
  let (fs, directory) := fs.makeDirectories (Location.start path) steps.dropLast
  fs.put (directory.child (steps.getLast?.getD "")) (.file content)

/-- Creates a directory and those on the way to it. -/
def makeDirectory (fs : FileStore) (path : String) : FileStore :=
  (fs.makeDirectories (Location.start path) (FilePath.steps path)).1

/-- Removes a file. -/
def remove (fs : FileStore) (path : String) : FileStore :=
  match fs.locate path with
  | .ok l => ⟨fs.entries.filter (·.1 ≠ l)⟩
  | .error _ => fs

end FileStore

end FlatQuery
