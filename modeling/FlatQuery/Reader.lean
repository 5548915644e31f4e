import FlatQuery.Error
import FlatQuery.FileStore
import FlatQuery.Tuple

set_option autoImplicit false

/-! # Reading tuples from a file

A reader decodes an opened file line by line. Each line counts, whether it holds a tuple or not, and
what a read yields depends on its line alone. -/

namespace FlatQuery

/-- An opened relation file. -/
structure Reader where
  path : String
  source : LineSource
  /-- The number of lines read so far. -/
  lineNo : Nat
  /-- The number of values that every tuple must have, if it is fixed. -/
  arity : Option Nat
  deriving DecidableEq, Repr

namespace Reader

/-- Opens a relation file. -/
def openFile (fs : FileStore) (path : String) (arity : Option Nat) : Except Error Reader :=
  match fs.openFile path with
  | .ok source => .ok ⟨path, source, 0, arity⟩
  | .error fault => .error (.io path fault.message)

/-- What the line number `lineNo` of the file at `path` holds. -/
def decode (path : String) (arity : Option Nat) (lineNo : Nat) :
    Except IoFault String → Except Error Tuple
  | .error fault => .error (.io path fault.message)
  | .ok line =>
    match Tuple.read line.toList with
    | .error e => .error (.malformedTuple path lineNo e.message)
    | .ok t =>
      if arity.all (· = t.length) then .ok t
      else .error (.malformedTuple path lineNo
        ("expected " ++ toString (arity.getD 0) ++ " fields, got " ++ toString t.length))

/-- Reads the next line, or `none` at the end of the file. -/
def next (r : Reader) : Except Error (Option Tuple) × Reader :=
  match r.source.next with
  | none => (.ok none, r)
  | some (line, source) =>
    ((decode r.path r.arity (r.lineNo + 1) line).map some,
      { r with source, lineNo := r.lineNo + 1 })

/-- The number of lines that can still be read. -/
def remaining (r : Reader) : Nat := r.source.length

/-- A read that yields a tuple uses up a line. -/
theorem remaining_next_lt {r r' : Reader} {t : Tuple} (h : r.next = (.ok (some t), r')) :
    r'.remaining < r.remaining := by
  rw [next] at h
  split at h
  · simp at h
  · next line source hnext =>
    simp only [Prod.mk.injEq] at h
    obtain ⟨hline, rfl⟩ := h
    match line with
    | .error fault => simp [decode, Except.map] at hline
    | .ok text => exact LineSource.length_next_lt hnext

/-- A read never adds a line. -/
theorem remaining_next_le (r : Reader) : r.next.2.remaining ≤ r.remaining := by
  rw [next]
  split
  · exact Nat.le_refl _
  · next line source hnext => exact LineSource.length_next_le hnext

/-- A read at the end of the file changes nothing. -/
theorem next_eq_of_none {r r' : Reader} (h : r.next = (.ok none, r')) : r' = r := by
  rw [next] at h
  split at h
  · simp only [Prod.mk.injEq, true_and] at h
    exact h.symm
  · next line source hnext =>
    simp only [Prod.mk.injEq] at h
    cases hd : decode r.path r.arity (r.lineNo + 1) line <;> simp [hd, Except.map] at h

/-- Reads up to the end of the file or the first error. -/
def collect (r : Reader) : Except Error (List Tuple) × Reader :=
  match _h : r.next with
  | (.ok none, r') => (.ok [], r')
  | (.error e, r') => (.error e, r')
  | (.ok (some t), r') =>
    let (rest, last) := collect r'
    (rest.map (t :: ·), last)
termination_by r.remaining
decreasing_by exact remaining_next_lt _h

end Reader

end FlatQuery
