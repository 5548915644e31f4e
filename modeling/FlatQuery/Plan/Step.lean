import FlatQuery.Plan
import FlatQuery.Reader

set_option autoImplicit false

/-! # Steps of operators

A run of a plan advances in steps. A step yields a tuple, or moves on without one, or finds that the
rows are over, or fails; it always leaves a state from which the run can go on. This module has the
steps of the single operators, given the steps of their children: no step loops. -/

namespace FlatQuery

/-- The outcome of one step, with the state after it. -/
inductive Step (σ : Type)
  | yield (t : Tuple) (s : σ)
  | skip (s : σ)
  | done (s : σ)
  | fail (e : Error) (s : σ)

namespace Step

/-- The same outcome with the state seen through `f`. -/
def map {σ τ : Type} (f : σ → τ) : Step σ → Step τ
  | yield t s => yield t (f s)
  | skip s => skip (f s)
  | done s => done (f s)
  | fail e s => fail e (f s)

/-- The outcome after a test of the yielded tuple. -/
def filter {σ : Type} (test : Tuple → Except Error Bool) : Step σ → Step σ
  | yield t s =>
    match test t with
    | .ok true => yield t s
    | .ok false => skip s
    | .error e => fail e s
  | outcome => outcome

/-- The outcome after a change of the yielded tuple. -/
def transform {σ : Type} (f : Tuple → Except Error Tuple) : Step σ → Step σ
  | yield t s =>
    match f t with
    | .ok u => yield u s
    | .error e => fail e s
  | outcome => outcome

end Step

/-! ## Lists and files -/

/-- Yields the first of the remaining rows. -/
def stepRows : List Tuple → Step (List Tuple)
  | [] => .done []
  | t :: rest => .yield t rest

/-- Reads one line. -/
def Reader.step (r : Reader) : Step Reader :=
  match r.next with
  | (.ok (some t), r') => .yield t r'
  | (.ok none, r') => .done r'
  | (.error e, r') => .fail e r'

/-- Reads one line of a file that is opened by the first step. -/
def stepScan (openReader : Except Error Reader) : Option Reader → Step (Option Reader)
  | some r => r.step.map some
  | none =>
    match openReader with
    | .ok r => r.step.map some
    | .error e => .fail e none

/-! ## Projection -/

/-- The projected tuple; `columns` is the text of the projected schema. -/
def projectTuple (columns : Unit → String) (positions : List Nat) (t : Tuple) :
    Except Error Tuple :=
  match t.project? positions with
  | some u => .ok u
  | none => .error (.columnIndexOutOfRange (columns ()) (positions.max?.getD 0) t.length)

/-! ## Joins -/

/-- The state of a join: the states of both sides and the left tuple that is being matched. -/
structure JoinState (σ τ : Type) where
  left : σ
  right : τ
  current : Option Tuple

/-- Whether a joined tuple is kept. -/
def accepts (predicate : Option Predicate) (t : Tuple) : Except Error Bool :=
  match predicate with
  | none => .ok true
  | some p => p.eval t

/-- Takes the next left tuple and rewinds the right side for it, or, while a left tuple is being
matched, pairs it with the next right tuple. A left tuple for which the right side does not rewind
is lost. -/
def stepJoin {σ τ : Type} (stepLeft : σ → Step σ) (stepRight : τ → Step τ)
    (rewindRight : τ → Except Error Unit × τ) (predicate : Option Predicate)
    (s : JoinState σ τ) : Step (JoinState σ τ) :=
  match s.current with
  | none =>
    match stepLeft s.left with
    | .yield t left =>
      match rewindRight s.right with
      | (.ok (), right) => .skip ⟨left, right, some t⟩
      | (.error e, right) => .fail e ⟨left, right, none⟩
    | .skip left => .skip ⟨left, s.right, none⟩
    | .done left => .done ⟨left, s.right, none⟩
    | .fail e left => .fail e ⟨left, s.right, none⟩
  | some t =>
    match stepRight s.right with
    | .yield u right =>
      match accepts predicate (t ++ u) with
      | .ok true => .yield (t ++ u) ⟨s.left, right, some t⟩
      | .ok false => .skip ⟨s.left, right, some t⟩
      | .error e => .fail e ⟨s.left, right, some t⟩
    | .skip right => .skip ⟨s.left, right, some t⟩
    | .done right => .skip ⟨s.left, right, none⟩
    | .fail e right => .fail e ⟨s.left, right, some t⟩

/-! ## Sorting -/

/-- The buffer of a sort. -/
inductive SortBuffer
  /-- The child is being drained; the tuples read so far are given in reverse. -/
  | filling (read : List Tuple)
  /-- All tuples in order, and those among them still to be yielded. -/
  | ready (all rest : List Tuple)
  deriving DecidableEq, Repr

/-- The state of a sort: the state of the child and the buffer. -/
structure SortState (σ : Type) where
  child : σ
  buffer : SortBuffer

/-- The order of two values at one position, where a missing value precedes all others. -/
def compareAt (t u : Tuple) (i : Nat) : Ordering :=
  match t.get? i, u.get? i with
  | none, none => .eq
  | none, some _ => .lt
  | some _, none => .gt
  | some a, some b => compare a.toInt b.toInt

/-- The order of two tuples by the values at the given positions, one after the other. -/
def compareBy : List Nat → Tuple → Tuple → Ordering
  | [], _, _ => .eq
  | i :: order, t, u => (compareAt t u i).then (compareBy order t u)

/-- The tuples in ascending order; equal tuples keep their order. -/
def sortTuples (order : List Nat) (ts : List Tuple) : List Tuple :=
  ts.mergeSort fun t u => compareBy order t u ≠ .gt

/-- Reads one tuple of the child into the buffer, or yields one when the buffer is complete. What
was read is lost when the child fails. -/
def stepSort {σ : Type} (step : σ → Step σ) (order : List Nat) (s : SortState σ) :
    Step (SortState σ) :=
  match s.buffer with
  | .filling read =>
    match step s.child with
    | .yield t child => .skip ⟨child, .filling (t :: read)⟩
    | .skip child => .skip ⟨child, .filling read⟩
    | .done child =>
      let sorted := sortTuples order read.reverse
      .skip ⟨child, .ready sorted sorted⟩
    | .fail e child => .fail e ⟨child, .filling []⟩
  | .ready all rest => (stepRows rest).map fun rest => ⟨s.child, .ready all rest⟩

/-- The buffer with all of its tuples to be yielded again. A buffer that is not complete stays. -/
def SortBuffer.rewind : SortBuffer → SortBuffer
  | filling read => filling read
  | ready all _ => ready all all

/-! ## Removal of repeated tuples -/

/-- The state of a removal: the state of the child and the last tuple yielded. -/
structure DistinctState (σ : Type) where
  child : σ
  last : Option Tuple

/-- Passes on a tuple that differs from the last one. -/
def stepDistinct {σ : Type} (step : σ → Step σ) (s : DistinctState σ) : Step (DistinctState σ) :=
  match step s.child with
  | .yield t child =>
    if s.last = some t then .skip ⟨child, s.last⟩ else .yield t ⟨child, some t⟩
  | .skip child => .skip ⟨child, s.last⟩
  | .done child => .done ⟨child, s.last⟩
  | .fail e child => .fail e ⟨child, s.last⟩

end FlatQuery
