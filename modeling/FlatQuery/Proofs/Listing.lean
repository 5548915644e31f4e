import FlatQuery.Plan.Run
import Mathlib.Data.List.Sort

set_option autoImplicit false

/-! # Listings

A `Listing` is what an operator tree means: a finite list of tuples that ends well or in one error.
This module has the operations by which listings are put together (`append`, `flatMap`, `sorted`,
`dedup`), their laws, and `sortTuples_eq_insertionSort`, by which the sort of the engine is the
stable insertion sort of the library. -/

namespace FlatQuery

/-- A finite list of tuples and the way it ends. -/
inductive Listing
  /-- The rows are over. -/
  | nil
  /-- The rows end in an error. -/
  | fail (e : Error)
  | cons (t : Tuple) (rest : Listing)
  deriving DecidableEq, Repr

namespace Listing

/-- The listing of some tuples that ends well. -/
def ofList : List Tuple → Listing
  | [] => nil
  | t :: ts => cons t (ofList ts)

/-- The tuples in front of the end. -/
def rows : Listing → List Tuple
  | nil => []
  | fail _ => []
  | cons t L => t :: L.rows

/-- How the listing ends. -/
def ending : Listing → Except Error Unit
  | nil => .ok ()
  | fail e => .error e
  | cons _ L => L.ending

/-- The tuples if the listing ends well, and otherwise its error. -/
def outcome (L : Listing) : Except Error (List Tuple) := L.ending.map fun _ => L.rows

/-- What the pulls of a run answer one after the other: each tuple, and then the end. -/
def answers (L : Listing) : List (Except Error (Option Tuple)) :=
  L.rows.map (fun t => .ok (some t)) ++ [L.ending.map fun _ => none]

/-- One listing followed by another. Nothing follows an error. -/
def append : Listing → Listing → Listing
  | nil, M => M
  | fail e, _ => fail e
  | cons t L, M => cons t (L.append M)

instance : Append Listing := ⟨append⟩

/-- The listings of all tuples in a row, up to the first error. -/
def flatMap (f : Tuple → Listing) : Listing → Listing
  | nil => nil
  | fail e => fail e
  | cons t L => f t ++ L.flatMap f

/-- One tuple, or an error in its place. -/
def ofResult : Except Error Tuple → Listing
  | .ok t => cons t nil
  | .error e => fail e

/-- The tuple if the test holds, nothing if it does not, and the error if it fails. -/
def keepIf (test : Except Error Bool) (t : Tuple) : Listing :=
  match test with
  | .ok true => cons t nil
  | .ok false => nil
  | .error e => fail e

/-- The tuples without those that repeat the one before; `last` is the tuple before the first. -/
def dedup (last : Option Tuple) : Listing → Listing
  | nil => nil
  | fail e => fail e
  | cons t L => if last = some t then dedup last L else cons t (dedup (some t) L)

/-- The stably sorted tuples if the listing ends well, and otherwise its error alone. -/
def sorted (order : List Nat) (L : Listing) : Listing :=
  match L.outcome with
  | .ok ts => ofList (ts.insertionSort fun t u => compareBy order t u ≠ .gt)
  | .error e => fail e

/-! ## Laws of `append` and `flatMap` -/

@[simp] theorem nil_append (M : Listing) : nil ++ M = M := rfl

@[simp] theorem fail_append (e : Error) (M : Listing) : fail e ++ M = fail e := rfl

@[simp] theorem cons_append (t : Tuple) (L M : Listing) : cons t L ++ M = cons t (L ++ M) := rfl

@[simp] theorem append_nil (L : Listing) : L ++ nil = L := by
  induction L with
  | nil => rfl
  | fail e => rfl
  | cons t L ih => rw [cons_append, ih]

theorem append_assoc (L M N : Listing) : L ++ M ++ N = L ++ (M ++ N) := by
  induction L with
  | nil => rfl
  | fail e => rfl
  | cons t L ih => simp only [cons_append, ih]

@[simp] theorem flatMap_nil (f : Tuple → Listing) : flatMap f nil = nil := rfl

@[simp] theorem flatMap_fail (f : Tuple → Listing) (e : Error) : flatMap f (fail e) = fail e := rfl

@[simp] theorem flatMap_cons (f : Tuple → Listing) (t : Tuple) (L : Listing) :
    flatMap f (cons t L) = f t ++ flatMap f L := rfl

theorem ofList_append (ts us : List Tuple) : ofList (ts ++ us) = ofList ts ++ ofList us := by
  induction ts with
  | nil => rfl
  | cons t ts ih => simp only [List.cons_append, ofList, ih, cons_append]

/-! ## Rows and endings -/

@[simp] theorem rows_ofList (ts : List Tuple) : (ofList ts).rows = ts := by
  induction ts with
  | nil => rfl
  | cons t ts ih => rw [ofList, rows, ih]

@[simp] theorem ending_ofList (ts : List Tuple) : (ofList ts).ending = .ok () := by
  induction ts with
  | nil => rfl
  | cons t ts ih => rw [ofList, ending, ih]

@[simp] theorem outcome_ofList (ts : List Tuple) : (ofList ts).outcome = .ok ts := by
  simp [outcome, Except.map]

@[simp] theorem outcome_fail (e : Error) : (fail e).outcome = .error e := rfl

theorem outcome_cons (t : Tuple) (L : Listing) :
    (cons t L).outcome = L.outcome.map (t :: ·) := by
  simp only [outcome, ending, rows]
  cases L.ending <;> rfl

/-- A listing has the outcome `ts` exactly when it lists `ts` and ends well. -/
theorem outcome_eq_ok_iff {L : Listing} {ts : List Tuple} : L.outcome = .ok ts ↔ L = ofList ts := by
  constructor
  · intro h
    induction L generalizing ts with
    | nil =>
      cases h
      rfl
    | fail e => simp at h
    | cons t L ih =>
      rw [outcome_cons] at h
      cases hL : L.outcome with
      | error e => simp [hL, Except.map] at h
      | ok us =>
        simp only [hL, Except.map, Except.ok.injEq] at h
        subst h
        rw [ih hL, ofList]
  · rintro rfl
    exact outcome_ofList ts

/-- A listing that starts with some tuples fails exactly as the rest of it does. -/
theorem outcome_ofList_append (ts : List Tuple) (L : Listing) :
    (ofList ts ++ L).outcome = L.outcome.map (ts ++ ·) := by
  induction ts with
  | nil => cases h : L.outcome <;> simp [ofList, h, Except.map]
  | cons t ts ih =>
    rw [ofList, cons_append, outcome_cons, ih]
    cases L.outcome <;> rfl

@[simp] theorem answers_nil : nil.answers = [.ok none] := rfl

@[simp] theorem answers_fail (e : Error) : (fail e).answers = [.error e] := rfl

@[simp] theorem answers_cons (t : Tuple) (L : Listing) :
    (cons t L).answers = .ok (some t) :: L.answers := rfl

end Listing

/-! ## The stable sort -/

section StableSort

open Std (TransCmp)

/-- Values at one position compare like optional integers, a missing value first. -/
theorem compareAt_eq (t u : Tuple) (i : Nat) :
    compareAt t u i = compare ((t.get? i).map Int64.toInt) ((u.get? i).map Int64.toInt) := by
  unfold compareAt
  cases t.get? i <;> cases u.get? i <;> rfl

instance transCmp_compareAt (i : Nat) : TransCmp (fun t u => compareAt t u i) where
  eq_swap := by
    intro t u
    rw [compareAt_eq, compareAt_eq]
    exact Std.OrientedCmp.eq_swap
  isLE_trans := by
    intro t u v htu huv
    rw [compareAt_eq] at htu huv ⊢
    exact TransCmp.isLE_trans htu huv

instance transCmp_compareBy (order : List Nat) : TransCmp (compareBy order) := by
  induction order with
  | nil => exact { eq_swap := rfl, isLE_trans := fun _ _ => rfl }
  | cons i order ih =>
    exact inferInstanceAs (TransCmp (compareLex (fun t u => compareAt t u i) (compareBy order)))

theorem compareBy_ne_gt_iff {order : List Nat} {t u : Tuple} :
    compareBy order t u ≠ .gt ↔ (compareBy order t u).isLE := by
  cases compareBy order t u <;> simp

theorem compareBy_trans (order : List Nat) (t u v : Tuple)
    (htu : decide (compareBy order t u ≠ .gt)) (huv : decide (compareBy order u v ≠ .gt)) :
    decide (compareBy order t v ≠ .gt) := by
  simp only [decide_eq_true_eq, compareBy_ne_gt_iff] at htu huv ⊢
  exact TransCmp.isLE_trans htu huv

theorem compareBy_swap (order : List Nat) (t u : Tuple) :
    compareBy order t u = (compareBy order u t).swap :=
  Std.OrientedCmp.eq_swap

theorem compareBy_total (order : List Nat) (t u : Tuple) :
    decide (compareBy order t u ≠ .gt) || decide (compareBy order u t ≠ .gt) := by
  cases h : compareBy order u t <;> simp [compareBy_swap order t u, h]

/-- Sorted tuples are in ascending order. -/
theorem pairwise_sortTuples (order : List Nat) (ts : List Tuple) :
    (sortTuples order ts).Pairwise fun t u => compareBy order t u ≠ .gt := by
  have hpairs := List.pairwise_mergeSort (compareBy_trans order) (compareBy_total order) ts
  exact hpairs.imp of_decide_eq_true

/-- **The sort of the engine is the stable insertion sort.** A merge sort puts each tuple in front
of the later ones that compare equal, the place that an insertion from the right gives it. -/
theorem sortTuples_eq_insertionSort (order : List Nat) (ts : List Tuple) :
    sortTuples order ts = ts.insertionSort fun t u => compareBy order t u ≠ .gt := by
  unfold sortTuples
  induction ts with
  | nil => rw [List.mergeSort_nil, List.insertionSort_nil]
  | cons t ts ih =>
    obtain ⟨front, back, hsorted, hrest, hfront⟩ :=
      List.mergeSort_cons (compareBy_trans order) (compareBy_total order) t ts
    have hpairs :=
      List.pairwise_mergeSort (compareBy_trans order) (compareBy_total order) (t :: ts)
    rw [hsorted, List.pairwise_append, List.pairwise_cons] at hpairs
    rw [List.insertionSort_cons, ← ih, hsorted, hrest]
    clear hsorted hrest ih
    induction front with
    | nil =>
      cases back with
      | nil => rfl
      | cons u back =>
        have hu := hpairs.2.1.1 u (List.mem_cons_self ..)
        rw [List.nil_append, List.nil_append, List.orderedInsert_cons_of_le]
        exact of_decide_eq_true hu
    | cons u front ih =>
      have hu := hfront u (List.mem_cons_self ..)
      rw [List.cons_append, List.cons_append, List.orderedInsert_of_not_le]
      · rw [← ih]
        · intro v hv
          exact hfront v (List.mem_cons_of_mem _ hv)
        · rw [List.pairwise_cons] at hpairs
          exact ⟨hpairs.1.2, hpairs.2.1, fun v hv => hpairs.2.2 v (List.mem_cons_of_mem _ hv)⟩
      · simpa using hu

end StableSort

end FlatQuery
