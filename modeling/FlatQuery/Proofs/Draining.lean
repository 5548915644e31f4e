import FlatQuery.Proofs.Streaming

set_option autoImplicit false

/-! # Draining

`Plan.stream` is what all pulls from a state yield, read off the steps of the run. It needs no file
to be there: an error of the run ends the stream. A drain returns the outcome of the stream
(`collect_eq_stream`). A sort and the removal of repeated tuples change the stream of their child as
they change a listing (`stream_sort`, `stream_distinct`), whatever the child is. -/

namespace FlatQuery

namespace Listing

/-- Sorting a listing sorts its tuples and keeps its error. -/
theorem outcome_sorted (order : List Nat) (L : Listing) :
    (L.sorted order).outcome = L.outcome.map (sortTuples order) := by
  unfold sorted
  cases L.outcome with
  | ok ts => simp only [outcome_ofList, Except.map, sortTuples_eq_insertionSort]
  | error e => rfl

end Listing

namespace Plan

variable {fs : FileStore} {p : Plan}

/-- The tuples that all pulls from a state yield, and how they end. -/
def stream (fs : FileStore) (p : Plan) (s : p.State) : Listing :=
  match _h : p.step fs s with
  | .yield t s' => .cons t (p.stream fs s')
  | .skip s' => p.stream fs s'
  | .done _ => .nil
  | .fail e _ => .fail e
termination_by (p.stepBounds fs s).left
decreasing_by
  all_goals
    have := (p.bounded_step fs s).1
    rw [_h] at this
    exact this

/-- A stream begins with what the next step yields. -/
theorem stream_eq (fs : FileStore) (p : Plan) (s : p.State) :
    p.stream fs s =
      match p.step fs s with
      | .yield t s' => .cons t (p.stream fs s')
      | .skip s' => p.stream fs s'
      | .done _ => .nil
      | .fail e _ => .fail e := by
  rw [stream]
  split <;> next h => simp only [h]

/-- Pulling all tuples hands the stream to the consumer. -/
theorem fold_eq_stream {α : Type} (fs : FileStore) (f : α → Tuple → Except Error Unit × α) (a : α)
    (s : p.State) :
    ((p.fold fs f a s).1, (p.fold fs f a s).2.1) = (p.stream fs s).feed f a := by
  fun_induction p.fold fs f a s with
  | case1 a s t s' h a' hf ih => rw [stream_eq, h, Listing.feed, hf, ih]
  | case2 a s t s' h e a' hf => rw [stream_eq, h, Listing.feed, hf]
  | case3 a s s' h ih => rw [stream_eq, h, ih]
  | case4 a s s' h =>
    rw [stream_eq, h]
    rfl
  | case5 a s e s' h =>
    rw [stream_eq, h]
    rfl

/-- A drain returns the tuples of the stream, or the error that ends it. -/
theorem collect_eq_stream (fs : FileStore) (p : Plan) (s : p.State) :
    (p.collect fs s).1 = (p.stream fs s).outcome := by
  have h := fold_eq_stream fs (fun read t => (.ok (), t :: read)) ([] : List Tuple) s
  rw [Listing.feed_push, Prod.mk.injEq, List.append_nil] at h
  simp only [collect, h.1, h.2, List.reverse_reverse, Listing.outcome]

/-! ## Sorts -/

/-- A sort that has its tuples yields those that are left. -/
theorem stream_ready (child : Plan) (keys : List ColumnRef) (order : List Nat) (c : child.State)
    (all rest : List Tuple) :
    (sort child keys order).stream fs (⟨c, .ready all rest⟩ : SortState child.State) =
      .ofList rest := by
  induction rest with
  | nil =>
    rw [stream_eq]
    rfl
  | cons t rest ih =>
    rw [stream_eq, Listing.ofList, ← ih]
    rfl

/-- A sort reads the stream of its child to the end before it yields anything. -/
theorem stream_sort (child : Plan) (keys : List ColumnRef) (order : List Nat) (c : child.State)
    (read : List Tuple) :
    (sort child keys order).stream fs (⟨c, .filling read⟩ : SortState child.State) =
      (.ofList read.reverse ++ child.stream fs c : Listing).sorted order := by
  fun_induction child.stream fs c generalizing read with
  | case1 c t c' h ih =>
    rw [stream_eq]
    simp only [step, stepSort, h, ih, List.reverse_cons, Listing.ofList_append, Listing.append_assoc]
    rfl
  | case2 c c' h ih =>
    rw [stream_eq]
    simp only [step, stepSort, h, ih]
  | case3 c c' h =>
    rw [stream_eq]
    simp only [step, stepSort, h, stream_ready, Listing.append_nil, Listing.sorted,
      Listing.outcome_ofList, sortTuples_eq_insertionSort]
  | case4 c e c' h =>
    rw [stream_eq]
    simp only [step, stepSort, h, sorted_ofList_append_fail]

/-! ## Removal of repeated tuples -/

/-- A removal passes on the tuples of its child that differ from the last one passed on. -/
theorem stream_distinct (child : Plan) (c : child.State) (last : Option Tuple) :
    (distinct child).stream fs (⟨c, last⟩ : DistinctState child.State) =
      (child.stream fs c).dedup last := by
  fun_induction child.stream fs c generalizing last with
  | case1 c t c' h ih =>
    rw [stream_eq, Listing.dedup]
    simp only [step, stepDistinct, h]
    by_cases hlast : last = some t
    · simp only [if_pos hlast, ih]
    · simp only [if_neg hlast, ih]
  | case2 c c' h ih =>
    rw [stream_eq]
    simp only [step, stepDistinct, h, ih]
  | case3 c c' h =>
    rw [stream_eq]
    simp only [step, stepDistinct, h]
    rfl
  | case4 c e c' h =>
    rw [stream_eq]
    simp only [step, stepDistinct, h]
    rfl

end Plan

end FlatQuery
