import FlatQuery.Proofs.Arity
import FlatQuery.Proofs.Pushdown
import Mathlib.Data.List.Destutter
import Mathlib.Data.List.Lex

set_option autoImplicit false

/-! # Ordering and removal of repeated rows

ORDER BY and DISTINCT stand on top of the plan of the block without them (`planSelect_eq_arrange`).
`Tuple.key` is what rows are ordered by, a list of integers in lexicographic order; the comparison of
the engine is that order (`compareBy_lt_iff`). A full sort brings equal rows together, so that the
removal of adjacent repetitions removes all of them (`destutter_sortTuples`). The main result is
`collect_ordered`. -/

namespace FlatQuery

/-! ## Comparisons -/

/-- The values of a tuple at some positions, as far as they exist. -/
def Tuple.key (order : List Nat) (t : Tuple) : List Int :=
  order.filterMap fun i => (t.get? i).map Int64.toInt

/-- The positions by which rows are ordered: first some given ones, then the other columns in the
order of the schema. -/
def Schema.sortOrder (s : Schema) (positions : List Nat) : List Nat :=
  positions ++ (List.range s.length).filter (· ∉ positions)

section Comparisons

variable {order : List Nat} {t u : Tuple} {i n : Nat}

theorem compareBy_append (xs ys : List Nat) (t u : Tuple) :
    compareBy (xs ++ ys) t u = (compareBy xs t u).then (compareBy ys t u) := by
  induction xs with
  | nil => rfl
  | cons i xs ih => rw [List.cons_append, compareBy, compareBy, ih, Ordering.then_assoc]

theorem compareAt_eq_eq_iff : compareAt t u i = .eq ↔ t.get? i = u.get? i := by
  unfold compareAt
  cases t.get? i with
  | none => cases u.get? i <;> simp
  | some a =>
    cases u.get? i with
    | none => simp
    | some b => simp [Int64.toInt_inj]

/-- Tuples compare equal if they agree on all positions of the order. -/
theorem compareBy_eq_eq_iff : compareBy order t u = .eq ↔ ∀ i ∈ order, t.get? i = u.get? i := by
  induction order with
  | nil => simp [compareBy]
  | cons i order ih =>
    rw [compareBy, Ordering.then_eq_eq, compareAt_eq_eq_iff, ih, List.forall_mem_cons]

/-- A position that was compared before decides nothing. -/
theorem compareBy_append_filter (xs ys : List Nat) (t u : Tuple) :
    compareBy (xs ++ ys.filter (· ∉ xs)) t u = compareBy (xs ++ ys) t u := by
  rw [compareBy_append, compareBy_append]
  cases hxs : compareBy xs t u with
  | lt => rfl
  | gt => rfl
  | eq =>
    rw [compareBy_eq_eq_iff] at hxs
    show compareBy (ys.filter (· ∉ xs)) t u = compareBy ys t u
    induction ys with
    | nil => rfl
    | cons i ys ih =>
      by_cases hi : i ∈ xs
      · rw [List.filter_cons_of_neg (by simpa using hi), ih, compareBy,
          compareAt_eq_eq_iff.2 (hxs i hi)]
        rfl
      · rw [List.filter_cons_of_pos (by simpa using hi), compareBy, compareBy, ih]

/-- Repeated positions decide nothing. -/
theorem compareBy_firstOccurrences (positions : List Nat) (t u : Tuple) :
    compareBy (Plan.firstOccurrences positions) t u = compareBy positions t u := by
  have hseen : ∀ seen : List Nat, compareBy
      (positions.foldl (fun seen i => if i ∈ seen then seen else seen ++ [i]) seen) t u =
        compareBy (seen ++ positions) t u := by
    induction positions with
    | nil => simp
    | cons i positions ih =>
      intro seen
      rw [List.foldl_cons, ih]
      split
      · next hi =>
        rw [← compareBy_append_filter seen positions, ← compareBy_append_filter seen (i :: positions),
          List.filter_cons_of_neg (by simpa using hi)]
      · rw [List.append_assoc, List.singleton_append]
  exact hseen []

/-- The order in which a sort by keys compares is that of the keys and then of the other columns. -/
theorem compareBy_sortOrder (s : Schema) (positions : List Nat) (t u : Tuple) :
    compareBy (Plan.firstOccurrences (positions ++ List.range s.length)) t u =
      compareBy (s.sortOrder positions) t u := by
  rw [compareBy_firstOccurrences, Schema.sortOrder, compareBy_append_filter]

/-- **A comparison is the lexicographic order of the keys**, for tuples that have all of the
positions. -/
theorem compareBy_lt_iff (ht : ∀ i ∈ order, i < t.length) (hu : ∀ i ∈ order, i < u.length) :
    compareBy order t u = .lt ↔ t.key order < u.key order := by
  induction order with
  | nil => simp [compareBy, Tuple.key]
  | cons i order ih =>
    obtain ⟨hti, ht⟩ := List.forall_mem_cons.1 ht
    obtain ⟨hui, hu⟩ := List.forall_mem_cons.1 hu
    obtain ⟨v, hv⟩ : ∃ v, t.get? i = some v := ⟨_, List.getElem?_eq_getElem hti⟩
    obtain ⟨w, hw⟩ : ∃ w, u.get? i = some w := ⟨_, List.getElem?_eq_getElem hui⟩
    rw [compareBy, Ordering.then_eq_lt, ih ht hu]
    simp only [compareAt, Tuple.key, List.filterMap_cons, hv, hw, Option.map_some,
      List.cons_lt_cons_iff, compare_lt_iff_lt, compare_eq_iff_eq]

theorem compareBy_ne_gt_iff_le (ht : ∀ i ∈ order, i < t.length) (hu : ∀ i ∈ order, i < u.length) :
    compareBy order t u ≠ .gt ↔ t.key order ≤ u.key order := by
  rw [← not_lt, ← compareBy_lt_iff hu ht, compareBy_swap order u t, Ordering.swap_eq_lt]

theorem mem_sortOrder {s : Schema} {positions : List Nat} (hi : i < s.length) :
    i ∈ s.sortOrder positions := by
  by_cases hmem : i ∈ positions
  · exact List.mem_append_left _ hmem
  · exact List.mem_append_right _ (List.mem_filter.2 ⟨List.mem_range.2 hi, by simpa using hmem⟩)

theorem lt_of_mem_sortOrder {s : Schema} {positions : List Nat}
    (hpositions : ∀ i ∈ positions, i < s.length) (hi : i ∈ s.sortOrder positions) :
    i < s.length := by
  rcases List.mem_append.1 hi with hi | hi
  · exact hpositions i hi
  · exact List.mem_range.1 (List.mem_filter.1 hi).1

/-- Tuples of one length that agree everywhere are equal. -/
theorem Tuple.eq_of_get? (ht : t.length = n) (hu : u.length = n)
    (h : ∀ i < n, t.get? i = u.get? i) : t = u := by
  obtain ⟨vs⟩ := t
  obtain ⟨ws⟩ := u
  rw [Tuple.mk.injEq]
  apply List.ext_getElem?
  intro i
  by_cases hi : i < n
  · exact h i hi
  · rw [List.getElem?_eq_none (by rw [← Tuple.length, ht]; omega),
      List.getElem?_eq_none (by rw [← Tuple.length, hu]; omega)]

/-- Tuples that are compared on all of their values and of which none comes first are equal. -/
theorem Tuple.eq_of_compareBy (ht : t.length = n) (hu : u.length = n)
    (horder : ∀ i < n, i ∈ order) (htu : compareBy order t u ≠ .gt)
    (hut : compareBy order u t ≠ .gt) : t = u := by
  have heq : compareBy order t u = .eq := by
    rw [compareBy_swap order u t] at hut
    cases h : compareBy order t u with
    | lt => exact absurd (by rw [h]; rfl) hut
    | eq => rfl
    | gt => exact absurd h htu
  exact Tuple.eq_of_get? ht hu fun i hi => compareBy_eq_eq_iff.1 heq i (horder i hi)

end Comparisons

/-! ## Removal of repetitions -/

namespace Listing

/-- The removal of repetitions from tuples that end well. -/
theorem dedup_ofList (ts : List Tuple) :
    (ofList ts).dedup none = ofList (ts.destutter (· ≠ ·)) := by
  have hlast : ∀ t : Tuple,
      cons t ((ofList ts.tail).dedup (some t)) = ofList (ts.tail.destutter' (· ≠ ·) t) := by
    induction ts.tail with
    | nil => exact fun t => rfl
    | cons u us ih =>
      intro t
      rw [ofList, dedup]
      by_cases h : t = u
      · rw [if_pos (congrArg some h), List.destutter'_cons_neg _ (not_not.2 h)]
        exact ih t
      · rw [if_neg (fun heq => h (Option.some.inj heq)), List.destutter'_cons_pos _ h, ih u]
        rfl
  cases ts with
  | nil => rfl
  | cons t ts =>
    rw [ofList, dedup, if_neg (by simp), List.destutter_cons']
    exact hlast t

theorem ending_dedup (L : Listing) (last : Option Tuple) : (L.dedup last).ending = L.ending := by
  induction L generalizing last with
  | nil => rfl
  | fail e => rfl
  | cons t L ih =>
    rw [dedup]
    split
    · exact ih last
    · exact ih (some t)

/-- A removal keeps an error, whatever was passed on before. -/
theorem outcome_dedup (L : Listing) :
    (L.dedup none).outcome = L.outcome.map (List.destutter (· ≠ ·)) := by
  cases hL : L.outcome with
  | ok ts => rw [outcome_eq_ok_iff.1 hL, dedup_ofList, outcome_ofList, Except.map]
  | error e =>
    have hending : L.ending = .error e := by
      unfold outcome at hL
      cases h : L.ending with
      | ok u =>
        rw [h] at hL
        cases hL
      | error e' =>
        rw [h] at hL
        cases hL
        rfl
    rw [outcome, ending_dedup, hending]
    rfl

end Listing

/-- In sorted tuples that are compared on all of their values, equal ones stand together. -/
theorem destutter_sortTuples {order : List Nat} {ts : List Tuple} {n : Nat}
    (hlength : ∀ t ∈ ts, t.length = n) (horder : ∀ i < n, i ∈ order) :
    (sortTuples order ts).destutter (· ≠ ·) = (sortTuples order ts).dedup := by
  let below (t u : Tuple) : Prop := t.length = n ∧ u.length = n ∧ compareBy order t u ≠ .gt
  have hantisymm : Std.Antisymm below :=
    ⟨fun t u htu hut => Tuple.eq_of_compareBy htu.1 htu.2.1 horder htu.2.2 hut.2.2⟩
  have hpairs : (sortTuples order ts).Pairwise below := by
    refine (pairwise_sortTuples order ts).imp_of_mem ?_
    intro t u ht hu htu
    exact ⟨hlength t (List.mem_mergeSort.1 ht), hlength u (List.mem_mergeSort.1 hu), htu⟩
  exact hpairs.destutter_eq_dedup

/-- What is compared on all of its values is sorted alike in whatever order it comes. -/
theorem sortTuples_eq_of_perm {order : List Nat} {ts us : List Tuple} {n : Nat} (h : ts.Perm us)
    (hlength : ∀ t ∈ ts, t.length = n) (horder : ∀ i < n, i ∈ order) :
    sortTuples order ts = sortTuples order us := by
  have hperm : (sortTuples order ts).Perm (sortTuples order us) :=
    (List.mergeSort_perm ts _).trans (h.trans (List.mergeSort_perm us _).symm)
  refine hperm.eq_of_pairwise ?_ (pairwise_sortTuples order ts) (pairwise_sortTuples order us)
  intro t u ht hu htu hut
  have hts := hlength t (List.mem_mergeSort.1 ht)
  have hus := hlength u (h.mem_iff.2 (List.mem_mergeSort.1 hu))
  exact Tuple.eq_of_compareBy hts hus horder htu hut

section Keys

variable {s : Schema} {positions : List Nat} {ts : List Tuple}

/-- Tuples sorted by some columns and then by the others ascend by their keys. -/
theorem pairwise_key_le (hpositions : ∀ i ∈ positions, i < s.length)
    (hts : ∀ t ∈ ts, t.length = s.length) :
    (sortTuples (s.sortOrder positions) ts).Pairwise fun t u =>
      t.key (s.sortOrder positions) ≤ u.key (s.sortOrder positions) := by
  have hall : ∀ t ∈ sortTuples (s.sortOrder positions) ts,
      ∀ i ∈ s.sortOrder positions, i < t.length := by
    intro t ht i hi
    rw [hts t (List.mem_mergeSort.1 ht)]
    exact lt_of_mem_sortOrder hpositions hi
  refine (pairwise_sortTuples _ ts).imp_of_mem ?_
  intro t u ht hu htu
  exact (compareBy_ne_gt_iff_le (hall t ht) (hall u hu)).1 htu

/-- Without repetitions they ascend strictly: tuples with equal keys are equal. -/
theorem pairwise_key_lt (hpositions : ∀ i ∈ positions, i < s.length)
    (hts : ∀ t ∈ ts, t.length = s.length) :
    (sortTuples (s.sortOrder positions) ts).dedup.Pairwise fun t u =>
      t.key (s.sortOrder positions) < u.key (s.sortOrder positions) := by
  have hle := (pairwise_key_le hpositions hts).sublist (List.dedup_sublist _)
  have hne := List.nodup_dedup (sortTuples (s.sortOrder positions) ts)
  refine (hle.and hne).imp_of_mem ?_
  intro t u ht hu ⟨htu, hne⟩
  have ht := hts t (List.mem_mergeSort.1 (List.mem_dedup.1 ht))
  have hu := hts u (List.mem_mergeSort.1 (List.mem_dedup.1 hu))
  have hlt {v : Tuple} (hv : v.length = s.length) : ∀ i ∈ s.sortOrder positions, i < v.length :=
    fun i hi => hv ▸ lt_of_mem_sortOrder hpositions hi
  refine lt_of_le_not_ge htu fun hut => hne ?_
  exact Tuple.eq_of_compareBy ht hu (fun i hi => mem_sortOrder hi)
    ((compareBy_ne_gt_iff_le (hlt ht) (hlt hu)).2 htu)
    ((compareBy_ne_gt_iff_le (hlt hu) (hlt ht)).2 hut)

end Keys

/-! ## Drains -/

namespace Plan

variable {fs : FileStore}

/-- A sort that has read nothing yet returns the sorted tuples that its child has left. -/
theorem collect_filling (fs : FileStore) (child : Plan) (keys : List ColumnRef) (order : List Nat)
    (c : child.State) :
    ((sort child keys order).collect fs (⟨c, .filling []⟩ : SortState child.State)).1 =
      (child.collect fs c).1.map (sortTuples order) := by
  rw [collect_eq_stream, collect_eq_stream]
  exact (congrArg Listing.outcome (stream_sort child keys order c [])).trans
    (Listing.outcome_sorted order _)

/-- A fresh sort returns the sorted tuples of its child. -/
theorem collect_sort (fs : FileStore) (child : Plan) (keys : List ColumnRef) (order : List Nat) :
    ((sort child keys order).collect fs (sort child keys order).start).1 =
      (child.collect fs child.start).1.map (sortTuples order) :=
  collect_filling fs child keys order child.start

/-- A fresh removal returns the tuples of its child without those that repeat the one before. -/
theorem collect_distinct (fs : FileStore) (child : Plan) :
    ((distinct child).collect fs (distinct child).start).1 =
      (child.collect fs child.start).1.map (List.destutter (· ≠ ·)) := by
  rw [collect_eq_stream, collect_eq_stream]
  exact (congrArg Listing.outcome (stream_distinct child child.start none)).trans
    (Listing.outcome_dedup _)

/-- The tuples of a drain have a value for each column. -/
theorem length_of_mem_collect {p : Plan} {rows : List Tuple} (hp : p.Shaped)
    (h : (p.collect fs p.start).1 = .ok rows) : ∀ t ∈ rows, t.length = p.schema.length := by
  have hstream := length_of_mem_stream fs hp (fits_start hp)
  rw [collect_eq_stream] at h
  rw [Listing.outcome_eq_ok_iff.1 h, Listing.rows_ofList] at hstream
  exact hstream

end Plan

/-! ## Blocks -/

/-- The block without its ORDER BY list and without DISTINCT. -/
def Select.unordered (block : Select) : Select := { block with orderBy := [], distinct := false }

/-- Puts the sort and the removal of repeated rows that a block asks for on top of a plan. -/
def Select.arrange (block : Select) (q : Plan) : Except Error Plan :=
  (if block.orderBy.isEmpty then .ok q else q.sortBy block.orderBy) >>= fun sorted =>
    .ok (if block.distinct then
      .distinct (if block.orderBy.isEmpty then sorted.sortAll else sorted)
    else sorted)

section Blocks

variable {c : Catalog} {block : Select} {p q : Plan}

/-- What ORDER BY and DISTINCT make of rows that are compared by the positions of `order`. -/
def Select.arranged (block : Select) (order : List Nat) (rows : List Tuple) : List Tuple :=
  if block.distinct then (sortTuples order rows).destutter (· ≠ ·)
  else if block.orderBy.isEmpty then rows
  else sortTuples order rows

/-- A plan with the sort and the removal on top returns the rows of the plan as arranged by the keys
and then by the other columns. -/
theorem collect_arrange (h : block.arrange q = .ok p) :
    ∃ positions,
      block.orderBy.mapM (fun key => q.schema.indexOf key.table key.column) = .ok positions ∧
      p.schema = q.schema ∧
      ∀ fs, (p.collect fs p.start).1 =
        (q.collect fs q.start).1.map (block.arranged (q.schema.sortOrder positions)) := by
  obtain ⟨sorted, hsorted, h⟩ := bind_eq_ok_iff.1 h
  obtain ⟨positions, order, hpositions, horder, hplan⟩ : ∃ positions order,
      block.orderBy.mapM (fun key => q.schema.indexOf key.table key.column) = .ok positions ∧
      sortTuples order = sortTuples (q.schema.sortOrder positions) ∧
      p = if block.distinct then .distinct (.sort q block.orderBy order)
        else if block.orderBy.isEmpty then q else .sort q block.orderBy order := by
    cases h
    cases hkeys : block.orderBy with
    | nil =>
      rw [hkeys] at hsorted
      cases hsorted
      refine ⟨[], List.range q.schema.length, rfl, ?_, rfl⟩
      simp [Schema.sortOrder]
    | cons key keys =>
      rw [hkeys] at hsorted
      obtain ⟨positions, hpositions, hsorted⟩ := bind_eq_ok_iff.1 hsorted
      cases hsorted
      refine ⟨positions, _, hpositions, ?_, rfl⟩
      funext ts
      simp only [sortTuples, compareBy_sortOrder]
  refine ⟨positions, hpositions, ?_⟩
  unfold Select.arranged
  rw [← horder]
  cases hdistinct : block.distinct with
  | true =>
    rw [hdistinct, if_pos rfl] at hplan
    subst hplan
    refine ⟨rfl, fun fs => ?_⟩
    rw [Plan.collect_distinct, Plan.collect_sort]
    cases (q.collect fs q.start).1 <;> rfl
  | false =>
    rw [hdistinct, if_neg Bool.false_ne_true] at hplan
    cases hkeys : block.orderBy.isEmpty with
    | true =>
      rw [hkeys, if_pos rfl] at hplan
      subst hplan
      refine ⟨rfl, fun fs => ?_⟩
      cases (p.collect fs p.start).1 <;> rfl
    | false =>
      rw [hkeys, if_neg Bool.false_ne_true] at hplan
      subst hplan
      exact ⟨rfl, fun fs => Plan.collect_sort fs q block.orderBy order⟩

theorem finish_eq_arrange (block : Select) (root : Plan) :
    Planner.finish block root = Planner.finish block.unordered root >>= block.arrange := by
  rw [Planner.finish_eq, Planner.finish_eq]
  simp only [Select.unordered]
  cases root.projectTo block.items <;> rfl

/-- **Sort and removal stand on top of the plan of the block without them.** -/
theorem planSelect_eq_arrange (c : Catalog) (block : Select) :
    (Planner.planSelect c block).1 =
      (Planner.planSelect c block.unordered).1 >>= block.arrange := by
  have hassemble (d : Catalog) («from» : List FromTable) :
      Planner.assemble d block «from» =
        Planner.assemble d block.unordered «from» >>= block.arrange := by
    simp only [Planner.assemble, bind_assoc, ← finish_eq_arrange]
    rfl
  have hitems : block.unordered.fromItems = block.fromItems := rfl
  unfold Planner.planSelect
  rw [hitems]
  cases Planner.tablesOf block.fromItems with
  | error e => rfl
  | ok refs =>
    rcases hread : Planner.readTables c [] refs with ⟨e | «from», d⟩ <;> simp only [hread]
    · rfl
    · exact hassemble d «from»

/-- **ORDER BY and DISTINCT only reorder rows and remove repeated ones.** Let a block be planned.
Then the block without ORDER BY and DISTINCT is planned as well and each key is a column of its
schema. If its drain fails, so does that of the block, with the same error; if it returns some rows,
the block returns the same rows in another order, under DISTINCT each of them once. They ascend by
the keys and then by the other columns, under DISTINCT strictly, if the block has keys or
DISTINCT. -/
theorem collect_ordered (hplan : (c.plan (.select block)).1 = .ok p) (fs : FileStore) :
    ∃ q positions, (c.plan (.select block.unordered)).1 = .ok q ∧ p.schema = q.schema ∧
      block.orderBy.mapM (fun key => q.schema.indexOf key.table key.column) = .ok positions ∧
      match (q.collect fs q.start).1 with
      | .error e => (p.collect fs p.start).1 = .error e
      | .ok rows => (∀ t ∈ rows, t.length = q.schema.length) ∧
          ∃ out, (p.collect fs p.start).1 = .ok out ∧
            (block.distinct = false → out.Perm rows) ∧
            (block.distinct = true → out.Nodup ∧ ∀ t, t ∈ out ↔ t ∈ rows) ∧
            (block.orderBy ≠ [] ∨ block.distinct = true → out.Pairwise fun t u =>
              t.key (q.schema.sortOrder positions) ≤ u.key (q.schema.sortOrder positions)) ∧
            (block.distinct = true → out.Pairwise fun t u =>
              t.key (q.schema.sortOrder positions) < u.key (q.schema.sortOrder positions)) := by
  have hplan' : (Planner.planSelect c block).1 = .ok p := hplan
  rw [planSelect_eq_arrange] at hplan'
  obtain ⟨q, hq, harrange⟩ := bind_eq_ok_iff.1 hplan'
  obtain ⟨positions, hpositions, hschema, hdrain⟩ := collect_arrange harrange
  refine ⟨q, positions, hq, hschema, hpositions, ?_⟩
  rw [hdrain]
  cases hrows : (q.collect fs q.start).1 with
  | error e => rfl
  | ok rows =>
    have hlength := Plan.length_of_mem_collect (Planner.shaped_planSelect hq) hrows
    have hlt : ∀ i ∈ positions, i < q.schema.length := by
      intro i hi
      obtain ⟨key, -, hkey⟩ := exists_of_mem_result hpositions hi
      exact Schema.lt_of_indexOf hkey
    have hperm := List.mergeSort_perm rows
      fun t u => decide (compareBy (q.schema.sortOrder positions) t u ≠ .gt)
    refine ⟨hlength, _, rfl, ?_⟩
    unfold Select.arranged
    cases hdistinct : block.distinct with
    | true =>
      rw [if_pos rfl, destutter_sortTuples hlength fun i hi => mem_sortOrder hi]
      have hstrict := pairwise_key_lt hlt hlength
      refine ⟨fun h => (by cases h), fun _ => ⟨List.nodup_dedup _, fun t => ?_⟩,
        fun _ => hstrict.imp le_of_lt, fun _ => hstrict⟩
      rw [List.mem_dedup]
      exact hperm.mem_iff
    | false =>
      rw [if_neg (by simp)]
      refine ⟨fun _ => ?_, fun h => (by cases h), fun h => ?_, fun h => (by cases h)⟩
      · split
        · exact List.Perm.refl rows
        · exact hperm
      · have hkeys : block.orderBy ≠ [] := h.resolve_right (by simp)
        rw [if_neg (mt List.isEmpty_iff.1 hkeys)]
        exact pairwise_key_le hlt hlength

end Blocks

/-! ### Keys of a cross join -/

/-- The block `SELECT DISTINCT G FROM S, R ORDER BY G`. -/
def keysBlock : Select where
  distinct := true
  items := [.expr (.column ⟨none, "G"⟩)]
  first := .table ⟨"S", none⟩
  joins := [⟨.table ⟨"R", none⟩, none⟩]
  condition := none
  orderBy := [⟨none, "G"⟩]

/-- Its plan without the sort and the removal: it lists the rows of `R` for each row of `S`. -/
def crossPlan : Plan :=
  .project
    (.join (.scan "S" "S" ⟨[⟨"S", "A"⟩]⟩ "data/S") (.scan "R" "R" ⟨[⟨"R", "G"⟩]⟩ "data/R") none)
    (some [1])

/-- Each of the repeated rows is returned once. -/
theorem collect_ordered_keys :
    (pairCatalog.plan (.select keysBlock)).1 =
        .ok (.distinct (.sort crossPlan [⟨none, "G"⟩] [0])) ∧
      (crossPlan.collect pairStore crossPlan.start).1 = .ok [⟨[2]⟩, ⟨[3]⟩, ⟨[2]⟩, ⟨[3]⟩] ∧
      (Plan.collect pairStore (.distinct (.sort crossPlan [⟨none, "G"⟩] [0]))
        (Plan.start (.distinct (.sort crossPlan [⟨none, "G"⟩] [0])))).1 = .ok [⟨[2]⟩, ⟨[3]⟩] := by
  have hplan : (pairCatalog.plan (.select keysBlock)).1 =
      .ok (.distinct (.sort crossPlan [⟨none, "G"⟩] [0])) := by decide +kernel
  have hcross : (pairCatalog.plan (.select keysBlock.unordered)).1 = .ok crossPlan := by
    decide +kernel
  have hopen : crossPlan.Opens pairStore := by decide +kernel
  have hrows : (crossPlan.collect pairStore crossPlan.start).1 =
      .ok [⟨[2]⟩, ⟨[3]⟩, ⟨[2]⟩, ⟨[3]⟩] := by
    rw [Plan.collect_start hopen]
    decide +kernel
  obtain ⟨q, positions, hq, -, hpositions, h⟩ := collect_ordered hplan pairStore
  obtain rfl : crossPlan = q := Except.ok.inj (hcross.symm.trans hq)
  obtain rfl : [0] = positions := by
    have hbound : keysBlock.orderBy.mapM
        (fun key => crossPlan.schema.indexOf key.table key.column) = .ok [0] := by decide +kernel
    exact Except.ok.inj (hbound.symm.trans hpositions)
  rw [hrows] at h
  obtain ⟨-, out, hout, -, hsame, -, hstrict⟩ := h
  obtain ⟨hnodup, hmem⟩ := hsame rfl
  refine ⟨hplan, hrows, hout.trans (congrArg Except.ok ?_)⟩
  have hperm : out.Perm [⟨[2]⟩, ⟨[3]⟩] := by
    refine (List.perm_ext_iff_of_nodup hnodup (by decide)).2 fun t => ?_
    rw [hmem]
    grind
  exact hperm.eq_of_pairwise (fun t u _ _ htu hut => absurd htu (lt_asymm hut)) (hstrict rfl)
    (by decide +kernel)

end FlatQuery
