import FlatQuery.Proofs.Ordering
import Mathlib.Data.List.Induction

set_option autoImplicit false

/-! # Sorts

A sort compares by its keys and then by the other columns. The positions it compares at are those of
the schema, each of them once (`firstOccurrences_eq_eraseDups`, `perm_range_sortPositions`), so only
equal tuples compare equal, and there is one way only to put rows in order (`eq_sortTuples_iff`).
The main result is `sort_canonical`: what a sort yields depends on which rows its child yields and
not on their order. -/

namespace FlatQuery

/-! ## Positions -/

namespace Plan

theorem firstOccurrences_concat (positions : List Nat) (i : Nat) :
    firstOccurrences (positions ++ [i]) =
      if i ∈ firstOccurrences positions then firstOccurrences positions
      else firstOccurrences positions ++ [i] := by
  unfold firstOccurrences
  rw [List.foldl_append]
  rfl

/-- Each position stands where it appears first. -/
theorem firstOccurrences_eq_eraseDups (positions : List Nat) :
    firstOccurrences positions = positions.eraseDups := by
  induction positions using List.reverseRecOn with
  | nil => rfl
  | append_singleton positions i ih =>
    rw [firstOccurrences_concat, ih, List.eraseDups_append]
    by_cases hi : i ∈ positions
    · rw [if_pos (List.mem_eraseDups.2 hi)]
      simp [List.removeAll, hi]
    · rw [if_neg (mt List.mem_eraseDups.1 hi)]
      simp [List.removeAll, hi, List.eraseDups_cons]

theorem mem_firstOccurrences {positions : List Nat} {i : Nat} :
    i ∈ firstOccurrences positions ↔ i ∈ positions := by
  rw [firstOccurrences_eq_eraseDups, List.mem_eraseDups]

theorem nodup_firstOccurrences (positions : List Nat) : (firstOccurrences positions).Nodup := by
  induction positions using List.reverseRecOn with
  | nil => exact List.nodup_nil
  | append_singleton positions i ih =>
    rw [firstOccurrences_concat]
    split
    · exact ih
    · next hi => exact List.nodup_append.2 ⟨ih, List.nodup_singleton i, by grind⟩

/-- Positions of which none repeats one before it stay as they are. -/
theorem firstOccurrences_of_nodup {positions : List Nat} (h : positions.Nodup) :
    firstOccurrences positions = positions := by
  induction positions using List.reverseRecOn with
  | nil => rfl
  | append_singleton positions i ih =>
    have hi : i ∉ positions := by
      intro hi
      exact (List.nodup_append.1 h).2.2 i hi i (List.mem_singleton_self i) rfl
    rw [firstOccurrences_concat, ih (List.nodup_append.1 h).1, if_neg hi]

section SortPositions

variable {positions : List Nat} {n : Nat}

/-- The positions of some keys stand first, and the others follow in ascending order. -/
theorem sortPositions_eq (positions : List Nat) (n : Nat) :
    firstOccurrences (positions ++ List.range n) =
      positions.eraseDups ++ (List.range n).filter (· ∉ positions) := by
  have hrest : (List.range n).removeAll positions = (List.range n).filter (· ∉ positions) := by
    simp [List.removeAll]
  have hnodup : ((List.range n).filter (· ∉ positions)).Nodup := List.nodup_range.filter _
  rw [firstOccurrences_eq_eraseDups, List.eraseDups_append, hrest,
    ← firstOccurrences_eq_eraseDups (List.filter _ _), firstOccurrences_of_nodup hnodup]

/-- Keys among the first `n` columns leave each of these columns one place in the order. -/
theorem perm_range_sortPositions (hpositions : ∀ i ∈ positions, i < n) :
    (firstOccurrences (positions ++ List.range n)).Perm (List.range n) := by
  refine (List.perm_ext_iff_of_nodup (nodup_firstOccurrences _) List.nodup_range).2 ?_
  intro i
  rw [mem_firstOccurrences, List.mem_append, List.mem_range]
  exact or_iff_right_of_imp (hpositions i)

end SortPositions

end Plan

/-! ## Sorted rows -/

section Sorted

variable {order : List Nat} {ts us : List Tuple} {t u : Tuple} {n : Nat}

/-- **There is one way to put rows in order**, if they are compared on all of their values. -/
theorem eq_sortTuples_iff (horder : order.Perm (List.range n)) (hts : ∀ t ∈ ts, t.length = n) :
    us = sortTuples order ts ↔
      us.Perm ts ∧ us.Pairwise fun t u => t.key order ≤ u.key order := by
  have hmem {i : Nat} : i ∈ order ↔ i < n := horder.mem_iff.trans List.mem_range
  have hle {t u : Tuple} (ht : t ∈ ts) (hu : u ∈ ts) :
      compareBy order t u ≠ .gt ↔ t.key order ≤ u.key order :=
    compareBy_ne_gt_iff_le (fun i hi => hts t ht ▸ hmem.1 hi) fun i hi => hts u hu ▸ hmem.1 hi
  have hsorted : (sortTuples order ts).Perm ts := List.mergeSort_perm ts _
  constructor
  · rintro rfl
    refine ⟨hsorted, (pairwise_sortTuples order ts).imp_of_mem ?_⟩
    intro t u ht hu htu
    exact (hle (hsorted.mem_iff.1 ht) (hsorted.mem_iff.1 hu)).1 htu
  · rintro ⟨hperm, hpairs⟩
    have hpairs' : us.Pairwise fun t u => compareBy order t u ≠ .gt := by
      refine hpairs.imp_of_mem ?_
      intro t u ht hu htu
      exact (hle (hperm.mem_iff.1 ht) (hperm.mem_iff.1 hu)).2 htu
    refine (hperm.trans hsorted.symm).eq_of_pairwise ?_ hpairs' (pairwise_sortTuples order ts)
    intro t u ht hu htu hut
    exact Tuple.eq_of_compareBy (hts t (hperm.mem_iff.1 ht)) (hts u (hsorted.mem_iff.1 hu))
      (fun i hi => hmem.2 hi) htu hut

/-- Tuples that are compared on all of their values compare equal only if they are. -/
theorem compareBy_eq_eq_iff_eq (horder : order.Perm (List.range n)) (ht : t.length = n)
    (hu : u.length = n) : compareBy order t u = .eq ↔ t = u := by
  rw [compareBy_eq_eq_iff]
  constructor
  · intro h
    exact Tuple.eq_of_get? ht hu fun i hi => h i (horder.mem_iff.2 (List.mem_range.2 hi))
  · rintro rfl i -
    rfl

end Sorted

/-! ## Sorts of two children -/

/-- **A sort is canonical.** Keys that resolve in a schema make a sort compare at the positions of
the keys, each where it appears first, and then at the other positions, ascending; these are the
positions of the schema, each of them once. Without keys it is the sort by all columns. On tuples of
the schema the comparison is the lexicographic order of the values at these positions, in which only
equal tuples are equal. Let two children of the schema have the same rows left, in whatever order.
Then their sorts return the same rows in the same order: the one list that has these rows and
ascends. -/
theorem sort_canonical {child child' : Plan} {keys : List ColumnRef} {positions : List Nat}
    (hschema : child'.schema = child.schema)
    (hkeys : keys.mapM (fun key => child.schema.indexOf key.table key.column) = .ok positions) :
    ∃ order, child.sortBy keys = .ok (.sort child keys order) ∧
      child'.sortBy keys = .ok (.sort child' keys order) ∧
      (keys = [] → child.sortAll = .sort child keys order) ∧
      order = positions.eraseDups ++ (List.range child.schema.length).filter (· ∉ positions) ∧
      order.Perm (List.range child.schema.length) ∧
      (∀ t u : Tuple, t.length = child.schema.length → u.length = child.schema.length →
        (compareBy order t u = .lt ↔ t.key order < u.key order) ∧
        (compareBy order t u = .eq ↔ t = u)) ∧
      ∀ (fs fs' : FileStore) (c : child.State) (c' : child'.State) (rows rows' : List Tuple),
        (child.collect fs c).1 = .ok rows → (child'.collect fs' c').1 = .ok rows' →
        rows.Perm rows' → (∀ t ∈ rows, t.length = child.schema.length) →
        ∃ out,
          (Plan.collect fs (.sort child keys order)
            (⟨c, .filling []⟩ : SortState child.State)).1 = .ok out ∧
          (Plan.collect fs' (.sort child' keys order)
            (⟨c', .filling []⟩ : SortState child'.State)).1 = .ok out ∧
          ∀ us : List Tuple, us = out ↔
            us.Perm rows ∧ us.Pairwise fun t u => t.key order ≤ u.key order := by
  have hpositions : ∀ i ∈ positions, i < child.schema.length := by
    intro i hi
    obtain ⟨key, -, hkey⟩ := exists_of_mem_result hkeys hi
    exact Schema.lt_of_indexOf hkey
  have horder := Plan.perm_range_sortPositions hpositions
  refine ⟨Plan.firstOccurrences (positions ++ List.range child.schema.length), ?_, ?_, ?_,
    Plan.sortPositions_eq positions _, horder, ?_, ?_⟩
  · exact bind_eq_ok_iff.2 ⟨positions, hkeys, rfl⟩
  · rw [← hschema] at hkeys ⊢
    exact bind_eq_ok_iff.2 ⟨positions, hkeys, rfl⟩
  · rintro rfl
    obtain rfl : [] = positions := Except.ok.inj hkeys
    rw [List.nil_append, Plan.firstOccurrences_of_nodup List.nodup_range]
    rfl
  · intro t u ht hu
    have hlt {v : Tuple} (hv : v.length = child.schema.length) {i : Nat}
        (hi : i ∈ Plan.firstOccurrences (positions ++ List.range child.schema.length)) :
        i < v.length := by
      rw [hv]
      exact List.mem_range.1 (horder.mem_iff.1 hi)
    exact ⟨compareBy_lt_iff (fun i => hlt ht) (fun i => hlt hu),
      compareBy_eq_eq_iff_eq horder ht hu⟩
  · intro fs fs' c c' rows rows' hrows hrows' hperm hlength
    have hlength' : ∀ t ∈ rows', t.length = child.schema.length :=
      fun t ht => hlength t (hperm.mem_iff.2 ht)
    refine ⟨_, ?_, ?_, fun us => eq_sortTuples_iff horder hlength⟩
    · rw [Plan.collect_filling, hrows]
      rfl
    · rw [Plan.collect_filling, hrows']
      exact congrArg Except.ok (sortTuples_eq_of_perm hperm hlength
        fun i hi => horder.mem_iff.2 (List.mem_range.2 hi)).symm

/-! ### Keys in several spellings -/

/-- Rows in which equal tuples do not stand together. -/
def scatteredRows : Plan :=
  .ofRows "T" ["A", "B"] [⟨[2, 1]⟩, ⟨[1, 1]⟩, ⟨[3, 0]⟩, ⟨[2, 1]⟩]

/-- The column `B`, twice without its table and once with it. -/
def respelledKeys : List ColumnRef := [⟨none, "B"⟩, ⟨some "T", "B"⟩, ⟨none, "B"⟩]

/-- The rows are sorted alike as they stand and after another sort. -/
theorem sort_canonical_respelled :
    respelledKeys.mapM (fun key => scatteredRows.schema.indexOf key.table key.column) =
        .ok [1, 1, 1] ∧
      scatteredRows.sortBy respelledKeys = .ok (.sort scatteredRows respelledKeys [1, 0]) ∧
      scatteredRows.sortAll.sortBy respelledKeys =
        .ok (.sort scatteredRows.sortAll respelledKeys [1, 0]) ∧
      (scatteredRows.sortAll.collect ⟨[]⟩ scatteredRows.sortAll.start).1 =
        .ok [⟨[1, 1]⟩, ⟨[2, 1]⟩, ⟨[2, 1]⟩, ⟨[3, 0]⟩] ∧
      (Plan.collect ⟨[]⟩ (.sort scatteredRows respelledKeys [1, 0])
        (Plan.start (.sort scatteredRows respelledKeys [1, 0]))).1 =
          .ok [⟨[3, 0]⟩, ⟨[1, 1]⟩, ⟨[2, 1]⟩, ⟨[2, 1]⟩] ∧
      (Plan.collect ⟨[]⟩ (.sort scatteredRows.sortAll respelledKeys [1, 0])
        (Plan.start (.sort scatteredRows.sortAll respelledKeys [1, 0]))).1 =
          .ok [⟨[3, 0]⟩, ⟨[1, 1]⟩, ⟨[2, 1]⟩, ⟨[2, 1]⟩] := by
  have hkeys : respelledKeys.mapM
      (fun key => scatteredRows.schema.indexOf key.table key.column) = .ok [1, 1, 1] := by
    decide +kernel
  have hschema : scatteredRows.sortAll.schema = scatteredRows.schema := rfl
  obtain ⟨order, hsort, hsort', -, horder, -, -, hdrain⟩ := sort_canonical hschema hkeys
  obtain rfl : order = [1, 0] := horder.trans (by decide +kernel)
  have hrows : (scatteredRows.collect ⟨[]⟩ scatteredRows.start).1 =
      .ok [⟨[2, 1]⟩, ⟨[1, 1]⟩, ⟨[3, 0]⟩, ⟨[2, 1]⟩] := by
    rw [Plan.collect_start (by decide)]
    decide +kernel
  have hrows' : (scatteredRows.sortAll.collect ⟨[]⟩ scatteredRows.sortAll.start).1 =
      .ok [⟨[1, 1]⟩, ⟨[2, 1]⟩, ⟨[2, 1]⟩, ⟨[3, 0]⟩] := by
    rw [Plan.collect_start (by decide)]
    decide +kernel
  obtain ⟨out, hout, hout', hunique⟩ :=
    hdrain _ _ _ _ _ _ hrows hrows' (by decide +kernel) (by decide +kernel)
  obtain rfl := (hunique [⟨[3, 0]⟩, ⟨[1, 1]⟩, ⟨[2, 1]⟩, ⟨[2, 1]⟩]).2
    ⟨by decide +kernel, by decide +kernel⟩
  exact ⟨hkeys, hsort, hsort', hrows', hout, hout'⟩

end FlatQuery
