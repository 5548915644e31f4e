import FlatQuery.Planner
import FlatQuery.Proofs.Contexts
import Mathlib.Data.List.Pairwise

set_option autoImplicit false

/-! # Placements

Where the planner puts a conjunct. Each conjunct goes to a scan or waits for a join, none is lost
(`exists_place`), and where it goes it refers to nothing that is not there (`mem_selectionsAt`,
`mem_pendingOf`). -/

namespace FlatQuery

namespace Placement

variable {ps : List Nat} {k first last : Nat}

theorem eq_of_selection (h : ofPositions ps = selection k) : ∀ p ∈ ps, p = k := by
  intro p hp
  match ps with
  | [] => cases hp
  | [only] =>
    cases h
    exact List.mem_singleton.1 hp
  | _ :: _ :: _ => cases h

/-- The last position of a join is the greatest. -/
theorem le_of_join {n : Nat} (hps : ps.Sublist (List.range n))
    (h : ofPositions ps = join first last) : ∀ p ∈ ps, p ≤ last := by
  intro p hp
  have hsorted : ps.Pairwise (· ≤ ·) := List.pairwise_le_range.sublist hps
  match ps with
  | [] => cases h
  | [only] => cases h
  | first :: second :: more =>
    cases h
    -- the positions are ascending, so none is greater than the last one
    have hlast := hsorted.rel_getLast hp
    rwa [List.getLast_cons (List.cons_ne_nil second more)] at hlast

/-- A join brings in an entry after the first. -/
theorem lt_of_join {n : Nat} (hps : ps.Sublist (List.range n))
    (h : ofPositions ps = join first last) : first < last ∧ last < n := by
  match ps with
  | [] => cases h
  | [only] => cases h
  | first :: second :: more =>
    cases h
    have hmem : (second :: more).getLast (List.cons_ne_nil second more) ∈ second :: more :=
      List.getLast_mem _
    have hsorted : (first :: second :: more).Pairwise (· < ·) := List.pairwise_lt_range.sublist hps
    exact ⟨(List.pairwise_cons.1 hsorted).1 _ hmem,
      List.mem_range.1 (hps.subset (List.mem_cons_of_mem _ hmem))⟩

end Placement

namespace Planner

variable {«from» : List FromTable} {conjuncts : List Expr} {placed : List Placed} {e : Expr}
  {k : Nat}

/-- What the placement of a conjunct says about the entries that it refers to. -/
theorem placement_eq_ok {place : Placement} (h : e.placement «from» = .ok place) :
    ∃ ps, e.referencedTables «from» = .ok ps ∧ place = .ofPositions ps := by
  obtain ⟨ps, hps, h⟩ := bind_eq_ok_iff.1 h
  cases h
  exact ⟨ps, hps, rfl⟩

/-- Each conjunct is placed once, in the order of the conjuncts. -/
theorem placeAll_eq_ok (h : placeAll «from» conjuncts = .ok placed) :
    placed.map Placed.conjunct = conjuncts ∧
      ∀ q ∈ placed, q.conjunct.placement «from» = .ok q.placement := by
  have hall := mapM_eq_ok_iff.1 h
  clear h
  induction hall with
  | nil => exact ⟨rfl, by simp⟩
  | cons hq _ ih =>
    obtain ⟨place, hplace, hq⟩ := bind_eq_ok_iff.1 hq
    cases hq
    exact ⟨congrArg (_ :: ·) ih.1, List.forall_mem_cons.2 ⟨hplace, ih.2⟩⟩

/-- The conjuncts on a scan are conjuncts of the block that refer to its entry at most. -/
theorem mem_selectionsAt (h : placeAll «from» conjuncts = .ok placed)
    (he : e ∈ selectionsAt placed k) :
    e ∈ conjuncts ∧ ∃ ps, e.referencedTables «from» = .ok ps ∧ ∀ p ∈ ps, p = k := by
  obtain ⟨rfl, hplaces⟩ := placeAll_eq_ok h
  obtain ⟨q, hq, rfl⟩ := List.mem_map.1 he
  obtain ⟨hmem, hselection⟩ := List.mem_filter.1 hq
  obtain ⟨ps, hps, hplace⟩ := placement_eq_ok (hplaces q hmem)
  refine ⟨List.mem_map_of_mem hmem, ps, hps, ?_⟩
  exact Placement.eq_of_selection (hplace ▸ of_decide_eq_true hselection)

/-- A conjunct that waits for a join is a conjunct of the block that refers to no later entry. -/
theorem mem_pendingOf (hfrom : Qualified «from») (h : placeAll «from» conjuncts = .ok placed)
    {q : Pending} (hq : q ∈ pendingOf placed) :
    q.conjunct ∈ conjuncts ∧
      ∃ ps, q.conjunct.referencedTables «from» = .ok ps ∧ ∀ p ∈ ps, p ≤ q.last := by
  obtain ⟨rfl, hplaces⟩ := placeAll_eq_ok h
  obtain ⟨⟨e, place⟩, hmem, hpending⟩ := List.mem_filterMap.1 hq
  cases place with
  | selection position => cases hpending
  | join first last =>
    cases hpending
    obtain ⟨ps, hps, hplace⟩ := placement_eq_ok (hplaces _ hmem)
    obtain ⟨hsub, -⟩ := Expr.referencedTables_eq_ok hfrom hps
    exact ⟨List.mem_map_of_mem hmem, ps, hps, Placement.le_of_join hsub hplace.symm⟩

/-- The entry that a conjunct waits for is one after the first. -/
theorem last_of_mem_pendingOf (hfrom : Qualified «from»)
    (h : placeAll «from» conjuncts = .ok placed) {q : Pending} (hq : q ∈ pendingOf placed) :
    1 ≤ q.last ∧ q.last < «from».length := by
  obtain ⟨-, hplaces⟩ := placeAll_eq_ok h
  obtain ⟨⟨e, place⟩, hmem, hpending⟩ := List.mem_filterMap.1 hq
  cases place with
  | selection position => cases hpending
  | join first last =>
    cases hpending
    obtain ⟨ps, hps, hplace⟩ := placement_eq_ok (hplaces _ hmem)
    obtain ⟨hsub, -⟩ := Expr.referencedTables_eq_ok hfrom hps
    obtain ⟨hfirst, hlast⟩ := Placement.lt_of_join hsub hplace.symm
    exact ⟨Nat.one_le_of_lt hfirst, hlast⟩

/-- **No conjunct is lost**: each stands on a scan or waits for a join. -/
theorem exists_place (hfrom : Qualified «from») (hne : «from» ≠ [])
    (h : placeAll «from» conjuncts = .ok placed) (he : e ∈ conjuncts) :
    (∃ k < «from».length, e ∈ selectionsAt placed k) ∨ ∃ q ∈ pendingOf placed, q.conjunct = e := by
  obtain ⟨rfl, hplaces⟩ := placeAll_eq_ok h
  obtain ⟨⟨e, place⟩, hmem, rfl⟩ := List.mem_map.1 he
  cases place with
  | selection position =>
    refine .inl ⟨position, ?_, ?_⟩
    · obtain ⟨ps, hps, hplace⟩ := placement_eq_ok (hplaces _ hmem)
      obtain ⟨hsub, -⟩ := Expr.referencedTables_eq_ok hfrom hps
      match ps with
      | [] =>
        cases hplace
        exact List.length_pos_of_ne_nil hne
      | [only] =>
        cases hplace
        exact List.mem_range.1 (hsub.subset (List.mem_singleton_self _))
      | _ :: _ :: _ => cases hplace
    · exact List.mem_map_of_mem (List.mem_filter.2 ⟨hmem, decide_eq_true rfl⟩)
  | join first last =>
    exact .inr ⟨⟨e, last⟩, List.mem_filterMap.2 ⟨_, hmem, rfl⟩, rfl⟩

/-! ## The order of evaluation -/

/-- The conjuncts that stand on the join that brings in the entry at a position. -/
def joinsAt (placed : List Placed) (position : Nat) : List Expr :=
  ((pendingOf placed).filter (·.last = position)).map Pending.conjunct

/-- The conjuncts on the first entries in the order in which a plan evaluates them: for each entry
those on its scan, then those on the join that brings it in. -/
def inOrder (placed : List Placed) : Nat → List Expr
  | 0 => []
  | n + 1 => inOrder placed n ++ selectionsAt placed n ++ joinsAt placed n

theorem mem_joinsAt :
    e ∈ joinsAt placed k ↔ ∃ q ∈ pendingOf placed, q.last = k ∧ q.conjunct = e := by
  constructor
  · intro he
    obtain ⟨q, hq, rfl⟩ := List.mem_map.1 he
    obtain ⟨hmem, hlast⟩ := List.mem_filter.1 hq
    exact ⟨q, hmem, of_decide_eq_true hlast, rfl⟩
  · rintro ⟨q, hq, hlast, rfl⟩
    exact List.mem_map_of_mem (List.mem_filter.2 ⟨hq, decide_eq_true hlast⟩)

/-- A conjunct on a join refers to no later entry. -/
theorem within_joinsAt (hfrom : Qualified «from») (h : placeAll «from» conjuncts = .ok placed)
    (he : e ∈ joinsAt placed k) : e.Within «from» (k + 1) := by
  obtain ⟨q, hq, rfl, rfl⟩ := mem_joinsAt.1 he
  obtain ⟨-, ps, hps, hle⟩ := mem_pendingOf hfrom h hq
  exact ⟨ps, hps, fun p hp => Nat.lt_succ_of_le (hle p hp)⟩

/-- No join brings in the first entry. -/
theorem inOrder_one (hfrom : Qualified «from») (h : placeAll «from» conjuncts = .ok placed) :
    inOrder placed 1 = selectionsAt placed 0 := by
  have hnone : joinsAt placed 0 = [] := by
    rw [List.eq_nil_iff_forall_not_mem]
    intro e he
    obtain ⟨q, hq, hlast, -⟩ := mem_joinsAt.1 he
    obtain ⟨hpos, -⟩ := last_of_mem_pendingOf hfrom h hq
    omega
  rw [inOrder, inOrder, hnone, List.append_nil, List.nil_append]

theorem mem_inOrder_iff {n : Nat} :
    e ∈ inOrder placed n ↔ ∃ k < n, e ∈ selectionsAt placed k ∨ e ∈ joinsAt placed k := by
  induction n with
  | zero => simp [inOrder]
  | succ n ih =>
    rw [inOrder, List.mem_append, List.mem_append, ih]
    constructor
    · rintro ((⟨k, hk, he⟩ | he) | he)
      · exact ⟨k, Nat.lt_succ_of_lt hk, he⟩
      · exact ⟨n, Nat.lt_succ_self n, .inl he⟩
      · exact ⟨n, Nat.lt_succ_self n, .inr he⟩
    · rintro ⟨k, hk, he⟩
      rcases Nat.lt_succ_iff_lt_or_eq.1 hk with hlt | rfl
      · exact .inl (.inl ⟨k, hlt, he⟩)
      · rcases he with he | he
        · exact .inl (.inr he)
        · exact .inr he

/-- The conjuncts on the first entries refer to them only. -/
theorem within_inOrder (hfrom : Qualified «from») (h : placeAll «from» conjuncts = .ok placed)
    {n : Nat} (he : e ∈ inOrder placed n) : e.Within «from» n := by
  obtain ⟨k, hk, he | he⟩ := mem_inOrder_iff.1 he
  · obtain ⟨-, ps, hps, honly⟩ := mem_selectionsAt h he
    exact ⟨ps, hps, fun p hp => (honly p hp).symm ▸ hk⟩
  · exact (within_joinsAt hfrom h he).mono hk

/-- A plan evaluates the conjuncts of its block. -/
theorem mem_inOrder_length (hfrom : Qualified «from») (hne : «from» ≠ [])
    (h : placeAll «from» conjuncts = .ok placed) :
    e ∈ inOrder placed «from».length ↔ e ∈ conjuncts := by
  rw [mem_inOrder_iff]
  constructor
  · rintro ⟨k, -, he | he⟩
    · exact (mem_selectionsAt h he).1
    · obtain ⟨q, hq, -, rfl⟩ := mem_joinsAt.1 he
      exact (mem_pendingOf hfrom h hq).1
  · intro he
    rcases exists_place hfrom hne h he with ⟨k, hk, he⟩ | ⟨q, hq, rfl⟩
    · exact ⟨k, hk, .inl he⟩
    · exact ⟨q.last, (last_of_mem_pendingOf hfrom h hq).2, .inr (mem_joinsAt.2 ⟨q, hq, rfl, rfl⟩)⟩

end Planner

end FlatQuery
