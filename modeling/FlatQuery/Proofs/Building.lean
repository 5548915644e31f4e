import FlatQuery.Proofs.FromList

set_option autoImplicit false

/-! # Building plans

The planner makes trees by scans, selections, joins, projections, sorts and the removal of repeated
rows, and in no other way. What all of these keep, every plan of a SELECT block has
(`KeptByBuilding.of_planSelect`). -/

namespace FlatQuery

/-- Whether a property of trees is kept by each way of building one. -/
structure KeptByBuilding (P : Plan → Prop) : Prop where
  scanOf : ∀ {c : Catalog} {name : String} {p : Plan}, Plan.scanOf c name = .ok p → P p
  selectBy : ∀ {p q : Plan} {e : Expr}, p.selectBy e = .ok q → P p → P q
  joinOn : ∀ {p q r : Plan} {e : Option Expr}, p.joinOn q e = .ok r → P p → P q → P r
  projectTo : ∀ {p q : Plan} {items : List SelectItem}, p.projectTo items = .ok q → P p → P q
  sortBy : ∀ {p q : Plan} {keys : List ColumnRef}, p.sortBy keys = .ok q → P p → P q
  sortAll : ∀ {p : Plan}, P p → P p.sortAll
  distinct : ∀ {p : Plan}, P p → P (.distinct p)

namespace KeptByBuilding

open Planner

variable {P : Plan → Prop} {c : Catalog} {p : Plan}

theorem of_input (hP : KeptByBuilding P) {placed : List Placed} {position : Nat}
    {table : FromTable} (h : input c placed position table = .ok p) : P p := by
  obtain ⟨scan, hscan, h⟩ := bind_eq_ok_iff.1 h
  have hbase := hP.scanOf hscan
  split at h
  · cases h
    exact hbase
  · exact hP.selectBy h hbase

theorem of_inputs (hP : KeptByBuilding P) {placed : List Placed} {position : Nat}
    {«from» : List FromTable} {ps : List Plan} (h : inputs c placed position «from» = .ok ps) :
    ∀ p ∈ ps, P p := by
  induction «from» generalizing position ps with
  | nil =>
    cases h
    simp
  | cons table rest ih =>
    obtain ⟨first, hfirst, h⟩ := bind_eq_ok_iff.1 h
    obtain ⟨others, hothers, h⟩ := bind_eq_ok_iff.1 h
    cases h
    exact List.forall_mem_cons.2 ⟨hP.of_input hfirst, ih hothers⟩

theorem of_joinAll (hP : KeptByBuilding P) {root : Plan} {position : Nat}
    {pending waiting : List Pending} {ps : List Plan}
    (h : joinAll root position pending ps = .ok (p, waiting)) (hroot : P root)
    (hps : ∀ p ∈ ps, P p) : P p := by
  induction ps generalizing root position pending with
  | nil =>
    cases h
    exact hroot
  | cons right rest ih =>
    obtain ⟨hright, hrest⟩ := List.forall_mem_cons.1 hps
    obtain ⟨joined, hjoined, h⟩ := bind_eq_ok_iff.1 h
    exact ih h (hP.joinOn hjoined hroot hright) hrest

theorem of_joinTree (hP : KeptByBuilding P) {pending : List Pending} {ps : List Plan}
    (h : joinTree pending ps = .ok p) (hps : ∀ p ∈ ps, P p) : P p := by
  cases ps with
  | nil => cases h
  | cons first rest =>
    obtain ⟨hfirst, hrest⟩ := List.forall_mem_cons.1 hps
    obtain ⟨⟨root, waiting⟩, hroot, h⟩ := bind_eq_ok_iff.1 h
    cases waiting with
    | nil =>
      cases h
      exact hP.of_joinAll hroot hfirst hrest
    | cons w ws => cases h

theorem of_finish (hP : KeptByBuilding P) {block : Select} {root : Plan}
    (h : finish block root = .ok p) (hroot : P root) : P p := by
  rw [finish_eq] at h
  obtain ⟨projected, hprojected, h⟩ := bind_eq_ok_iff.1 h
  obtain ⟨sorted, hsorted, h⟩ := bind_eq_ok_iff.1 h
  have hbelow := hP.projectTo hprojected hroot
  have hkept : P sorted := by
    split at hsorted
    · cases hsorted
      exact hbelow
    · exact hP.sortBy hsorted hbelow
  cases h
  split
  · split
    · exact hP.distinct (hP.sortAll hkept)
    · exact hP.distinct hkept
  · exact hkept

/-- **What every way of building keeps, the plan of a SELECT block has.** -/
theorem of_planSelect (hP : KeptByBuilding P) {block : Select}
    (h : (planSelect c block).1 = .ok p) : P p := by
  obtain ⟨refs, sources, d, -, -, -, -, hassemble⟩ := planSelect_eq_ok h
  obtain ⟨placed, -, h⟩ := bind_eq_ok_iff.1 hassemble
  obtain ⟨ps, hps, h⟩ := bind_eq_ok_iff.1 h
  obtain ⟨root, hroot, h⟩ := bind_eq_ok_iff.1 h
  exact hP.of_finish h (hP.of_joinTree hroot (hP.of_inputs hps))

end KeptByBuilding

end FlatQuery
