import FlatQuery.Proofs.Denotation
import FlatQuery.Proofs.FromList

set_option autoImplicit false

/-! # Scans

Which files a plan reads: the scans of a planned SELECT block are the sources of its FROM list, in
the order written (`scans_planSelect`). -/

namespace FlatQuery

namespace Plan

/-- The scans of a plan from left to right. -/
def scans : Plan → List Source
  | values .. => []
  | scan table qualifier schema path => [⟨qualifier, table, schema, path⟩]
  | select child _ => child.scans
  | project child _ => child.scans
  | join left right _ => left.scans ++ right.scans
  | sort child _ _ => child.scans
  | distinct child => child.scans

/-- A plan opens the files of its scans. -/
theorem paths_eq_scans (p : Plan) : p.paths = p.scans.map Source.path := by
  induction p with
  | values schema rows => rfl
  | scan table qualifier schema path => rfl
  | select child predicate ih => exact ih
  | project child positions ih => exact ih
  | join left right predicate ihl ihr => rw [paths, scans, List.map_append, ihl, ihr]
  | sort child keys order ih => exact ih
  | distinct child ih => exact ih

variable {p q r : Plan}

theorem scans_selectBy {e : Expr} (h : p.selectBy e = .ok q) : q.scans = p.scans := by
  obtain ⟨predicate, -, h⟩ := bind_eq_ok_iff.1 h
  cases h
  rfl

theorem scans_joinOn {e : Option Expr} (h : p.joinOn q e = .ok r) :
    r.scans = p.scans ++ q.scans := by
  obtain ⟨schema, -, h⟩ := bind_eq_ok_iff.1 h
  cases e with
  | none =>
    cases h
    rfl
  | some e =>
    obtain ⟨predicate, -, h⟩ := bind_eq_ok_iff.1 h
    cases h
    rfl

theorem scans_projectTo {items : List SelectItem} (h : p.projectTo items = .ok q) :
    q.scans = p.scans := by
  unfold projectTo at h
  split at h
  · cases h
    rfl
  · obtain ⟨positions, -, h⟩ := bind_eq_ok_iff.1 h
    cases h
    rfl

theorem scans_sortBy {keys : List ColumnRef} (h : p.sortBy keys = .ok q) : q.scans = p.scans := by
  obtain ⟨positions, -, h⟩ := bind_eq_ok_iff.1 h
  cases h
  rfl

end Plan

namespace Planner

variable {c : Catalog} {p : Plan}

theorem scans_input {placed : List Placed} {position : Nat} {s : Source}
    (hs : Plan.scanOf c s.qualifier = .ok s.scan)
    (h : input c placed position s.fromTable = .ok p) : p.scans = [s] := by
  obtain ⟨scan, hscan, h⟩ := bind_eq_ok_iff.1 h
  obtain rfl : s.scan = scan := Except.ok.inj (hs.symm.trans hscan)
  split at h
  · cases h
    rfl
  · rw [Plan.scans_selectBy h]
    rfl

theorem scans_inputs {placed : List Placed} {position : Nat} {sources : List Source}
    {ps : List Plan} (hscans : ∀ s ∈ sources, Plan.scanOf c s.qualifier = .ok s.scan)
    (h : inputs c placed position (sources.map Source.fromTable) = .ok ps) :
    ps.flatMap Plan.scans = sources := by
  induction sources generalizing position ps with
  | nil =>
    cases h
    rfl
  | cons s sources ih =>
    obtain ⟨hs, hrest⟩ := List.forall_mem_cons.1 hscans
    obtain ⟨first, hfirst, h⟩ := bind_eq_ok_iff.1 h
    obtain ⟨others, hothers, h⟩ := bind_eq_ok_iff.1 h
    cases h
    rw [List.flatMap_cons, scans_input hs hfirst, ih hrest hothers, List.singleton_append]

theorem scans_joinAll {root : Plan} {position : Nat} {pending waiting : List Pending}
    {ps : List Plan} (h : joinAll root position pending ps = .ok (p, waiting)) :
    p.scans = root.scans ++ ps.flatMap Plan.scans := by
  induction ps generalizing root position pending with
  | nil =>
    cases h
    exact (List.append_nil _).symm
  | cons right rest ih =>
    obtain ⟨joined, hjoined, h⟩ := bind_eq_ok_iff.1 h
    rw [ih h, Plan.scans_joinOn hjoined, List.flatMap_cons, List.append_assoc]

theorem scans_joinTree {pending : List Pending} {ps : List Plan}
    (h : joinTree pending ps = .ok p) : p.scans = ps.flatMap Plan.scans := by
  cases ps with
  | nil => cases h
  | cons first rest =>
    obtain ⟨⟨root, waiting⟩, hroot, h⟩ := bind_eq_ok_iff.1 h
    cases waiting with
    | nil =>
      cases h
      exact scans_joinAll hroot
    | cons w ws => cases h

theorem scans_finish {block : Select} {root : Plan} (h : finish block root = .ok p) :
    p.scans = root.scans := by
  rw [finish_eq] at h
  obtain ⟨projected, hprojected, h⟩ := bind_eq_ok_iff.1 h
  obtain ⟨sorted, hsorted, h⟩ := bind_eq_ok_iff.1 h
  have hscans : sorted.scans = projected.scans := by
    split at hsorted
    · cases hsorted
      rfl
    · exact Plan.scans_sortBy hsorted
  rw [← Plan.scans_projectTo hprojected, ← hscans]
  cases h
  split
  · split <;> rfl
  · rfl

theorem scans_assemble {block : Select} {sources : List Source}
    (hscans : ∀ s ∈ sources, Plan.scanOf c s.qualifier = .ok s.scan)
    (h : assemble c block (sources.map Source.fromTable) = .ok p) : p.scans = sources := by
  obtain ⟨placed, -, h⟩ := bind_eq_ok_iff.1 h
  obtain ⟨ps, hps, h⟩ := bind_eq_ok_iff.1 h
  obtain ⟨root, hroot, h⟩ := bind_eq_ok_iff.1 h
  rw [scans_finish h, scans_joinTree hroot, scans_inputs hscans hps]

/-- **A plan scans the sources of its FROM list**, in the order written. -/
theorem scans_planSelect {block : Select} (h : (planSelect c block).1 = .ok p) :
    ∃ refs : List TableRef, block.fromItems = refs.map FromItem.table ∧
      refs.map c.source? = p.scans.map some := by
  obtain ⟨refs, sources, d, hitems, hsources, -, hscans, hassemble⟩ := planSelect_eq_ok h
  rw [scans_assemble hscans hassemble]
  exact ⟨refs, hitems, hsources⟩

end Planner

end FlatQuery
