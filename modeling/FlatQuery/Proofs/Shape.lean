import FlatQuery.Proofs.Acceptance
import FlatQuery.Proofs.ShortCircuit
import Mathlib.Data.List.Perm.Basic

set_option autoImplicit false

/-! # The shape of a plan

Below its projection a plan is a chain of joins, nested to the left, over the scans of the FROM list
in the order written. `LeftDeep` says where the conjuncts stand in it: on the scan of the only entry
that they refer to, or on the join that brings in the last one. The main result is `plan_shape`. It
follows that it does not matter whether a condition is written under ON or at the end of WHERE. -/

namespace FlatQuery

/-! ## Where conjuncts belong -/

namespace Expr

/-- Whether an expression belongs on the scan of an entry: it refers to that entry only, or to none
and the entry is the first. -/
def onScan («from» : List FromTable) (k : Nat) (e : Expr) : Bool :=
  match e.referencedTables «from» with
  | .ok [] => k = 0
  | .ok [only] => only = k
  | _ => false

/-- Whether an expression belongs on the join that brings in an entry: it refers to two entries at
least, and that entry is the last of them. -/
def onJoin («from» : List FromTable) (k : Nat) (e : Expr) : Bool :=
  match e.referencedTables «from» with
  | .ok (first :: second :: more) => (first :: second :: more).max? = some k
  | _ => false

end Expr

namespace Planner

variable {«from» : List FromTable} {conjuncts : List Expr} {placed : List Placed} {e : Expr}
  {k first last : Nat}

/-- The last of some ascending positions is the greatest. -/
theorem max?_eq_getLast {n : Nat} {ps : List Nat} (hps : ps.Sublist (List.range n))
    (hne : ps ≠ []) : ps.max? = some (ps.getLast hne) := by
  rw [List.max?_eq_some_iff]
  have hsorted : ps.Pairwise (· ≤ ·) := List.pairwise_le_range.sublist hps
  exact ⟨List.getLast_mem hne, fun p hp => hsorted.rel_getLast hp⟩

theorem onScan_of_selection (h : e.placement «from» = .ok (.selection k)) (n : Nat) :
    e.onScan «from» n = decide (k = n) ∧ e.onJoin «from» n = false := by
  obtain ⟨ps, hps, hplace⟩ := placement_eq_ok h
  match ps with
  | [] =>
    cases hplace
    simp only [Expr.onScan, Expr.onJoin, hps, eq_comm, and_self]
  | [only] =>
    cases hplace
    simp only [Expr.onScan, Expr.onJoin, hps, and_self]
  | _ :: _ :: _ => cases hplace

theorem onJoin_of_join (hfrom : Qualified «from») (h : e.placement «from» = .ok (.join first last))
    (n : Nat) : e.onScan «from» n = false ∧ e.onJoin «from» n = decide (last = n) := by
  obtain ⟨ps, hps, hplace⟩ := placement_eq_ok h
  obtain ⟨hsub, -⟩ := Expr.referencedTables_eq_ok hfrom hps
  match ps with
  | [] => cases hplace
  | [only] => cases hplace
  | _ :: second :: more =>
    cases hplace
    have hmax := max?_eq_getLast hsub (List.cons_ne_nil _ (second :: more))
    rw [List.getLast_cons (List.cons_ne_nil second more)] at hmax
    simp only [Expr.onScan, Expr.onJoin, hps, hmax, Option.some.injEq, and_self]

theorem filter_conjuncts {f : Expr → Bool} (h : placeAll «from» conjuncts = .ok placed) :
    conjuncts.filter f = (placed.filter fun q => f q.conjunct).map Placed.conjunct := by
  obtain ⟨rfl, -⟩ := placeAll_eq_ok h
  rw [List.filter_map]
  rfl

/-- The conjuncts on a scan are those that belong there, in their order. -/
theorem selectionsAt_eq_filter (hfrom : Qualified «from»)
    (h : placeAll «from» conjuncts = .ok placed) :
    selectionsAt placed k = conjuncts.filter (Expr.onScan «from» k) := by
  rw [filter_conjuncts h, selectionsAt]
  obtain ⟨-, hplaces⟩ := placeAll_eq_ok h
  refine congrArg (List.map Placed.conjunct) (List.filter_congr fun q hq => ?_)
  have hplace := hplaces q hq
  obtain ⟨e, place⟩ := q
  cases place with
  | selection position =>
    rw [(onScan_of_selection hplace k).1, decide_eq_decide]
    exact Placement.selection.injEq ..  ▸ Iff.rfl
  | join first last =>
    rw [(onJoin_of_join hfrom hplace k).1]
    exact decide_eq_false fun heq => by cases heq

/-- The conjuncts on a join are those that belong there, in their order. -/
theorem joinsAt_eq_filter (hfrom : Qualified «from») (h : placeAll «from» conjuncts = .ok placed) :
    joinsAt placed k = conjuncts.filter (Expr.onJoin «from» k) := by
  obtain ⟨rfl, hplaces⟩ := placeAll_eq_ok h
  clear h
  induction placed with
  | nil => rfl
  | cons q placed ih =>
    obtain ⟨hplace, hplaces⟩ := List.forall_mem_cons.1 hplaces
    have ih := ih hplaces
    obtain ⟨e, place⟩ := q
    cases place with
    | selection position =>
      rw [List.map_cons, List.filter_cons, (onScan_of_selection hplace k).2, ← ih]
      rfl
    | join first last =>
      rw [List.map_cons, List.filter_cons, (onJoin_of_join hfrom hplace k).2, ← ih]
      by_cases hlast : last = k
      · simp [joinsAt, pendingOf, hlast]
      · simp [joinsAt, pendingOf, hlast]

/-! ### Each conjunct has one place -/

/-- A list is made up of its elements with each key. -/
theorem perm_flatMap_filter {α : Type} (key : α → Nat) {n : Nat} {xs : List α}
    (h : ∀ x ∈ xs, key x < n) :
    ((List.range n).flatMap fun k => xs.filter (key · = k)).Perm xs := by
  induction n generalizing xs with
  | zero =>
    cases xs with
    | nil => exact .nil
    | cons x xs => exact absurd (h x (List.mem_cons_self ..)) (Nat.not_lt_zero _)
  | succ n ih =>
    have hlast : xs.filter (key · = n) = xs.filter fun x => !(decide (key x < n)) := by
      refine List.filter_congr fun x hx => ?_
      have := h x hx
      rw [← decide_not, decide_eq_decide]
      omega
    have hothers : ((List.range n).flatMap fun k => xs.filter (key · = k)) =
        (List.range n).flatMap fun k => (xs.filter (key · < n)).filter (key · = k) := by
      refine List.flatMap_congr fun k hk => ?_
      have := List.mem_range.1 hk
      rw [List.filter_filter]
      refine List.filter_congr fun x _ => ?_
      rw [← Bool.decide_and, decide_eq_decide]
      omega
    have hih : ((List.range n).flatMap fun k => (xs.filter (key · < n)).filter (key · = k)).Perm
        (xs.filter (key · < n)) := ih fun x hx => of_decide_eq_true (List.mem_filter.1 hx).2
    rw [List.range_succ, List.flatMap_append, List.flatMap_singleton, hlast, hothers]
    exact (hih.append_right _).trans (List.filter_append_perm _ xs)

/-- The entry at which a conjunct is evaluated. -/
def placeOf («from» : List FromTable) (e : Expr) : Nat :=
  match e.placement «from» with
  | .ok (.selection position) => position
  | .ok (.join _ last) => last
  | .error _ => 0

theorem placeOf_lt {place : Placement} (hfrom : Qualified «from») (hne : «from» ≠ [])
    (h : e.placement «from» = .ok place) : placeOf «from» e < «from».length := by
  obtain ⟨ps, hps, hplace⟩ := placement_eq_ok h
  obtain ⟨hsub, -⟩ := Expr.referencedTables_eq_ok hfrom hps
  rw [placeOf, h]
  match ps with
  | [] =>
    cases hplace
    exact List.length_pos_of_ne_nil hne
  | [only] =>
    cases hplace
    exact List.mem_range.1 (hsub.subset (List.mem_singleton_self _))
  | _ :: _ :: _ =>
    cases hplace
    exact (Placement.lt_of_join hsub rfl).2

/-- **No conjunct is lost and none comes twice**: the conjuncts that belong on the scans and on the
joins are those of the block. -/
theorem perm_placed (hfrom : Qualified «from») (hne : «from» ≠ [])
    (h : placeAll «from» conjuncts = .ok placed) :
    ((List.range «from».length).flatMap fun k =>
      conjuncts.filter (Expr.onScan «from» k) ++ conjuncts.filter (Expr.onJoin «from» k)).Perm
        conjuncts := by
  obtain ⟨hmap, hplaces⟩ := placeAll_eq_ok h
  have hplace : ∀ e ∈ conjuncts, ∃ place, e.placement «from» = .ok place := by
    rw [← hmap]
    intro e he
    obtain ⟨q, hq, rfl⟩ := List.mem_map.1 he
    exact ⟨_, hplaces q hq⟩
  -- what is evaluated at an entry is what belongs on its scan, and the rest of it on its join
  have hsplit (k : Nat) : (conjuncts.filter (Expr.onScan «from» k) ++
      conjuncts.filter (Expr.onJoin «from» k)).Perm
        (conjuncts.filter (placeOf «from» · = k)) := by
    have hscan : conjuncts.filter (Expr.onScan «from» k) =
        (conjuncts.filter (placeOf «from» · = k)).filter (Expr.onScan «from» k) := by
      rw [List.filter_filter]
      refine List.filter_congr fun e he => ?_
      obtain ⟨place, hplace⟩ := hplace e he
      cases place with
      | selection position => simp [(onScan_of_selection hplace k).1, placeOf, hplace]
      | join first last => simp [(onJoin_of_join hfrom hplace k).1]
    have hjoin : conjuncts.filter (Expr.onJoin «from» k) =
        (conjuncts.filter (placeOf «from» · = k)).filter fun e => !(e.onScan «from» k) := by
      rw [List.filter_filter]
      refine List.filter_congr fun e he => ?_
      obtain ⟨place, hplace⟩ := hplace e he
      cases place with
      | selection position => simp [onScan_of_selection hplace k, placeOf, hplace]
      | join first last => simp [onJoin_of_join hfrom hplace k, placeOf, hplace]
    rw [hscan, hjoin]
    exact List.filter_append_perm _ _
  have hbound : ∀ e ∈ conjuncts, placeOf «from» e < «from».length := by
    intro e he
    obtain ⟨place, hplace⟩ := hplace e he
    exact placeOf_lt hfrom hne hplace
  exact (List.Perm.flatMap_left _ fun k _ => hsplit k).trans (perm_flatMap_filter _ hbound)

end Planner

/-! ## Left-deep trees -/

namespace Plan

/-- Whether a predicate is the conjunction of some conjuncts, nested to the left and bound to the
columns of a schema. Without conjuncts there is no predicate. -/
def Conjoined (s : Schema) (es : List Expr) (predicate : Option Predicate) : Prop :=
  (Expr.conjunction es).mapM (Predicate.bind s) = .ok predicate

/-- A plan under a selection, if there is a predicate for it. -/
def filteredBy (p : Plan) : Option Predicate → Plan
  | some predicate => .select p predicate
  | none => p

variable {p q r : Plan} {es : List Expr}

theorem joinOn_eq_join (h : p.joinOn q (Expr.conjunction es) = .ok r) :
    ∃ predicate, Conjoined (p.schema ++ q.schema) es predicate ∧ r = .join p q predicate := by
  unfold Conjoined
  obtain ⟨schema, hschema, h⟩ := bind_eq_ok_iff.1 h
  obtain ⟨-, rfl⟩ := Schema.ofColumns_eq_ok_iff.1 hschema
  split at h
  · next hnone =>
    cases h
    exact ⟨none, by rw [hnone]; rfl, rfl⟩
  · next e he =>
    obtain ⟨predicate, hpredicate, h⟩ := bind_eq_ok_iff.1 h
    cases h
    refine ⟨some predicate, ?_, rfl⟩
    rw [he, Option.mapM_some, hpredicate]
    rfl

end Plan

open Plan

/-- The tree over the first `n` sources of a FROM list in which each of some conjuncts stands as low
as it can. Scans and joins come in the order of the sources, and where several conjuncts stand
together they keep their order. -/
inductive LeftDeep (sources : List Source) (conjuncts : List Expr) : Nat → Plan → Prop
  | first {s : Source} {selection : Option Predicate} (hs : sources[0]? = some s)
    (hselection : Conjoined s.schema (conjuncts.filter (Expr.onScan (entriesOf sources) 0))
      selection) :
    LeftDeep sources conjuncts 1 (s.scan.filteredBy selection)
  | join {n : Nat} {root : Plan} {s : Source} {selection predicate : Option Predicate}
    (hroot : LeftDeep sources conjuncts n root) (hs : sources[n]? = some s)
    (hselection : Conjoined s.schema (conjuncts.filter (Expr.onScan (entriesOf sources) n))
      selection)
    (hpredicate : Conjoined (schemaOf (sources.take (n + 1)))
      (conjuncts.filter (Expr.onJoin (entriesOf sources) n)) predicate) :
    LeftDeep sources conjuncts (n + 1) (.join root (s.scan.filteredBy selection) predicate)

section Tree

variable {d : Catalog} {sources : List Source} {n : Nat} {placed : List Planner.Placed}
  {conjuncts : List Expr} {s : Source} {root p : Plan}

theorem input_eq_filteredBy (hscan : Plan.scanOf d s.qualifier = .ok s.scan)
    (h : Planner.input d placed n s.fromTable = .ok p) :
    ∃ selection, Conjoined s.schema (Planner.selectionsAt placed n) selection ∧
      p = s.scan.filteredBy selection := by
  unfold Conjoined
  obtain ⟨scan, hscan', h⟩ := bind_eq_ok_iff.1 h
  obtain rfl : s.scan = scan := Except.ok.inj (hscan.symm.trans hscan')
  split at h
  · next hnone =>
    cases h
    exact ⟨none, by rw [hnone]; rfl, rfl⟩
  · next e he =>
    obtain ⟨predicate, hpredicate, h⟩ := bind_eq_ok_iff.1 h
    cases h
    refine ⟨some predicate, ?_, rfl⟩
    have hbind : Predicate.bind s.schema e = .ok predicate := hpredicate
    rw [he, Option.mapM_some, hbind]
    rfl

theorem schemaOf_take_add_one (hs : sources[n]? = some s) :
    schemaOf (sources.take (n + 1)) = schemaOf (sources.take n) ++ s.schema := by
  rw [← concat_take_entriesOf, ← concat_take_entriesOf, concat_take_add_one hs]

/-- A tree over the first sources has their columns. -/
theorem LeftDeep.schema_eq (h : LeftDeep sources conjuncts n root) :
    root.schema = schemaOf (sources.take n) := by
  have hscan (s : Source) (selection : Option Predicate) :
      (s.scan.filteredBy selection).schema = s.schema := by cases selection <;> rfl
  induction h with
  | first hs hselection =>
    rw [hscan, schemaOf_take_add_one hs]
    rfl
  | join hroot hs hselection hpredicate ih =>
    rw [Plan.schema, ih, hscan, schemaOf_take_add_one hs]

/-- **The join tree of a block is left-deep**, with each conjunct where it belongs. -/
theorem leftDeep_joinTree (hfrom : Qualified (entriesOf sources))
    (hplaced : Planner.placeAll (entriesOf sources) conjuncts = .ok placed)
    (hscans : ∀ s ∈ sources, Plan.scanOf d s.qualifier = .ok s.scan)
    {inputs : List Plan} (hinputs : Planner.inputs d placed 0 (entriesOf sources) = .ok inputs)
    (h : Planner.joinTree (Planner.pendingOf placed) inputs = .ok p) :
    LeftDeep sources conjuncts sources.length p := by
  refine joinTree_inputs_induction hfrom hplaced ?_ ?_ hinputs h
  · intro s first hs hinput
    obtain ⟨selection, hselection, rfl⟩ :=
      input_eq_filteredBy (hscans s (List.mem_of_getElem? hs)) hinput
    rw [Planner.selectionsAt_eq_filter hfrom hplaced] at hselection
    exact .first hs hselection
  · intro n s root right joined hs hinput hroot hjoined
    have hscan := hscans s (List.mem_of_getElem? hs)
    have hschema : root.schema ++ right.schema = schemaOf (sources.take (n + 1)) := by
      rw [hroot.schema_eq, schema_input hscan hinput, schemaOf_take_add_one hs]
    obtain ⟨selection, hselection, rfl⟩ := input_eq_filteredBy hscan hinput
    obtain ⟨predicate, hpredicate, rfl⟩ := joinOn_eq_join hjoined
    rw [Planner.selectionsAt_eq_filter hfrom hplaced] at hselection
    rw [Planner.joinsAt_eq_filter hfrom hplaced, hschema] at hpredicate
    exact .join hroot hs hselection hpredicate

end Tree

/-! ## Blocks -/

/-- What stands on the join tree of a block: the projection to some positions, the sort, and the
removal of repeated rows. -/
def Select.top (block : Select) (positions : Option (List Nat)) (order : List Nat) (root : Plan) :
    Plan :=
  let projected := Plan.project root positions
  let sorted := if block.orderBy.isEmpty then projected else .sort projected block.orderBy order
  if block.distinct then .distinct (if block.orderBy.isEmpty then sorted.sortAll else sorted)
  else sorted

/-- The block with all ON conditions at the end of WHERE. -/
def Select.gathered (block : Select) : Select :=
  { block with
    condition := Expr.conjunction block.conditions
    joins := block.joins.map fun j => { j with on := none } }

section Blocks

variable {c : Catalog} {block : Select} {root p : Plan}

theorem finish_eq_top (h : Planner.finish block root = .ok p) :
    ∃ positions order, p = block.top positions order root := by
  rw [Planner.finish_eq] at h
  obtain ⟨projected, hprojected, h⟩ := bind_eq_ok_iff.1 h
  obtain ⟨positions, rfl⟩ : ∃ positions, projected = .project root positions := by
    unfold Plan.projectTo at hprojected
    split at hprojected
    · cases hprojected
      exact ⟨none, rfl⟩
    · obtain ⟨pss, -, hprojected⟩ := bind_eq_ok_iff.1 hprojected
      cases hprojected
      exact ⟨some _, rfl⟩
  obtain ⟨sorted, hsorted, h⟩ := bind_eq_ok_iff.1 h
  cases h
  by_cases hkeys : block.orderBy.isEmpty
  · rw [if_pos hkeys] at hsorted
    cases hsorted
    exact ⟨positions, [], by simp only [Select.top, if_pos hkeys]⟩
  · rw [if_neg hkeys] at hsorted
    obtain ⟨keys, -, hsorted⟩ := bind_eq_ok_iff.1 hsorted
    cases hsorted
    let order := firstOccurrences (keys ++ List.range (Plan.project root positions).schema.length)
    exact ⟨positions, order, by simp only [Select.top, if_neg hkeys, order]⟩

theorem Select.conjuncts_gathered (block : Select) :
    block.gathered.conjuncts = block.conjuncts := by
  have hnone : (block.joins.map fun j => { j with on := none : JoinItem }).filterMap JoinItem.on =
      [] := by
    rw [List.filterMap_map]
    exact List.filterMap_eq_nil_iff.2 fun j _ => rfl
  have hconditions : block.gathered.conditions = (Expr.conjunction block.conditions).toList := by
    change (Expr.conjunction block.conditions).toList ++ _ = _
    rw [Select.gathered, hnone, List.append_nil]
  unfold Select.conjuncts
  rw [hconditions]
  cases h : Expr.conjunction block.conditions with
  | none =>
    cases hblock : block.conditions with
    | nil => rfl
    | cons e es => rw [hblock] at h; cases h
  | some e => rw [← Expr.conjuncts_conjunction h, Option.toList_some, List.flatMap_singleton]

/-- It does not matter to a plan whether conditions stand under ON or at the end of WHERE. -/
theorem planSelect_gathered (c : Catalog) (block : Select) :
    Planner.planSelect c block.gathered = Planner.planSelect c block := by
  have hitems : block.gathered.fromItems = block.fromItems := by
    simp [Select.fromItems, Select.gathered, Function.comp_def]
  have hconjuncts := block.conjuncts_gathered
  unfold Select.conjuncts at hconjuncts
  have hassemble (d : Catalog) («from» : List FromTable) :
      Planner.assemble d block.gathered «from» = Planner.assemble d block «from» := by
    unfold Planner.assemble
    rw [hconjuncts]
    rfl
  unfold Planner.planSelect
  simp only [hitems, hassemble]

/-- **Every conjunct is placed exactly once, and as low as possible.** The plan of a block is what
the projection, ORDER BY and DISTINCT make of a left-deep tree over its FROM list. In it a conjunct
stands on the scan of the only entry that it refers to, or on the first scan if there is none, and
otherwise on the join that brings in the last entry that it refers to. The block with all ON
conditions at the end of WHERE is planned alike. -/
theorem plan_shape (h : (c.plan (.select block)).1 = .ok p) :
    ∃ (refs : List TableRef) (sources : List Source) (root : Plan),
      block.fromItems = refs.map FromItem.table ∧ refs.map c.source? = sources.map some ∧
        LeftDeep sources block.conjuncts sources.length root ∧
        (∃ positions order, p = block.top positions order root) ∧
        ((List.range sources.length).flatMap fun k =>
          block.conjuncts.filter (Expr.onScan (entriesOf sources) k) ++
            block.conjuncts.filter (Expr.onJoin (entriesOf sources) k)).Perm block.conjuncts ∧
        c.plan (.select block.gathered) = c.plan (.select block) := by
  obtain ⟨refs, sources, d, hitems, hsources, hnodup, hscans, hplan⟩ := Planner.planSelect_eq_ok h
  have hfrom := qualified_entriesOf hnodup hsources
  have hlength : (entriesOf sources).length = sources.length := List.length_map _
  obtain ⟨placed, hplaced, hplan⟩ := bind_eq_ok_iff.1 hplan
  obtain ⟨inputs, hinputs, hplan⟩ := bind_eq_ok_iff.1 hplan
  obtain ⟨root, hroot, hplan⟩ := bind_eq_ok_iff.1 hplan
  have hne : entriesOf sources ≠ [] := mt List.map_eq_nil_iff.1 (sources_ne_nil hitems hsources)
  refine ⟨refs, sources, root, hitems, hsources, ?_, finish_eq_top hplan, ?_, ?_⟩
  · exact leftDeep_joinTree hfrom hplaced hscans hinputs hroot
  · rw [← hlength]
    exact Planner.perm_placed hfrom hne hplaced
  · exact planSelect_gathered c block

/-- The block `SELECT * FROM S JOIN R ON A = R.G AND 2 = 2 JOIN R AS Q ON R.G = Q.G AND Q.G < 9
WHERE 1 < A`. -/
def chainBlock : Select where
  distinct := false
  items := [.wildcard]
  first := .table ⟨"S", none⟩
  joins := [⟨.table ⟨"R", none⟩, some (.and
      (.binary (.compare .eq) (.column ⟨none, "A"⟩) (.column ⟨some "R", "G"⟩))
      (.binary (.compare .eq) (.literal 2) (.literal 2)))⟩,
    ⟨.table ⟨"R", some "Q"⟩, some (.and
      (.binary (.compare .eq) (.column ⟨some "R", "G"⟩) (.column ⟨some "Q", "G"⟩))
      (.binary (.compare .lt) (.column ⟨some "Q", "G"⟩) (.literal 9)))⟩]
  condition := some (.binary (.compare .lt) (.literal 1) (.column ⟨none, "A"⟩))
  orderBy := []

/-- The sources of its entries. -/
def chainSources : List Source := pairSources ++ [⟨"Q", "R", ⟨[⟨"Q", "G"⟩]⟩, "data/R"⟩]

/-- The tree below its projection. -/
def chainTree : Plan :=
  .join
    (.join
      (.select (.scan "S" "S" ⟨[⟨"S", "A"⟩]⟩ "data/S")
        ⟨.and (.binary (.compare .lt) (.literal 1) (.column ⟨none, "A"⟩))
            (.binary (.compare .eq) (.literal 2) (.literal 2)),
          .and (.compare .lt (.literal 1) (.column 0 ⟨none, "A"⟩))
            (.compare .eq (.literal 2) (.literal 2))⟩)
      (.scan "R" "R" ⟨[⟨"R", "G"⟩]⟩ "data/R")
      (some ⟨.binary (.compare .eq) (.column ⟨none, "A"⟩) (.column ⟨some "R", "G"⟩),
        .compare .eq (.column 0 ⟨none, "A"⟩) (.column 1 ⟨some "R", "G"⟩)⟩))
    (.select (.scan "R" "Q" ⟨[⟨"Q", "G"⟩]⟩ "data/R")
      ⟨.binary (.compare .lt) (.column ⟨some "Q", "G"⟩) (.literal 9),
        .compare .lt (.column 0 ⟨some "Q", "G"⟩) (.literal 9)⟩)
    (some ⟨.binary (.compare .eq) (.column ⟨some "R", "G"⟩) (.column ⟨some "Q", "G"⟩),
      .compare .eq (.column 1 ⟨some "R", "G"⟩) (.column 2 ⟨some "Q", "G"⟩)⟩)

theorem plan_shape_chain :
    (pairCatalog.plan (.select chainBlock)).1 = .ok (.project chainTree none) ∧
      LeftDeep chainSources chainBlock.conjuncts 3 chainTree ∧
      pairCatalog.plan (.select chainBlock.gathered) = pairCatalog.plan (.select chainBlock) := by
  have hplan : (pairCatalog.plan (.select chainBlock)).1 = .ok (.project chainTree none) := by
    decide +kernel
  obtain ⟨refs, sources, root, hitems, hsources, htree, ⟨positions, order, htop⟩, -, hgathered⟩ :=
    plan_shape hplan
  have hrefs : [⟨"S", none⟩, ⟨"R", none⟩, ⟨"R", some "Q"⟩] = refs :=
    List.map_injective_iff.2 (fun _ _ => FromItem.table.inj) hitems
  subst hrefs
  obtain rfl : chainSources = sources := by
    apply List.map_injective_iff.2 (Option.some_injective Source)
    rw [← hsources]
    decide +kernel
  obtain rfl : chainTree = root := (Plan.project.inj htop).1
  exact ⟨hplan, htree, hgathered⟩

end Blocks

end FlatQuery
