import FlatQuery.Proofs.Ordering

set_option autoImplicit false

/-! # Short circuits

Which errors a planned block can meet. A plan evaluates its conjuncts in an order of its own, for
each entry of the FROM list those on its scan and then those on the join that brings it in, and it
evaluates them on the rows of the first entries already. The main result is `evaluated_in_order`: in
this order a conjunct behind a false one raises no error, and every other error surfaces. -/

namespace FlatQuery

/-! ## Join trees that end well -/

section Tree

variable {fs : FileStore} {d : Catalog} {sources : List Source} {rows : List (List Tuple)}
  {n : Nat} {es ready selections conjuncts : List Expr} {placed : List Planner.Placed}
  {root right p : Plan} {s : Source} {ts : List Tuple}

/-- A join ends well exactly when its left side does and all conjuncts can be evaluated in order on
the rows of both sides. -/
theorem Planned.ends_join_iff (hfrom : Qualified (entriesOf sources))
    (hrows : List.Forall₂ (Source.Holds fs) sources rows)
    (hroot : Planned fs sources rows n es root) (hs : sources[n]? = some s)
    (hts : rows[n]? = some ts) (hright : PlannedInput fs sources rows n s ts selections right)
    (hready : ∀ e ∈ ready, e.Within (entriesOf sources) (n + 1))
    (h : root.joinOn right (Expr.conjunction ready) = .ok p)
    (hsettles : (∃ us, root.listing fs = .ofList us) →
      ∀ cs ∈ choices (rows.take n), Settles (Expr.verdict (entriesOf sources)) es cs) :
    (∃ us, p.listing fs = .ofList us) ↔ (∃ us, root.listing fs = .ofList us) ∧
      ∀ cs ∈ choices (rows.take (n + 1)),
        Settles (Expr.verdict (entriesOf sources)) (es ++ selections ++ ready) cs := by
  have hn : n < rows.length := (List.getElem?_eq_some_iff.1 hts).1
  obtain ⟨-, predicate, rfl, hconjoin⟩ := Plan.joinOn_eq_ok h
  have hlisting : (Plan.join root right predicate).listing fs =
      (Plan.pairs none (root.listing fs) (right.listing fs)).flatMap
        fun t => .keepIf (accepts predicate t) t := pairs_eq_keep ..
  rw [hlisting, (Planned.cross hfrom hrows hroot hs hts hright).ends_keep_iff
    fun cs hcs => hroot.accepts_eq hfrom hrows hs hts hright hready hconjoin hcs,
    hroot.sieved.ends_cross_iff, hright.ends_iff]
  have hjoined : ∀ cs ∈ choices (rows.take n), ∀ u ∈ ts,
      cs ++ [u] ∈ choices (rows.take (n + 1)) := by
    intro cs hcs u hu
    rw [choices_take_add_one hts]
    exact List.mem_flatMap.2 ⟨cs, hcs, List.mem_map_of_mem hu⟩
  -- the conjuncts on the scan are evaluated on a row only if the row in front of it passes
  have hsides : ∀ cs ∈ choices (rows.take n), ∀ u ∈ ts,
      (Settles (Expr.verdict (entriesOf sources)) (es ++ selections) (cs ++ [u]) ↔
        Settles (Expr.verdict (entriesOf sources)) es cs ∧
          (Passes (Expr.verdict (entriesOf sources)) es cs →
            Settles s.verdict selections [u])) := by
    intro cs hcs u hu
    have hleft : ∀ e ∈ es, e.verdict (entriesOf sources) (cs ++ [u]) =
        e.verdict (entriesOf sources) cs :=
      fun e he => hroot.verdict_append (Nat.le_of_lt hn) he hcs u
    rw [settles_append, settles_congr hleft, passes_congr hleft]
    exact and_congr_right fun _ => imp_congr_right fun _ => settles_congr fun e he =>
      hright.verdict_append hfrom hrows hs hts he hcs hu
  constructor
  · rintro ⟨⟨hends, hscan⟩, hpredicate⟩
    refine ⟨hends, fun joined hmem => settles_append.2 ⟨?_, hpredicate joined hmem⟩⟩
    rw [choices_take_add_one hts] at hmem
    obtain ⟨cs, hcs, hmem⟩ := List.mem_flatMap.1 hmem
    obtain ⟨u, hu, rfl⟩ := List.mem_map.1 hmem
    refine (hsides cs hcs u hu).2 ⟨hsettles hends cs hcs, fun hpass => ?_⟩
    refine hscan ⟨cs, hcs, hpass⟩ [u] ?_
    rw [choices_singleton]
    exact List.mem_map_of_mem hu
  · rintro ⟨hends, hall⟩
    refine ⟨⟨hends, ?_⟩, fun cs hcs => (settles_append.1 (hall cs hcs)).2⟩
    rintro ⟨cs, hcs, hpass⟩ single hsingle
    rw [choices_singleton] at hsingle
    obtain ⟨u, hu, rfl⟩ := List.mem_map.1 hsingle
    have hboth := (settles_append.1 (hall _ (hjoined cs hcs u hu))).1
    exact ((hsides cs hcs u hu).1 hboth).2 hpass

/-- Whether a tree over the first `n` entries ends well exactly when, on the rows of the first
entries, however many of them, the conjuncts on these can be evaluated in order. -/
structure EndsInOrder (fs : FileStore) (sources : List Source) (rows : List (List Tuple))
    (placed : List Planner.Placed) (n : Nat) (p : Plan) : Prop where
  planned : Planned fs sources rows n (Planner.inOrder placed n) p
  ends_iff : (∃ ts, p.listing fs = .ofList ts) ↔
    ∀ k ≤ n, ∀ cs ∈ choices (rows.take k),
      Settles (Expr.verdict (entriesOf sources)) (Planner.inOrder placed k) cs

/-- **A planned join tree ends well exactly when its conjuncts can be evaluated in order.** -/
theorem endsInOrder_joinTree (hfrom : Qualified (entriesOf sources))
    (hrows : List.Forall₂ (Source.Holds fs) sources rows)
    (hplaced : Planner.placeAll (entriesOf sources) conjuncts = .ok placed)
    (hscans : ∀ s ∈ sources, Plan.scanOf d s.qualifier = .ok s.scan)
    {inputs : List Plan} (hinputs : Planner.inputs d placed 0 (entriesOf sources) = .ok inputs)
    (h : Planner.joinTree (Planner.pendingOf placed) inputs = .ok p) :
    EndsInOrder fs sources rows placed sources.length p := by
  refine joinTree_induction (I := EndsInOrder fs sources rows placed)
    hfrom hrows hplaced hscans ?_ ?_ hinputs h
  · intro s ts first hs hts hinput
    have hone := Planner.inOrder_one hfrom hplaced
    have hchoices : choices (rows.take 1) = choices [ts] := by
      rw [take_add_one_of_getElem? hts]
      rfl
    have hfirst : ∀ cs ∈ choices [ts],
        (Settles (Expr.verdict (entriesOf sources)) (Planner.selectionsAt placed 0) cs ↔
          Settles s.verdict (Planner.selectionsAt placed 0) cs) := by
      intro cs hcs
      rw [choices_singleton] at hcs
      obtain ⟨u, hu, rfl⟩ := List.mem_map.1 hcs
      exact settles_congr fun e he =>
        hinput.verdict_append hfrom hrows hs hts he (List.mem_singleton_self []) hu
    refine ⟨hone ▸ Planned.first hfrom hrows hs hts hinput, hinput.ends_iff.trans ?_⟩
    constructor
    · intro hall k hk cs hcs
      rcases Nat.le_one_iff_eq_zero_or_eq_one.1 hk with rfl | rfl
      · exact ⟨true, rfl⟩
      · rw [hchoices] at hcs
        rw [hone, hfirst cs hcs]
        exact hall cs hcs
    · intro hall cs hcs
      rw [← hfirst cs hcs, ← hone]
      exact hall 1 (Nat.le_refl 1) cs (hchoices ▸ hcs)
  · intro n s ts root right joined hs hts hinput hroot hjoined
    have hready : ∀ e ∈ Planner.joinsAt placed n, e.Within (entriesOf sources) (n + 1) :=
      fun e he => Planner.within_joinsAt hfrom hplaced he
    refine ⟨hroot.planned.join hfrom hrows hs hts hinput hready hjoined, ?_⟩
    rw [hroot.planned.ends_join_iff hfrom hrows hs hts hinput hready hjoined
      fun hends => hroot.ends_iff.1 hends n (Nat.le_refl n), hroot.ends_iff]
    constructor
    · rintro ⟨hearlier, hlast⟩ k hk
      rcases Nat.le_or_eq_of_le_succ hk with hle | rfl
      · exact hearlier k hle
      · exact hlast
    · intro hall
      exact ⟨fun k hk => hall k (Nat.le_succ_of_le hk), hall (n + 1) (Nat.le_refl _)⟩

end Tree

/-! ## Drains of blocks -/

/-- What planning a block comes to: the sources of its FROM list, the join tree over them, and the
projection of the tree, with the positions of the sort keys in it. -/
structure PlannedBlock (c : Catalog) (block : Select) (p : Plan) (sources : List Source)
    (placed : List Planner.Placed) (root projected : Plan) (positions : List Nat) : Prop where
  from_eq : ∃ refs : List TableRef, block.fromItems = refs.map FromItem.table ∧
    refs.map c.source? = sources.map some
  qualified : Qualified (entriesOf sources)
  placed_eq : Planner.placeAll (entriesOf sources) block.conjuncts = .ok placed
  ends : ∀ (fs : FileStore) (rows : List (List Tuple)),
    List.Forall₂ (Source.Holds fs) sources rows →
      EndsInOrder fs sources rows placed sources.length root
  projects : root.projectTo block.items = .ok projected
  shaped : projected.Shaped
  sorts : block.orderBy.mapM (fun key => projected.schema.indexOf key.table key.column) =
    .ok positions
  collects : ∀ fs, (p.collect fs p.start).1 = (projected.collect fs projected.start).1.map
    (block.arranged (projected.schema.sortOrder positions))
  opens : ∀ (fs : FileStore) (rows : List (List Tuple)),
    List.Forall₂ (Source.Holds fs) sources rows → projected.Opens fs

section Blocks

variable {c : Catalog} {block : Select} {p root projected : Plan} {sources : List Source}
  {placed : List Planner.Placed} {positions : List Nat} {fs : FileStore} {rows : List (List Tuple)}

theorem exists_plannedBlock (hplan : (c.plan (.select block)).1 = .ok p) :
    ∃ sources placed root projected positions,
      PlannedBlock c block p sources placed root projected positions := by
  have hplan' : (Planner.planSelect c block).1 = .ok p := hplan
  rw [planSelect_eq_arrange] at hplan'
  obtain ⟨projected, hprojected, harrange⟩ := bind_eq_ok_iff.1 hplan'
  obtain ⟨positions, hpositions, -, hcollect⟩ := collect_arrange harrange
  obtain ⟨refs, sources, d, hitems, hsources, hnodup, hscans, hassemble⟩ :=
    Planner.planSelect_eq_ok hprojected
  have hfrom := qualified_entriesOf hnodup hsources
  obtain ⟨placed, inputs, root, hplaced, hinputs, hroot, hproject⟩ :=
    assemble_eq_ok rfl rfl hassemble
  refine ⟨sources, placed, root, projected, positions, ⟨refs, hitems, hsources⟩, hfrom, hplaced,
    ?_, hproject, Planner.shaped_planSelect hprojected, hpositions, hcollect, ?_⟩
  · intro fs rows hrows
    exact endsInOrder_joinTree hfrom hrows hplaced hscans hinputs hroot
  · intro fs rows hrows path hpath
    rw [Plan.paths_eq_scans, Planner.scans_assemble hscans hassemble] at hpath
    obtain ⟨s, hs, rfl⟩ := List.mem_map.1 hpath
    obtain ⟨k, hk⟩ := List.getElem?_of_mem hs
    obtain ⟨ts, -, hholds⟩ := forall₂_getElem? hrows hk
    exact hholds.isOk_openFile

namespace PlannedBlock

theorem schema_root (h : PlannedBlock c block p sources placed root projected positions)
    (hrows : List.Forall₂ (Source.Holds fs) sources rows) : root.schema = schemaOf sources := by
  rw [(h.ends fs rows hrows).planned.schema_eq, take_length_entriesOf, concat_entriesOf]

/-- The projection of a join tree that ends well. -/
theorem listing_projected (h : PlannedBlock c block p sources placed root projected positions)
    (hrows : List.Forall₂ (Source.Holds fs) sources rows) {ts : List Tuple}
    (hts : root.listing fs = .ofList ts) :
    ∃ mid, projected.listing fs = .ofList mid ∧
      mid.map some = ts.map ((schemaOf sources).output block.items) := by
  have hplanned := (h.ends fs rows hrows).planned
  rw [← h.schema_root hrows]
  refine listing_projectTo h.projects hts ?_
  intro t ht
  rw [(hplanned.sieved_rows hrows).rows_eq ts hts] at ht
  obtain ⟨cs, hcs, rfl⟩ := List.mem_map.1 ht
  exact hplanned.length_of_mem_product hrows (List.mem_map_of_mem (List.mem_filter.1 hcs).1)

/-- The rows of a projection have a value for each of its columns. -/
theorem length_of_mem_projected
    (h : PlannedBlock c block p sources placed root projected positions)
    (hrows : List.Forall₂ (Source.Holds fs) sources rows) {mid : List Tuple}
    (hmid : projected.listing fs = .ofList mid) :
    ∀ t ∈ mid, t.length = projected.schema.length := by
  have hdrain : (projected.collect fs projected.start).1 = .ok mid := by
    rw [Plan.collect_start (h.opens fs rows hrows), hmid, Listing.outcome_ofList]
  exact Plan.length_of_mem_collect h.shaped hdrain

/-- A drain of a block succeeds exactly when its join tree ends well, and then it returns the
projection of the rows of the tree as the block arranges them. -/
theorem collect_eq_ok_iff (h : PlannedBlock c block p sources placed root projected positions)
    (hrows : List.Forall₂ (Source.Holds fs) sources rows) {out : List Tuple} :
    (p.collect fs p.start).1 = .ok out ↔ ∃ ts mid, root.listing fs = .ofList ts ∧
      projected.listing fs = .ofList mid ∧
      mid.map some = ts.map ((schemaOf sources).output block.items) ∧
      out = block.arranged (projected.schema.sortOrder positions) mid := by
  rw [h.collects, Plan.collect_start (h.opens fs rows hrows)]
  constructor
  · intro hout
    cases hmid : (projected.listing fs).outcome with
    | error e =>
      rw [hmid] at hout
      cases hout
    | ok mid =>
      rw [hmid] at hout
      cases hout
      rw [Listing.outcome_eq_ok_iff] at hmid
      obtain ⟨ts, hts⟩ := ofList_of_projectTo h.projects hmid
      obtain ⟨mid', hmid', hmap⟩ := h.listing_projected hrows hts
      obtain rfl : mid' = mid := Listing.ofList_injective (hmid'.symm.trans hmid)
      exact ⟨ts, mid', hts, hmid', hmap, rfl⟩
  · rintro ⟨ts, mid, -, hmid, -, rfl⟩
    rw [hmid, Listing.outcome_ofList]
    rfl

theorem exists_collect_iff (h : PlannedBlock c block p sources placed root projected positions)
    (hrows : List.Forall₂ (Source.Holds fs) sources rows) :
    (∃ out, (p.collect fs p.start).1 = .ok out) ↔ ∃ ts, root.listing fs = .ofList ts := by
  constructor
  · rintro ⟨out, hout⟩
    obtain ⟨ts, -, hts, -⟩ := (h.collect_eq_ok_iff hrows).1 hout
    exact ⟨ts, hts⟩
  · rintro ⟨ts, hts⟩
    obtain ⟨mid, hmid, hmap⟩ := h.listing_projected hrows hts
    exact ⟨_, (h.collect_eq_ok_iff hrows).2 ⟨ts, mid, hts, hmid, hmap, rfl⟩⟩

end PlannedBlock

/-- The conjuncts of a conjunction are those of its parts. -/
theorem Expr.conjuncts_conjunction {es : List Expr} {e : Expr} (h : conjunction es = some e) :
    e.conjuncts = es.flatMap conjuncts := by
  have hfold : ∀ (es : List Expr) (e : Expr),
      (es.foldl and e).conjuncts = e.conjuncts ++ es.flatMap conjuncts := by
    intro es
    induction es with
    | nil => exact fun e => (List.append_nil _).symm
    | cons e' es ih =>
      intro e
      rw [List.foldl_cons, ih, List.flatMap_cons, ← List.append_assoc]
      rfl
  cases es with
  | nil => cases h
  | cons e es =>
    cases h
    exact hfold es e

/-- Verdicts on choices are truth values for rows of the product. -/
theorem settles_inOrder_iff (hfrom : Qualified (entriesOf sources))
    (hplaced : Planner.placeAll (entriesOf sources) block.conjuncts = .ok placed)
    (hrows : List.Forall₂ (Source.Holds fs) sources rows) {n : Nat} (hn : n ≤ rows.length) :
    (∀ cs ∈ choices (rows.take n),
        Settles (Expr.verdict (entriesOf sources)) (Planner.inOrder placed n) cs) ↔
      ∀ t ∈ productOf (rows.take n), ∃ v,
        conjoin ((Planner.inOrder placed n).map (Expr.truth (schemaOf (sources.take n)) t)) =
          .ok v := by
  rw [productOf, List.forall_mem_map]
  refine forall₂_congr fun cs hcs => ?_
  have htruth : ∀ e ∈ Planner.inOrder placed n, e.verdict (entriesOf sources) cs =
      e.truth (schemaOf (sources.take n)) (.concat cs) := by
    intro e he
    rw [← concat_take_entriesOf]
    exact verdict_eq_truth_take hfrom hrows hn (Planner.within_inOrder hfrom hplaced he) hcs
  rw [Settles, List.map_congr_left htruth]

/-- Where no table is empty, it is enough to look at the rows of the whole product. -/
theorem settles_of_nonempty (hfrom : Qualified (entriesOf sources))
    (hplaced : Planner.placeAll (entriesOf sources) block.conjuncts = .ok placed)
    (hne : ∀ ts ∈ rows, ts ≠ [])
    (hall : ∀ cs ∈ choices rows,
      Settles (Expr.verdict (entriesOf sources)) (Planner.inOrder placed rows.length) cs)
    {n : Nat} (hn : n ≤ rows.length) : ∀ cs ∈ choices (rows.take n),
      Settles (Expr.verdict (entriesOf sources)) (Planner.inOrder placed n) cs := by
  induction hn using Nat.decreasingInduction with
  | self =>
    rw [List.take_length]
    exact hall
  | of_succ k hk ih =>
    intro cs hcs
    obtain ⟨u, hu⟩ := List.exists_mem_of_ne_nil _ (hne rows[k] (List.getElem_mem hk))
    have hjoined : cs ++ [u] ∈ choices (rows.take (k + 1)) := by
      rw [choices_take_add_one (List.getElem?_eq_getElem hk)]
      exact List.mem_flatMap.2 ⟨cs, hcs, List.mem_map_of_mem hu⟩
    have hsettles := ih (cs ++ [u]) hjoined
    rw [Planner.inOrder, List.append_assoc, settles_append] at hsettles
    refine (settles_congr fun e he => ?_).1 hsettles.1
    have hwithin := Planner.within_inOrder hfrom hplaced he
    rw [← length_of_mem_choices (Nat.le_of_lt hk) hcs] at hwithin
    exact Expr.verdict_append hwithin u

/-- **Errors surface in the order of the plan.** Let a block be planned, and let the files of its
sources hold some rows. Then the drain succeeds exactly when, for each number of first entries of
the FROM list, the conjuncts on these entries, evaluated one after the other in the order of the
plan up to the first that is not true, raise no error on the rows of the product of these entries.
If no table is empty and the conjuncts are written in this order, that is to say that WHERE and the
ON conditions, joined by AND, raise no error on the rows of the whole product. -/
theorem evaluated_in_order (hplan : (c.plan (.select block)).1 = .ok p) :
    ∃ (refs : List TableRef) (sources : List Source) (placed : List Planner.Placed),
      block.fromItems = refs.map FromItem.table ∧ refs.map c.source? = sources.map some ∧
      Planner.placeAll (entriesOf sources) block.conjuncts = .ok placed ∧
      ∀ (fs : FileStore) (rows : List (List Tuple)), List.Forall₂ (Source.Holds fs) sources rows →
        ((∃ out, (p.collect fs p.start).1 = .ok out) ↔
          ∀ n ≤ sources.length, ∀ t ∈ productOf (rows.take n), ∃ v,
            conjoin ((Planner.inOrder placed n).map
              (Expr.truth (schemaOf (sources.take n)) t)) = .ok v) ∧
        ((∀ ts ∈ rows, ts ≠ []) → Planner.inOrder placed sources.length = block.conjuncts →
          ((∃ out, (p.collect fs p.start).1 = .ok out) ↔
            ∀ e ∈ Expr.conjunction block.conditions, ∀ t ∈ productOf rows,
              ∃ v, e.truth (schemaOf sources) t = .ok v)) := by
  obtain ⟨sources, placed, root, projected, positions, h⟩ := exists_plannedBlock hplan
  obtain ⟨refs, hitems, hsources⟩ := h.from_eq
  refine ⟨refs, sources, placed, hitems, hsources, h.placed_eq, ?_⟩
  intro fs rows hrows
  have hlength := hrows.length_eq
  have hplanned := (h.ends fs rows hrows).planned
  have hiff := (h.exists_collect_iff hrows).trans (h.ends fs rows hrows).ends_iff
  refine ⟨hiff.trans ?_, fun hne horder => hiff.trans ?_⟩
  · refine forall₂_congr fun n hn => ?_
    exact settles_inOrder_iff h.qualified h.placed_eq hrows (hlength ▸ hn)
  · have hfull := settles_inOrder_iff h.qualified h.placed_eq hrows (Nat.le_refl rows.length)
    rw [List.take_length, ← hlength, List.take_length, horder] at hfull
    have hwhole : (∀ n ≤ sources.length, ∀ cs ∈ choices (rows.take n),
        Settles (Expr.verdict (entriesOf sources)) (Planner.inOrder placed n) cs) ↔
          ∀ cs ∈ choices rows, Settles (Expr.verdict (entriesOf sources)) block.conjuncts cs := by
      constructor
      · intro hall
        have hlast := hall sources.length (Nat.le_refl _)
        rw [hlength, List.take_length, ← hlength, horder] at hlast
        exact hlast
      · intro hall n hn
        rw [← horder, hlength] at hall
        exact settles_of_nonempty h.qualified h.placed_eq hne hall (hlength ▸ hn)
    rw [hwhole, hfull]
    cases hconditions : Expr.conjunction block.conditions with
    | none =>
      have hnone : block.conjuncts = [] := by
        cases hes : block.conditions with
        | nil => rw [Select.conjuncts, hes, List.flatMap_nil]
        | cons e es =>
          rw [hes] at hconditions
          cases hconditions
      rw [hnone]
      exact ⟨fun _ e he => (by cases he), fun _ t _ => ⟨true, rfl⟩⟩
    | some e =>
      have hconjuncts : e.conjuncts = block.conjuncts := Expr.conjuncts_conjunction hconditions
      have hbinds : e.Binds (schemaOf sources) := by
        refine Expr.binds_conjuncts.1 fun e' he' => ?_
        rw [hconjuncts, ← horder] at he'
        rw [← concat_entriesOf]
        exact hplanned.binds e' he'
      simp only [Option.mem_def, Option.some.injEq, forall_eq', Expr.truth_conjuncts hbinds,
        hconjuncts]

end Blocks

/-! ### Guarded divisions -/

/-- A store with the rows `0` and `1` of a table `R` and the row `1` of a table `S`. -/
def divisorStore : FileStore :=
  ⟨[(⟨false, ["data"]⟩, .directory), (⟨false, ["data", "R"]⟩, .file [48, 10, 49, 10]),
    (⟨false, ["data", "S"]⟩, .file [49, 10])]⟩

/-- The catalog of its tables. -/
def divisorCatalog : Catalog :=
  ⟨"data", [("R", ⟨⟨[⟨"R", "B"⟩]⟩, none⟩), ("S", ⟨⟨[⟨"S", "A"⟩]⟩, none⟩)], []⟩

/-- The sources of its tables. -/
def divisorSources : List Source :=
  [⟨"R", "R", ⟨[⟨"R", "B"⟩]⟩, "data/R"⟩, ⟨"S", "S", ⟨[⟨"S", "A"⟩]⟩, "data/S"⟩]

/-- The rows of its tables. -/
def divisorRows : List (List Tuple) := [[⟨[0]⟩, ⟨[1]⟩], [⟨[1]⟩]]

theorem holds_divisorStore :
    List.Forall₂ (Source.Holds divisorStore) divisorSources divisorRows := by
  refine .cons ⟨.lines [[48], [49]], by decide +kernel, ?_⟩
    (.cons ⟨.lines [[49]], by decide +kernel, ?_⟩ .nil)
  · exact .cons ⟨"0", by decide +kernel, by decide +kernel, rfl⟩
      (.cons ⟨"1", by decide +kernel, by decide +kernel, rfl⟩ .nil)
  · exact .cons ⟨"1", by decide +kernel, by decide +kernel, rfl⟩ .nil

/-- The conjunct `1 / R.B = S.A`. -/
def quotient : Expr :=
  .binary (.compare .eq) (.binary (.arithmetic .div) (.literal 1) (.column ⟨some "R", "B"⟩))
    (.column ⟨some "S", "A"⟩)

/-- The block `SELECT * FROM R, S WHERE R.B <> 0 AND 1 / R.B = S.A`. -/
def guardedBlock : Select where
  distinct := false
  items := [.wildcard]
  first := .table ⟨"R", none⟩
  joins := [⟨.table ⟨"S", none⟩, none⟩]
  condition := some (.and (.binary (.compare .ne) (.column ⟨some "R", "B"⟩) (.literal 0)) quotient)
  orderBy := []

/-- Its plan: the divisor is tested on the scan of `R` and divides on the join. -/
def guardedPlan : Plan :=
  .project
    (.join
      (.select (.scan "R" "R" ⟨[⟨"R", "B"⟩]⟩ "data/R")
        ⟨.binary (.compare .ne) (.column ⟨some "R", "B"⟩) (.literal 0),
          .compare .ne (.column 0 ⟨some "R", "B"⟩) (.literal 0)⟩)
      (.scan "S" "S" ⟨[⟨"S", "A"⟩]⟩ "data/S")
      (some ⟨quotient, .compare .eq
        (.arithmetic .div (.literal 1) (.column 0 ⟨some "R", "B"⟩))
        (.column 1 ⟨some "S", "A"⟩)⟩))
    none

/-- The test comes before the division here as well, so no division by the stored zero surfaces. -/
theorem evaluated_in_order_guarded :
    (divisorCatalog.plan (.select guardedBlock)).1 = .ok guardedPlan ∧
      List.Forall₂ (Source.Holds divisorStore) divisorSources divisorRows ∧
      ∃ out, (guardedPlan.collect divisorStore guardedPlan.start).1 = .ok out := by
  have hplan : (divisorCatalog.plan (.select guardedBlock)).1 = .ok guardedPlan := by
    decide +kernel
  refine ⟨hplan, holds_divisorStore, ?_⟩
  obtain ⟨refs, sources, placed, hitems, hsources, hplaced, hall⟩ := evaluated_in_order hplan
  have hrefs : [⟨"R", none⟩, ⟨"S", none⟩] = refs :=
    List.map_injective_iff.2 (fun _ _ => FromItem.table.inj) hitems
  subst hrefs
  obtain rfl : divisorSources = sources := by
    apply List.map_injective_iff.2 (Option.some_injective Source)
    rw [← hsources]
    decide +kernel
  have hplaces : Planner.placeAll (entriesOf divisorSources) guardedBlock.conjuncts =
      .ok [⟨.binary (.compare .ne) (.column ⟨some "R", "B"⟩) (.literal 0), .selection 0⟩,
        ⟨quotient, .join 0 1⟩] := by
    decide +kernel
  obtain rfl := Except.ok.inj (hplaces.symm.trans hplaced)
  obtain ⟨-, hwritten⟩ := hall divisorStore divisorRows holds_divisorStore
  exact (hwritten (by decide) (by decide +kernel)).2 (by decide +kernel)

/-- The conjunct `S.A > 100`. -/
def farGuard : Expr :=
  .binary (.compare .gt) (.column ⟨some "S", "A"⟩) (.literal 100)

/-- The conjunct `1 / R.B = 1`. -/
def nearQuotient : Expr :=
  .binary (.compare .eq) (.binary (.arithmetic .div) (.literal 1) (.column ⟨some "R", "B"⟩))
    (.literal 1)

/-- The block `SELECT * FROM R, S WHERE S.A > 100 AND 1 / R.B = 1`. -/
def farGuardBlock : Select :=
  { guardedBlock with condition := some (.and farGuard nearQuotient) }

/-- Its plan: the division stands on the scan of `R`, in front of the guard. -/
def farGuardPlan : Plan :=
  .project
    (.join
      (.select (.scan "R" "R" ⟨[⟨"R", "B"⟩]⟩ "data/R")
        ⟨nearQuotient, .compare .eq
          (.arithmetic .div (.literal 1) (.column 0 ⟨some "R", "B"⟩)) (.literal 1)⟩)
      (.select (.scan "S" "S" ⟨[⟨"S", "A"⟩]⟩ "data/S")
        ⟨farGuard, .compare .gt (.column 0 ⟨some "S", "A"⟩) (.literal 100)⟩)
      none)
    none

/-- A guard that is written first, but stands on a later table, does not keep a division from
raising an error: the condition is false on all rows of the product, and the drain fails. -/
theorem pushed_past_guard :
    (divisorCatalog.plan (.select farGuardBlock)).1 = .ok farGuardPlan ∧
      List.Forall₂ (Source.Holds divisorStore) divisorSources divisorRows ∧
      Expr.conjunction farGuardBlock.conditions = some (.and farGuard nearQuotient) ∧
      (∀ t ∈ productOf divisorRows,
        (Expr.and farGuard nearQuotient).truth (schemaOf divisorSources) t = .ok false) ∧
      (farGuardPlan.collect divisorStore farGuardPlan.start).1 =
        .error (.divisionByZero "1 / R.B") := by
  refine ⟨by decide +kernel, holds_divisorStore, rfl, by decide +kernel, ?_⟩
  rw [Plan.collect_start (by decide +kernel)]
  decide +kernel

end FlatQuery
