import FlatQuery.Proofs.JoinTree
import FlatQuery.Proofs.Scans
import FlatQuery.Proofs.Streaming

set_option autoImplicit false

/-! # Pushdown

A planned SELECT block filters early: each conjunct is evaluated on the first scan or join that has
its columns. `collect_plan` says that this changes nothing: the drain yields the projection of the
rows of the full product on which all conjuncts are true. -/

namespace FlatQuery

/-! ## Projections -/

/-- The values of a row for an item of a SELECT list. -/
def SelectItem.values (s : Schema) (t : Tuple) : SelectItem → Option (List Value)
  | wildcard => some t.values
  | expr (.column ref) => (s.valueOf t ref).map fun v => [v]
  | expr _ => none

/-- The row that a SELECT list makes of a row: the values of all items. -/
def Schema.output (s : Schema) (items : List SelectItem) (t : Tuple) : Option Tuple :=
  (items.mapM (SelectItem.values s t)).map fun values => ⟨values.flatten⟩

section Projections

variable {fs : FileStore} {root p : Plan} {items : List SelectItem} {s : Schema} {t : Tuple}

theorem mapM_get?_range (t : Tuple) : (List.range t.length).mapM t.get? = some t.values := by
  have hmap : ∀ ks : List Nat, (∀ k ∈ ks, k < t.values.length) →
      ks.mapM t.get? = some (ks.map fun k => t.values.getD k 0) := by
    intro ks hks
    induction ks with
    | nil => rfl
    | cons k ks ih =>
      obtain ⟨hk, hrest⟩ := List.forall_mem_cons.1 hks
      have hget : t.get? k = some (t.values.getD k 0) := by
        show t.values[k]? = some (t.values[k]?.getD 0)
        rw [List.getElem?_eq_getElem hk]
        rfl
      rw [List.mapM_cons, hget, ih hrest]
      rfl
  rw [Tuple.length, hmap _ fun k hk => List.mem_range.1 hk]
  apply congrArg some
  apply List.ext_getElem
  · rw [List.length_map, List.length_range]
  · intro k _ hk
    simp [List.getElem?_eq_getElem hk]

/-- The positions that an item is bound to hold its values. -/
theorem mapM_get?_of_item {item : SelectItem} {ps : List Nat}
    (h : Plan.positionsOfItem s item = .ok ps) (hlength : t.length = s.length) :
    ∃ vs, ps.mapM t.get? = some vs ∧ item.values s t = some vs := by
  unfold Plan.positionsOfItem at h
  split at h
  · cases h
    rw [← hlength]
    exact ⟨t.values, mapM_get?_range t, rfl⟩
  · next ref =>
    obtain ⟨i, hi, h⟩ := bind_eq_ok_iff.1 h
    cases h
    obtain ⟨v, hget, hvalue⟩ := Schema.exists_valueOf hlength hi
    refine ⟨[v], ?_, ?_⟩
    · rw [List.mapM_cons, hget]
      rfl
    · rw [SelectItem.values, hvalue]
      rfl
  · cases h

theorem project?_of_items {pss : List (List Nat)}
    (h : items.mapM (Plan.positionsOfItem s) = .ok pss) (hlength : t.length = s.length) :
    ∃ u, t.project? pss.flatten = some u ∧ s.output items t = some u := by
  have hparts : ∃ vss, pss.flatten.mapM t.get? = some vss.flatten ∧
      items.mapM (SelectItem.values s t) = some vss := by
    have hall := mapM_eq_ok_iff.1 h
    clear h
    induction hall with
    | nil => exact ⟨[], rfl, rfl⟩
    | cons hitem _ ih =>
      obtain ⟨vs, hget, hvalues⟩ := mapM_get?_of_item hitem hlength
      obtain ⟨vss, hgets, hvaluess⟩ := ih
      refine ⟨vs :: vss, ?_, ?_⟩
      · rw [List.flatten_cons, List.mapM_append, hget, hgets]
        rfl
      · rw [List.mapM_cons, hvalues, hvaluess]
        rfl
  obtain ⟨vss, hget, hvalues⟩ := hparts
  refine ⟨⟨vss.flatten⟩, ?_, ?_⟩
  · rw [Tuple.project?, hget]
    rfl
  · rw [Schema.output, hvalues]
    rfl

/-- A projection fails on no row of the schema and yields the rows of the SELECT list. -/
theorem listing_projectTo (h : root.projectTo items = .ok p) {ts : List Tuple}
    (hroot : root.listing fs = .ofList ts) (hlengths : ∀ t ∈ ts, t.length = root.schema.length) :
    ∃ out, p.listing fs = .ofList out ∧ out.map some = ts.map (root.schema.output items) := by
  unfold Plan.projectTo at h
  split at h
  · cases h
    refine ⟨ts, hroot, ?_⟩
    apply List.map_congr_left
    intro t _
    show some t = some ⟨t.values ++ []⟩
    rw [List.append_nil]
  · obtain ⟨pss, hpss, h⟩ := bind_eq_ok_iff.1 h
    cases h
    have hproject : ∀ t ∈ ts, ∃ u, t.project? pss.flatten = some u ∧
        root.schema.output items t = some u :=
      fun t ht => project?_of_items hpss (hlengths t ht)
    show ∃ out, (root.listing fs).flatMap _ = .ofList out ∧ _
    rw [hroot]
    clear hroot hlengths
    induction ts with
    | nil => exact ⟨[], rfl, rfl⟩
    | cons t ts ih =>
      obtain ⟨⟨u, hu, houtput⟩, hrest⟩ := List.forall_mem_cons.1 hproject
      obtain ⟨out, hout, hmap⟩ := ih hrest
      refine ⟨u :: out, ?_, ?_⟩
      · rw [Listing.ofList, Listing.flatMap_cons, hout, projectTuple, hu]
        rfl
      · rw [List.map_cons, List.map_cons, hmap, houtput]

/-- A projection ends well only if what it projects does. -/
theorem ofList_of_projectTo (h : root.projectTo items = .ok p) {out : List Tuple}
    (hp : p.listing fs = .ofList out) : ∃ ts, root.listing fs = .ofList ts := by
  unfold Plan.projectTo at h
  split at h
  · cases h
    exact ⟨out, hp⟩
  · obtain ⟨pss, -, h⟩ := bind_eq_ok_iff.1 h
    cases h
    obtain ⟨ts, hts, -⟩ := Listing.flatMap_eq_ofList hp
    exact ⟨ts, hts⟩

end Projections

/-! ## Blocks -/

/-- The conjuncts of all conditions of a block. -/
def Select.conjuncts (block : Select) : List Expr := block.conditions.flatMap Expr.conjuncts

/-- The columns of a FROM list. -/
def schemaOf (sources : List Source) : Schema := .concat (sources.map Source.schema)

/-- The rows of the product of some tables, the first table outermost. -/
def productOf (rows : List (List Tuple)) : List Tuple := (choices rows).map Tuple.concat

theorem concat_entriesOf (sources : List Source) :
    Schema.concat ((entriesOf sources).map FromTable.schema) = schemaOf sources := by
  rw [entriesOf, List.map_map]
  rfl

theorem concat_take_entriesOf (sources : List Source) (n : Nat) :
    Schema.concat (((entriesOf sources).take n).map FromTable.schema) =
      schemaOf (sources.take n) := by
  rw [entriesOf, ← List.map_take]
  exact concat_entriesOf _

theorem take_length_entriesOf (sources : List Source) :
    (entriesOf sources).take sources.length = entriesOf sources := by
  rw [entriesOf, List.take_of_length_le (Nat.le_of_eq (List.length_map _))]

section Blocks

variable {fs : FileStore} {c d : Catalog} {block : Select} {p : Plan} {sources : List Source}
  {rows : List (List Tuple)}

theorem qualified_entriesOf (hnodup : (sources.map Source.qualifier).Nodup) {refs : List TableRef}
    (hsources : refs.map c.source? = sources.map some) : Qualified (entriesOf sources) := by
  refine ⟨?_, ?_⟩
  · rw [entriesOf, List.map_map]
    exact hnodup
  · intro table htable column hcolumn
    obtain ⟨s, hs, rfl⟩ := List.mem_map.1 htable
    obtain ⟨ref, -, href⟩ := Catalog.exists_ref_of_mem hsources hs
    obtain ⟨entry, -, rfl⟩ := Option.map_eq_some_iff.1 href
    obtain ⟨column', -, rfl⟩ := List.mem_map.1 hcolumn
    rfl

/-- Without a sort and without the removal of repeated rows a plan is a projected join tree. -/
theorem assemble_eq_ok {«from» : List FromTable} (horder : block.orderBy = [])
    (hdistinct : block.distinct = false) (h : Planner.assemble d block «from» = .ok p) :
    ∃ placed inputs root, Planner.placeAll «from» block.conjuncts = .ok placed ∧
      Planner.inputs d placed 0 «from» = .ok inputs ∧
      Planner.joinTree (Planner.pendingOf placed) inputs = .ok root ∧
      root.projectTo block.items = .ok p := by
  obtain ⟨placed, hplaced, h⟩ := bind_eq_ok_iff.1 h
  obtain ⟨inputs, hinputs, h⟩ := bind_eq_ok_iff.1 h
  obtain ⟨root, hroot, h⟩ := bind_eq_ok_iff.1 h
  refine ⟨placed, inputs, root, hplaced, hinputs, hroot, ?_⟩
  rw [Planner.finish_eq, horder, hdistinct] at h
  obtain ⟨projected, hprojected, h⟩ := bind_eq_ok_iff.1 h
  cases h
  exact hprojected

/-- Bound predicates have the truth values of the expressions that they were bound from. -/
theorem truth_of_mapM_bind {s : Schema} {es : List Expr} {predicates : List BoundPredicate}
    (h : es.mapM (BoundPredicate.bind s) = .ok predicates) (t : Tuple) :
    es.map (Expr.truth s t) = predicates.map (BoundPredicate.eval t) := by
  have hall := mapM_eq_ok_iff.1 h
  clear h
  induction hall with
  | nil => rfl
  | cons hb _ ih => rw [List.map_cons, List.map_cons, ih, Expr.truth_of_bind hb]

/-- **Conditions are taken apart without loss**: the conjuncts of a block are true exactly when its
conditions are. -/
theorem conjuncts_true_iff {s : Schema} {predicates : List BoundPredicate}
    (h : block.conjuncts.mapM (BoundPredicate.bind s) = .ok predicates) (t : Tuple) :
    (∀ b ∈ predicates, b.eval t = .ok true) ↔
      ∀ condition ∈ block.conditions, condition.truth s t = .ok true := by
  have hbinds : ∀ e ∈ block.conjuncts, e.Binds s := by
    intro e he
    obtain ⟨b, -, hb⟩ := exists_of_mem_mapM h he
    exact ⟨b, hb⟩
  have hparts : ∀ condition ∈ block.conditions,
      (condition.truth s t = .ok true ↔ ∀ e ∈ condition.conjuncts, e.truth s t = .ok true) := by
    intro condition hcondition
    have hall : ∀ e ∈ condition.conjuncts, e.Binds s :=
      fun e he => hbinds e (List.mem_flatMap.2 ⟨condition, hcondition, he⟩)
    rw [Expr.truth_conjuncts (Expr.binds_conjuncts.1 hall), (conjoins_conjoin _).true_iff,
      List.forall_mem_map]
  rw [← List.forall_mem_map (P := (· = Except.ok true)), ← truth_of_mapM_bind h,
    List.forall_mem_map, forall₂_congr hparts, Select.conjuncts]
  constructor
  · exact fun hall condition hcondition e he =>
      hall e (List.mem_flatMap.2 ⟨condition, hcondition, he⟩)
  · intro hall e he
    obtain ⟨condition, hcondition, he⟩ := List.mem_flatMap.1 he
    exact hall condition hcondition e he

theorem take_length_rows (hrows : List.Forall₂ (Source.Holds fs) sources rows) :
    rows.take sources.length = rows :=
  List.take_of_length_le (Nat.le_of_eq hrows.length_eq.symm)

/-- A join tree over all entries is sieved from the whole product. -/
theorem Planned.sieved_rows {es : List Expr} {root : Plan}
    (hrows : List.Forall₂ (Source.Holds fs) sources rows)
    (hroot : Planned fs sources rows sources.length es root) :
    Sieved (Expr.verdict (entriesOf sources)) (Expr.Safe (entriesOf sources) rows) es
      (choices rows) (root.listing fs) := by
  have hsieved := hroot.sieved
  rw [take_length_rows hrows] at hsieved
  exact hsieved

/-- The rows of the product fit the schema of a planned join tree. -/
theorem Planned.length_of_mem_product {es : List Expr} {root : Plan}
    (hrows : List.Forall₂ (Source.Holds fs) sources rows)
    (hroot : Planned fs sources rows sources.length es root) {t : Tuple}
    (ht : t ∈ productOf rows) : t.length = root.schema.length := by
  have hlength : sources.length ≤ rows.length := Nat.le_of_eq hrows.length_eq
  obtain ⟨cs, hcs, rfl⟩ := List.mem_map.1 ht
  rw [← take_length_rows hrows] at hcs
  have hlengths := length_take_entriesOf hrows hlength hcs
  rw [hroot.schema_eq, ← Context.schema_zip hlengths, ← Context.tuple_zip hlengths,
    ← length_of_mem_choices hlength hcs, Context.zip_take_length]
  exact Context.length_tuple (fits_of_mem_choices hrows hcs)

/-- A planned join tree under all conjuncts, read off their truth values for whole rows. -/
theorem Planned.sieve_eq {es conjuncts : List Expr} {root : Plan}
    (hfrom : Qualified (entriesOf sources)) (hrows : List.Forall₂ (Source.Holds fs) sources rows)
    (hroot : Planned fs sources rows sources.length es root) (hmem : ∀ e, e ∈ es ↔ e ∈ conjuncts)
    {predicates : List BoundPredicate}
    (hpredicates : conjuncts.mapM (BoundPredicate.bind (schemaOf sources)) = .ok predicates)
    {ts : List Tuple} (hts : root.listing fs = .ofList ts) :
    ts = (productOf rows).filter (fun t => ∀ b ∈ predicates, b.eval t = .ok true) ∧
      ∀ t ∈ productOf rows, ¬ (∀ b ∈ predicates, b.eval t = .ok true) →
        ∃ b ∈ predicates, b.eval t = .ok false := by
  have hlength : sources.length ≤ rows.length := Nat.le_of_eq hrows.length_eq
  have hschema : Schema.concat (((entriesOf sources).take sources.length).map FromTable.schema) =
      schemaOf sources := by
    rw [take_length_entriesOf, concat_entriesOf]
  -- the verdicts on a choice are the values of the predicates for its row
  have hvalues : ∀ cs ∈ choices rows, conjuncts.map (Expr.verdict (entriesOf sources) · cs) =
      predicates.map (BoundPredicate.eval (.concat cs)) := by
    intro cs hcs
    rw [← truth_of_mapM_bind hpredicates]
    refine List.map_congr_left ?_
    intro e he
    rw [← hschema]
    rw [← take_length_rows hrows] at hcs
    exact verdict_eq_truth_take hfrom hrows hlength (hroot.within e ((hmem e).2 he)) hcs
  have hpasses : ∀ cs ∈ choices rows, (Passes (Expr.verdict (entriesOf sources)) es cs ↔
      ∀ b ∈ predicates, b.eval (.concat cs) = .ok true) := by
    intro cs hcs
    have hvalue := hvalues cs hcs
    rw [← List.forall_mem_map (P := (· = Except.ok true)), ← hvalue, List.forall_mem_map]
    exact ⟨fun h e he => h e ((hmem e).2 he), fun h e he => h e ((hmem e).1 he)⟩
  have hsieved := hroot.sieved_rows hrows
  refine ⟨?_, ?_⟩
  · rw [hsieved.rows_eq ts hts, productOf, List.filter_map, filter_decide_congr hpasses]
    rfl
  · intro t ht hnot
    obtain ⟨cs, hcs, rfl⟩ := List.mem_map.1 ht
    rcases hsieved.decided ts hts cs hcs with hpass | ⟨e, he, hfalse⟩
    · exact absurd ((hpasses cs hcs).1 hpass) hnot
    · have hvalue : Except.ok false ∈ conjuncts.map (Expr.verdict (entriesOf sources) · cs) :=
        List.mem_map.2 ⟨e, (hmem e).1 he, hfalse⟩
      rw [hvalues cs hcs] at hvalue
      exact List.mem_map.1 hvalue

/-- **Pushdown preserves meaning.** Let a block without ORDER BY and DISTINCT be planned. Then each
entry of its FROM list has a source, and whatever rows the files of the sources hold, all conjuncts
can be bound to the columns of the whole list. If the drain of the plan succeeds, it yields in the
order of the product exactly the projection of the rows on which all conjuncts are true, and every
other row of the product makes some conjunct false. If each conjunct can be evaluated on every
choice of one row from each table that it refers to, the drain succeeds. -/
theorem collect_plan (hplan : (c.plan (.select block)).1 = .ok p) (horder : block.orderBy = [])
    (hdistinct : block.distinct = false) :
    ∃ (refs : List TableRef) (sources : List Source),
      block.fromItems = refs.map FromItem.table ∧ refs.map c.source? = sources.map some ∧
      ∀ (fs : FileStore) (rows : List (List Tuple)),
        List.Forall₂ (Source.Holds fs) sources rows →
        ∃ predicates, block.conjuncts.mapM (BoundPredicate.bind (schemaOf sources)) = .ok predicates ∧
          (∀ out, (p.collect fs p.start).1 = .ok out →
            out.map some =
                ((productOf rows).filter fun t => ∀ b ∈ predicates, b.eval t = .ok true).map
                  ((schemaOf sources).output block.items) ∧
              ∀ t ∈ productOf rows, ¬ (∀ b ∈ predicates, b.eval t = .ok true) →
                ∃ b ∈ predicates, b.eval t = .ok false) ∧
          ((∀ e ∈ block.conjuncts, e.Safe (entriesOf sources) rows) →
            ∃ out, (p.collect fs p.start).1 = .ok out) := by
  obtain ⟨refs, sources, d, hitems, hsources, hnodup, hscans, hassemble⟩ :=
    Planner.planSelect_eq_ok hplan
  refine ⟨refs, sources, hitems, hsources, ?_⟩
  intro fs rows hrows
  have hfrom := qualified_entriesOf hnodup hsources
  obtain ⟨placed, inputs, root, hplaced, hinputs, hroot, hproject⟩ :=
    assemble_eq_ok horder hdistinct hassemble
  obtain ⟨es, hplanned, hmem⟩ := planned_joinTree hfrom hrows hplaced hscans hinputs hroot
  obtain ⟨predicates, hpredicates⟩ :=
    exists_mapM_iff.2 fun e he => hplanned.binds e ((hmem e).2 he)
  rw [concat_entriesOf] at hpredicates
  have hschema : root.schema = schemaOf sources := by
    rw [hplanned.schema_eq, take_length_entriesOf, concat_entriesOf]
  have hopen : p.Opens fs := by
    intro path hpath
    rw [Plan.paths_eq_scans, Planner.scans_assemble hscans hassemble] at hpath
    obtain ⟨s, hs, rfl⟩ := List.mem_map.1 hpath
    obtain ⟨k, hk⟩ := List.getElem?_of_mem hs
    obtain ⟨ts, -, hholds⟩ := forall₂_getElem? hrows hk
    exact hholds.isOk_openFile
  -- a drain of the plan returns its listing, which is the projected listing of the join tree
  have hdrain : ∀ out, (p.collect fs p.start).1 = .ok out ↔ p.listing fs = .ofList out := by
    intro out
    rw [Plan.collect_start hopen]
    exact Listing.outcome_eq_ok_iff
  have hresult : ∀ ts, root.listing fs = .ofList ts → ∃ out, p.listing fs = .ofList out ∧
      out.map some = ts.map ((schemaOf sources).output block.items) := by
    intro ts hts
    obtain ⟨hfilter, -⟩ := hplanned.sieve_eq hfrom hrows hmem hpredicates hts
    rw [← hschema]
    refine listing_projectTo hproject hts ?_
    intro t ht
    rw [hfilter] at ht
    exact hplanned.length_of_mem_product hrows (List.mem_filter.1 ht).1
  refine ⟨predicates, hpredicates, ?_, ?_⟩
  · intro out hout
    have hlisting := (hdrain out).1 hout
    obtain ⟨ts, hts⟩ := ofList_of_projectTo hproject hlisting
    obtain ⟨hfilter, hfalse⟩ := hplanned.sieve_eq hfrom hrows hmem hpredicates hts
    obtain ⟨out', hout', hmap⟩ := hresult ts hts
    obtain rfl : out' = out := Listing.ofList_injective (hout'.symm.trans hlisting)
    exact ⟨hfilter ▸ hmap, hfalse⟩
  · intro hsafe
    obtain ⟨ts, hts⟩ := hplanned.sieved.ends fun e he => hsafe e ((hmem e).1 he)
    obtain ⟨out, hout, -⟩ := hresult ts hts
    exact ⟨out, (hdrain out).2 hout⟩

end Blocks

/-! ### A join with a selection -/

/-- A store with the rows `1` and `2` of a table `S` and the rows `2` and `3` of a table `R`. -/
def pairStore : FileStore :=
  ⟨[(⟨false, ["data"]⟩, .directory), (⟨false, ["data", "S"]⟩, .file [49, 10, 50, 10]),
    (⟨false, ["data", "R"]⟩, .file [50, 10, 51, 10])]⟩

/-- The catalog of its tables. -/
def pairCatalog : Catalog :=
  ⟨"data", [("S", ⟨⟨[⟨"S", "A"⟩]⟩, none⟩), ("R", ⟨⟨[⟨"R", "G"⟩]⟩, none⟩)], []⟩

/-- The sources of its tables. -/
def pairSources : List Source :=
  [⟨"S", "S", ⟨[⟨"S", "A"⟩]⟩, "data/S"⟩, ⟨"R", "R", ⟨[⟨"R", "G"⟩]⟩, "data/R"⟩]

/-- The rows of its tables. -/
def pairRows : List (List Tuple) := [[⟨[1]⟩, ⟨[2]⟩], [⟨[2]⟩, ⟨[3]⟩]]

/-- The block `SELECT G FROM S, R WHERE A = G AND 1 < A`. -/
def pairBlock : Select where
  distinct := false
  items := [.expr (.column ⟨none, "G"⟩)]
  first := .table ⟨"S", none⟩
  joins := [⟨.table ⟨"R", none⟩, none⟩]
  condition := some (.and (.binary (.compare .eq) (.column ⟨none, "A"⟩) (.column ⟨none, "G"⟩))
    (.binary (.compare .lt) (.literal 1) (.column ⟨none, "A"⟩)))
  orderBy := []

/-- Its plan: one conjunct stands on the scan of `S`, the other on the join. -/
def pairPlan : Plan :=
  .project
    (.join
      (.select (.scan "S" "S" ⟨[⟨"S", "A"⟩]⟩ "data/S")
        ⟨.binary (.compare .lt) (.literal 1) (.column ⟨none, "A"⟩),
          .compare .lt (.literal 1) (.column 0 ⟨none, "A"⟩)⟩)
      (.scan "R" "R" ⟨[⟨"R", "G"⟩]⟩ "data/R")
      (some ⟨.binary (.compare .eq) (.column ⟨none, "A"⟩) (.column ⟨none, "G"⟩),
        .compare .eq (.column 0 ⟨none, "A"⟩) (.column 1 ⟨none, "G"⟩)⟩))
    (some [1])

theorem holds_pairStore : List.Forall₂ (Source.Holds pairStore) pairSources pairRows := by
  refine .cons ⟨.lines [[49], [50]], by decide +kernel, ?_⟩
    (.cons ⟨.lines [[50], [51]], by decide +kernel, ?_⟩ .nil)
  · exact .cons ⟨"1", by decide +kernel, by decide +kernel, rfl⟩
      (.cons ⟨"2", by decide +kernel, by decide +kernel, rfl⟩ .nil)
  · exact .cons ⟨"2", by decide +kernel, by decide +kernel, rfl⟩
      (.cons ⟨"3", by decide +kernel, by decide +kernel, rfl⟩ .nil)

/-- The drain of the plan has the one row of the product that passes. -/
theorem collect_plan_pair :
    (pairCatalog.plan (.select pairBlock)).1 = .ok pairPlan ∧
      List.Forall₂ (Source.Holds pairStore) pairSources pairRows ∧
      (pairPlan.collect pairStore pairPlan.start).1 = .ok [⟨[2]⟩] := by
  have hplan : (pairCatalog.plan (.select pairBlock)).1 = .ok pairPlan := by decide +kernel
  refine ⟨hplan, holds_pairStore, ?_⟩
  obtain ⟨refs, sources, hitems, hsources, hall⟩ := collect_plan hplan rfl rfl
  have hrefs : [⟨"S", none⟩, ⟨"R", none⟩] = refs :=
    List.map_injective_iff.2 (fun _ _ => FromItem.table.inj) hitems
  subst hrefs
  obtain rfl : pairSources = sources := by
    apply List.map_injective_iff.2 (Option.some_injective Source)
    rw [← hsources]
    decide +kernel
  obtain ⟨predicates, hpredicates, hrows, hends⟩ := hall pairStore pairRows holds_pairStore
  have hbound : pairBlock.conjuncts.mapM (BoundPredicate.bind (schemaOf pairSources)) =
      .ok [.compare .eq (.column 0 ⟨none, "A"⟩) (.column 1 ⟨none, "G"⟩),
        .compare .lt (.literal 1) (.column 0 ⟨none, "A"⟩)] := by
    decide +kernel
  obtain rfl := Except.ok.inj (hbound.symm.trans hpredicates)
  have hsafe : ∀ e ∈ pairBlock.conjuncts, e.Safe (entriesOf pairSources) pairRows := by
    decide +kernel
  obtain ⟨out, hout⟩ := hends hsafe
  obtain ⟨hmap, -⟩ := hrows out hout
  have hone : out.map some = [⟨[2]⟩].map some := by
    rw [hmap]
    decide +kernel
  rw [hout, List.map_injective_iff.2 (Option.some_injective Tuple) hone]

end FlatQuery
