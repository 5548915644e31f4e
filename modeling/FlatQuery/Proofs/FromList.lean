import FlatQuery.Planner
import FlatQuery.Proofs.Results
import Mathlib.Data.List.Nodup

set_option autoImplicit false

/-! # FROM lists

What an entry of a FROM list stands for. `Catalog.source?` says it for one entry and the catalog as
it was before the list: under an alias the table registered under the name itself, otherwise the
table that the name stands for. `readTables_eq_ok` finds these sources in the list that the planner
reads, and `planSelect_congr` says which part of a catalog a plan depends on. -/

namespace FlatQuery

/-! ## Catalogs under a FROM list -/

/-- An entry of a FROM list whose table is registered. -/
structure Source where
  /-- The qualifier of its columns. -/
  qualifier : String
  /-- The name that the table is registered under. -/
  table : String
  /-- The columns under the qualifier. -/
  schema : Schema
  /-- The data file. -/
  path : String
  deriving DecidableEq, Repr

/-- The entry as conjuncts see it. -/
def Source.fromTable (s : Source) : FromTable := ⟨s.qualifier, s.schema⟩

/-- The scan of the entry. -/
def Source.scan (s : Source) : Plan := .scan s.table s.qualifier s.schema s.path

namespace Catalog

/-- The table that an entry names: the table of that very name if the entry has an alias, and
otherwise the one that the name stands for. -/
def target (c : Catalog) (ref : TableRef) : String :=
  match ref.alias with
  | some _ => ref.name
  | none => c.resolve ref.name

/-- What an entry stands for, if its table is registered. -/
def source? (c : Catalog) (ref : TableRef) : Option Source :=
  (c.tables.lookup (c.target ref)).map fun entry =>
    { qualifier := ref.qualifier
      table := c.target ref
      schema := entry.schema.withTable ref.qualifier
      path := entry.location.getD (FilePath.join c.dataDir (c.target ref)) }

/-- The catalog after the alias of an entry is registered, if it has one. -/
def enter (c : Catalog) (ref : TableRef) : Catalog :=
  match ref.alias with
  | some a => c.registerAlias a ref.name
  | none => c

/-- Whether two catalogs differ in their aliases at most. -/
def SameTables (c d : Catalog) : Prop := c.dataDir = d.dataDir ∧ c.tables = d.tables

theorem sameTables_enter (c : Catalog) (ref : TableRef) : (c.enter ref).SameTables c := by
  unfold enter
  split <;> exact ⟨rfl, rfl⟩

theorem SameTables.symm {c d : Catalog} (h : c.SameTables d) : d.SameTables c :=
  ⟨h.1.symm, h.2.symm⟩

theorem SameTables.trans {c d e : Catalog} (hcd : c.SameTables d) (hde : d.SameTables e) :
    c.SameTables e :=
  ⟨hcd.1.trans hde.1, hcd.2.trans hde.2⟩

theorem resolve_registerAlias (c : Catalog) (a name n : String) :
    (c.registerAlias a name).resolve n = if n = a then name else c.resolve n := by
  simp only [resolve, registerAlias, lookup_assign]
  split <;> rfl

/-- An entry makes its qualifier stand for its table and changes no other name. -/
theorem resolve_enter (c : Catalog) (ref : TableRef) (n : String) :
    (c.enter ref).resolve n = if n = ref.qualifier then c.target ref else c.resolve n := by
  obtain ⟨name, «alias»⟩ := ref
  cases «alias» with
  | some a =>
    rw [enter, resolve_registerAlias]
    rfl
  | none =>
    show c.resolve n = if n = name then c.resolve name else c.resolve n
    by_cases h : n = name
    · rw [if_pos h, h]
    · rw [if_neg h]

/-- An entry does not change what entries with other qualifiers name. -/
theorem target_enter {c : Catalog} {ref r : TableRef} (hne : r.qualifier ≠ ref.qualifier) :
    (c.enter ref).target r = c.target r := by
  obtain ⟨name, «alias»⟩ := r
  cases «alias» with
  | some a => rfl
  | none => exact (resolve_enter c ref name).trans (if_neg hne)

theorem source?_enter {c : Catalog} {ref r : TableRef} (hne : r.qualifier ≠ ref.qualifier) :
    (c.enter ref).source? r = c.source? r := by
  obtain ⟨hdir, htables⟩ := sameTables_enter c ref
  simp only [source?, target_enter hne, hdir, htables]

/-- The qualifier of an entry stands for its table once its alias is registered. -/
theorem table?_enter (c : Catalog) (ref : TableRef) :
    (c.enter ref).table? ref.qualifier = c.tables.lookup (c.target ref) := by
  rw [table?, resolve_enter, if_pos rfl, (sameTables_enter c ref).2]

/-- An entry whose schema is found, after its alias was registered, has a source. -/
theorem source?_of_schemaFor {c : Catalog} {ref : TableRef} {schema : Schema}
    (h : (c.enter ref).schemaFor ref.qualifier = .ok schema) :
    ∃ s, c.source? ref = some s ∧ s.fromTable = ⟨ref.qualifier, schema⟩ := by
  rw [schemaFor, table?_enter] at h
  split at h
  · next entry hentry =>
    cases h
    exact ⟨_, by rw [source?, hentry, Option.map_some], rfl⟩
  · cases h

/-- The schema of an entry with a source is found. -/
theorem schemaFor_of_source? {c : Catalog} {ref : TableRef} {s : Source}
    (h : c.source? ref = some s) : (c.enter ref).schemaFor ref.qualifier = .ok s.schema := by
  obtain ⟨entry, hentry, rfl⟩ := Option.map_eq_some_iff.1 h
  rw [schemaFor, table?_enter, hentry]

section Congruence

variable {c d : Catalog} {n : String}

theorem schemaFor_congr (h : c.SameTables d) (hn : c.resolve n = d.resolve n) :
    c.schemaFor n = d.schemaFor n := by
  simp only [schemaFor, table?, h.2, hn]

theorem locationFor_congr (h : c.SameTables d) (hn : c.resolve n = d.resolve n) :
    c.locationFor n = d.locationFor n := by
  simp only [locationFor, table?, h.1, h.2, hn]

theorem scanOf_congr (h : c.SameTables d) (hn : c.resolve n = d.resolve n) :
    Plan.scanOf c n = Plan.scanOf d n := by
  simp only [Plan.scanOf, schemaFor_congr h hn, locationFor_congr h hn, hn]

end Congruence

theorem exists_source_of_mem {c : Catalog} {refs : List TableRef} {sources : List Source}
    (h : refs.map c.source? = sources.map some) {ref : TableRef} (href : ref ∈ refs) :
    ∃ s ∈ sources, c.source? ref = some s := by
  have hmem : c.source? ref ∈ sources.map some := h ▸ List.mem_map_of_mem href
  obtain ⟨s, hs, heq⟩ := List.mem_map.1 hmem
  exact ⟨s, hs, heq.symm⟩

theorem exists_ref_of_mem {c : Catalog} {refs : List TableRef} {sources : List Source}
    (h : refs.map c.source? = sources.map some) {s : Source} (hs : s ∈ sources) :
    ∃ ref ∈ refs, c.source? ref = some s := by
  have hmem : some s ∈ refs.map c.source? := h ▸ List.mem_map_of_mem hs
  exact List.mem_map.1 hmem

/-- The sources of a list have the qualifiers of its entries. -/
theorem qualifiers_of_sources {c : Catalog} {refs : List TableRef} {sources : List Source}
    (h : refs.map c.source? = sources.map some) :
    sources.map Source.qualifier = refs.map TableRef.qualifier := by
  induction refs generalizing sources with
  | nil =>
    rw [List.map_eq_nil_iff.1 h.symm]
    rfl
  | cons ref refs ih =>
    cases sources with
    | nil => cases h
    | cons s sources =>
      rw [List.map_cons, List.map_cons, List.cons.injEq] at h
      obtain ⟨hs, hrest⟩ := h
      obtain ⟨entry, -, rfl⟩ := Option.map_eq_some_iff.1 hs
      rw [List.map_cons, List.map_cons, ih hrest]

/-- The sources of some entries, as far as their tables are registered. -/
def sources (c : Catalog) (refs : List TableRef) : List Source := refs.filterMap c.source?

theorem sources_eq_of_map {c : Catalog} {refs : List TableRef} {sources : List Source}
    (h : refs.map c.source? = sources.map some) : c.sources refs = sources := by
  have hfilter : (refs.map c.source?).filterMap id = sources := by
    rw [h, List.filterMap_map]
    exact List.filterMap_some
  rw [List.filterMap_map] at hfilter
  exact hfilter

/-- Entries whose tables are registered have a source each. -/
theorem map_source?_of_registered {c : Catalog} {refs : List TableRef}
    (h : ∀ ref ∈ refs, (c.tables.lookup (c.target ref)).isSome) :
    refs.map c.source? = (c.sources refs).map some := by
  induction refs with
  | nil => rfl
  | cons ref refs ih =>
    obtain ⟨href, hrefs⟩ := List.forall_mem_cons.1 h
    obtain ⟨entry, hentry⟩ := Option.isSome_iff_exists.1 href
    have hsource : c.source? ref = some _ := congrArg (Option.map _) hentry
    have hsources : c.sources (ref :: refs) = _ :: c.sources refs :=
      List.filterMap_cons_some hsource
    rw [List.map_cons, ih hrefs, hsources, List.map_cons, hsource]

theorem registered_of_map {c : Catalog} {refs : List TableRef} {sources : List Source}
    (h : refs.map c.source? = sources.map some) :
    ∀ ref ∈ refs, (c.tables.lookup (c.target ref)).isSome := by
  intro ref href
  obtain ⟨s, -, hs⟩ := exists_source_of_mem h href
  obtain ⟨entry, hentry, -⟩ := Option.map_eq_some_iff.1 hs
  rw [hentry]
  rfl

/-- The scan under a qualifier that stands for the table of a source is the scan of the source. -/
theorem scanOf_source {c d : Catalog} {ref : TableRef} {s : Source} (h : c.SameTables d)
    (hs : c.source? ref = some s) (hn : d.resolve ref.qualifier = c.target ref) :
    Plan.scanOf d s.qualifier = .ok s.scan := by
  obtain ⟨entry, hentry, rfl⟩ := Option.map_eq_some_iff.1 hs
  have htable : d.table? ref.qualifier = some entry := by
    rw [table?, hn, ← h.2, hentry]
  simp only [Plan.scanOf, schemaFor, locationFor, htable, hn, ← h.1, Source.scan,
    Option.bind_some]
  cases entry.location <;> rfl

end Catalog

namespace Planner

open Catalog

/-- The planner reads the tables of a list without derived tables. -/
theorem tablesOf_eq_ok_iff {items : List FromItem} {refs : List TableRef} :
    tablesOf items = .ok refs ↔ items = refs.map FromItem.table := by
  rw [tablesOf, mapM_eq_ok_iff]
  induction items generalizing refs with
  | nil => cases refs <;> simp
  | cons item items ih =>
    cases refs with
    | nil => simp
    | cons ref refs =>
      rw [List.forall₂_cons, ih, List.map_cons, List.cons.injEq]
      cases item <;> simp

theorem readTables_cons (c : Catalog) (before : List FromTable) (ref : TableRef)
    (refs : List TableRef) :
    readTables c before (ref :: refs) =
      if before.any (·.qualifier == ref.qualifier) then
        (.error (.duplicateTable ref.qualifier), c)
      else
        match (c.enter ref).schemaFor ref.qualifier with
        | .error e => (.error e, c.enter ref)
        | .ok schema => readTables (c.enter ref) (before ++ [⟨ref.qualifier, schema⟩]) refs := by
  rw [readTables]
  rfl

/-! ### Lists that are read -/

/-- The entries make distinct qualifiers stand for their tables. -/
theorem resolve_foldl_enter {refs : List TableRef} (c : Catalog)
    (hnodup : (refs.map TableRef.qualifier).Nodup) :
    (∀ ref ∈ refs, (refs.foldl enter c).resolve ref.qualifier = c.target ref) ∧
      ∀ n, n ∉ refs.map TableRef.qualifier → (refs.foldl enter c).resolve n = c.resolve n := by
  induction refs generalizing c with
  | nil => exact ⟨by simp, fun n _ => rfl⟩
  | cons ref refs ih =>
    rw [List.map_cons, List.nodup_cons] at hnodup
    obtain ⟨hfresh, hnodup⟩ := hnodup
    obtain ⟨hin, hout⟩ := ih (c.enter ref) hnodup
    rw [List.foldl_cons]
    constructor
    · intro r hr
      rcases List.mem_cons.1 hr with rfl | hr
      -- the later entries have other qualifiers and leave this one alone
      · rw [hout _ hfresh, resolve_enter, if_pos rfl]
      · have hne : r.qualifier ≠ ref.qualifier := by
          intro heq
          exact hfresh (heq ▸ List.mem_map_of_mem hr)
        rw [hin r hr, target_enter hne]
    · intro n hn
      rw [List.map_cons, List.mem_cons, not_or] at hn
      rw [hout n hn.2, resolve_enter, if_neg hn.1]

theorem sameTables_foldl_enter (refs : List TableRef) (c : Catalog) :
    (refs.foldl enter c).SameTables c := by
  induction refs generalizing c with
  | nil => exact ⟨rfl, rfl⟩
  | cons ref refs ih => exact (ih (c.enter ref)).trans (sameTables_enter c ref)

/-- **A FROM list that is read has distinct qualifiers and a source for each entry**, found in the
catalog as it was before. -/
theorem readTables_eq_ok {c c' : Catalog} {before «from» : List FromTable} {refs : List TableRef}
    (h : readTables c before refs = (.ok «from», c'))
    (hbefore : (before.map FromTable.qualifier).Nodup) :
    c' = refs.foldl enter c ∧
      (before.map FromTable.qualifier ++ refs.map TableRef.qualifier).Nodup ∧
      ∃ sources : List Source, refs.map c.source? = sources.map some ∧
        «from» = before ++ sources.map Source.fromTable := by
  induction refs generalizing c before with
  | nil =>
    simp only [readTables, Prod.mk.injEq, Except.ok.injEq] at h
    obtain ⟨rfl, rfl⟩ := h
    exact ⟨rfl, by simpa using hbefore, [], rfl, by simp⟩
  | cons ref refs ih =>
    rw [readTables_cons] at h
    split at h
    · cases (Prod.mk.inj h).1
    · next hnew =>
      split at h
      · cases (Prod.mk.inj h).1
      · next schema hschema =>
        have hfresh : ref.qualifier ∉ before.map FromTable.qualifier := by
          intro hmem
          obtain ⟨t, ht, heq⟩ := List.mem_map.1 hmem
          exact hnew (List.any_eq_true.2 ⟨t, ht, by simpa using heq⟩)
        have hbefore' : ((before ++ [(⟨ref.qualifier, schema⟩ : FromTable)]).map
            FromTable.qualifier).Nodup := by
          rw [List.map_append, List.map_singleton, List.nodup_append_comm, List.singleton_append,
            List.nodup_cons]
          exact ⟨hfresh, hbefore⟩
        obtain ⟨hc', hnodup, sources, hsources, hfrom⟩ := ih h hbefore'
        rw [List.map_append, List.map_singleton, List.append_assoc, List.singleton_append] at hnodup
        obtain ⟨s, hs, hst⟩ := source?_of_schemaFor hschema
        -- the later entries have other qualifiers, so their sources are those of the old catalog
        have hrest : refs.map c.source? = refs.map (c.enter ref).source? := by
          apply List.map_congr_left
          intro r hr
          refine (source?_enter fun heq => ?_).symm
          have hdup := (List.nodup_cons.1 (List.nodup_append.1 hnodup).2.1).1
          exact hdup (heq ▸ List.mem_map_of_mem hr)
        refine ⟨hc', hnodup, s :: sources, ?_, ?_⟩
        · rw [List.map_cons, List.map_cons, hs, hrest, hsources]
        · rw [hfrom, List.map_cons, hst, List.append_assoc, List.singleton_append]

/-- **The entries of a list with distinct qualifiers and a source each are entered one by one**, and
the reading goes on behind them with their sources. -/
theorem readTables_append {c : Catalog} {before : List FromTable} {refs : List TableRef}
    {sources : List Source}
    (hnodup : (before.map FromTable.qualifier ++ refs.map TableRef.qualifier).Nodup)
    (hsources : refs.map c.source? = sources.map some) (rest : List TableRef) :
    readTables c before (refs ++ rest) =
      readTables (refs.foldl enter c) (before ++ sources.map Source.fromTable) rest := by
  induction refs generalizing c before sources with
  | nil =>
    rw [List.map_eq_nil_iff.1 hsources.symm, List.map_nil, List.append_nil]
    rfl
  | cons ref refs ih =>
    cases sources with
    | nil => cases hsources
    | cons s sources =>
      obtain ⟨hs, hsources⟩ := List.cons.inj hsources
      rw [List.map_cons] at hnodup
      have hnew : ¬ before.any (·.qualifier == ref.qualifier) := by
        intro hany
        obtain ⟨table, htable, heq⟩ := List.any_eq_true.1 hany
        have hmem : ref.qualifier ∈ before.map FromTable.qualifier :=
          List.mem_map.2 ⟨table, htable, beq_iff_eq.1 heq⟩
        exact (List.nodup_append.1 hnodup).2.2 _ hmem _ (List.mem_cons_self ..) rfl
      have hrest : refs.map (c.enter ref).source? = sources.map some := by
        rw [← hsources]
        apply List.map_congr_left
        intro r hr
        refine source?_enter fun heq => ?_
        have hfresh := (List.nodup_cons.1 (List.nodup_append.1 hnodup).2.1).1
        exact hfresh (heq ▸ List.mem_map_of_mem hr)
      have hqualifier : s.fromTable = ⟨ref.qualifier, s.schema⟩ := by
        obtain ⟨entry, -, rfl⟩ := Option.map_eq_some_iff.1 hs
        rfl
      rw [List.cons_append, readTables_cons, if_neg hnew, schemaFor_of_source? hs]
      show readTables (c.enter ref) (before ++ [⟨ref.qualifier, s.schema⟩]) (refs ++ rest) = _
      rw [ih _ hrest, List.append_assoc, ← hqualifier]
      · rfl
      · rw [List.map_append, List.append_assoc]
        exact hnodup

/-- A list whose qualifiers are distinct and whose entries have sources is read. -/
theorem readTables_of_sources {c : Catalog} {refs : List TableRef} {sources : List Source}
    (hnodup : (refs.map TableRef.qualifier).Nodup)
    (hsources : refs.map c.source? = sources.map some) :
    readTables c [] refs = (.ok (sources.map Source.fromTable), refs.foldl enter c) := by
  have hread := @readTables_append c [] refs sources hnodup hsources []
  rwa [List.append_nil, List.nil_append] at hread

/-- The catalog that is left gives each qualifier the scan of its source. -/
theorem scanOf_foldl_enter {c : Catalog} {refs : List TableRef} {sources : List Source}
    (hnodup : (refs.map TableRef.qualifier).Nodup)
    (hsources : refs.map c.source? = sources.map some) :
    ∀ s ∈ sources, Plan.scanOf (refs.foldl enter c) s.qualifier = .ok s.scan := by
  intro s hs
  obtain ⟨ref, href, hsource⟩ := exists_ref_of_mem hsources hs
  have hresolve := (resolve_foldl_enter c hnodup).1 ref href
  exact scanOf_source (sameTables_foldl_enter refs c).symm hsource hresolve

/-- A list that was read has a source for each entry, and the catalog that is left gives each
qualifier the scan of its source. -/
theorem sources_of_read {c d : Catalog} {refs : List TableRef} {«from» : List FromTable}
    (h : readTables c [] refs = (.ok «from», d)) :
    ∃ sources : List Source, refs.map c.source? = sources.map some ∧
      «from» = sources.map Source.fromTable ∧ (sources.map Source.qualifier).Nodup ∧
      ∀ s ∈ sources, Plan.scanOf d s.qualifier = .ok s.scan := by
  obtain ⟨rfl, hnodup, sources, hsources, hfrom⟩ := readTables_eq_ok h List.nodup_nil
  refine ⟨sources, hsources, hfrom, ?_, scanOf_foldl_enter hnodup hsources⟩
  rw [qualifiers_of_sources hsources]
  exact hnodup

/-! ### What a plan depends on -/

section Congruence

variable {c d : Catalog}

theorem target_congr {ref : TableRef}
    (h : ref.alias = none → c.resolve ref.name = d.resolve ref.name) :
    c.target ref = d.target ref := by
  obtain ⟨name, «alias»⟩ := ref
  cases «alias» with
  | some a => rfl
  | none => exact h rfl

theorem resolve_enter_congr {ref : TableRef} {n : String}
    (href : ref.alias = none → c.resolve ref.name = d.resolve ref.name)
    (hn : c.resolve n = d.resolve n) : (c.enter ref).resolve n = (d.enter ref).resolve n := by
  rw [resolve_enter, resolve_enter, target_congr href, hn]

/-- Reading a FROM list depends on the tables and on what the names without alias stand for. -/
theorem readTables_congr {before : List FromTable} {refs : List TableRef} (h : c.SameTables d)
    (hrefs : ∀ ref ∈ refs, ref.alias = none → c.resolve ref.name = d.resolve ref.name)
    (hbefore : ∀ t ∈ before, c.resolve t.qualifier = d.resolve t.qualifier) :
    (readTables c before refs).1 = (readTables d before refs).1 ∧
      (readTables c before refs).2.SameTables (readTables d before refs).2 ∧
      ∀ «from», (readTables c before refs).1 = .ok «from» → ∀ t ∈ «from»,
        (readTables c before refs).2.resolve t.qualifier =
          (readTables d before refs).2.resolve t.qualifier := by
  induction refs generalizing c d before with
  | nil =>
    refine ⟨rfl, h, ?_⟩
    rintro «from» hfrom t ht
    cases hfrom
    exact hbefore t ht
  | cons ref refs ih =>
    have href := hrefs ref (List.mem_cons_self ..)
    have hsame : (c.enter ref).SameTables (d.enter ref) :=
      (sameTables_enter c ref).trans (h.trans (sameTables_enter d ref).symm)
    have hq : (c.enter ref).resolve ref.qualifier = (d.enter ref).resolve ref.qualifier := by
      rw [resolve_enter, resolve_enter, if_pos rfl, if_pos rfl, target_congr href]
    rw [readTables_cons, readTables_cons, ← schemaFor_congr hsame hq]
    by_cases hdup : before.any (·.qualifier == ref.qualifier)
    · rw [if_pos hdup, if_pos hdup]
      exact ⟨rfl, h, fun _ hfrom => by cases hfrom⟩
    · rw [if_neg hdup, if_neg hdup]
      cases (c.enter ref).schemaFor ref.qualifier with
      | error e => exact ⟨rfl, hsame, fun _ hfrom => by cases hfrom⟩
      | ok schema =>
        apply ih hsame
        · intro r hr hnone
          exact resolve_enter_congr href (hrefs r (List.mem_cons_of_mem _ hr) hnone)
        · intro t ht
          rcases List.mem_append.1 ht with ht | ht
          · exact resolve_enter_congr href (hbefore t ht)
          · rw [List.mem_singleton.1 ht]
            exact hq

theorem inputs_congr (h : c.SameTables d) (placed : List Placed) (position : Nat)
    {«from» : List FromTable}
    (hfrom : ∀ t ∈ «from», c.resolve t.qualifier = d.resolve t.qualifier) :
    inputs c placed position «from» = inputs d placed position «from» := by
  induction «from» generalizing position with
  | nil => rfl
  | cons table rest ih =>
    have htable := scanOf_congr h (hfrom table (List.mem_cons_self ..))
    rw [inputs, inputs, ih _ fun t ht => hfrom t (List.mem_cons_of_mem _ ht)]
    simp only [input, htable]

/-- A block without derived tables is planned from its list as it is read. -/
theorem planSelect_of_refs {block : Select} {refs : List TableRef}
    (h : block.fromItems = refs.map FromItem.table) :
    planSelect c block =
      match readTables c [] refs with
      | (.error e, c') => (.error e, c')
      | (.ok «from», c') => (assemble c' block «from», c') := by
  rcases hread : readTables c [] refs with ⟨e | «from», d⟩ <;>
    simp only [planSelect, tablesOf_eq_ok_iff.2 h, hread]

/-- **A block whose entries have distinct qualifiers and sources** is assembled from them under a
catalog that gives each qualifier the scan of its source. -/
theorem planSelect_of_sources {block : Select} {refs : List TableRef} {sources : List Source}
    (hitems : block.fromItems = refs.map FromItem.table)
    (hnodup : (refs.map TableRef.qualifier).Nodup)
    (hsources : refs.map c.source? = sources.map some) :
    ∃ d : Catalog, (∀ s ∈ sources, Plan.scanOf d s.qualifier = .ok s.scan) ∧
      (planSelect c block).1 = assemble d block (sources.map Source.fromTable) := by
  refine ⟨refs.foldl enter c, scanOf_foldl_enter hnodup hsources, ?_⟩
  rw [planSelect_of_refs hitems, readTables_of_sources hnodup hsources]

/-- **A block that is planned** has a source for each entry of its FROM list, found in the catalog
as it was before, and its plan is assembled under a catalog that gives each qualifier the scan of
its source. -/
theorem planSelect_eq_ok {block : Select} {p : Plan} (h : (planSelect c block).1 = .ok p) :
    ∃ (refs : List TableRef) (sources : List Source) (d : Catalog),
      block.fromItems = refs.map FromItem.table ∧
        refs.map c.source? = sources.map some ∧
        (sources.map Source.qualifier).Nodup ∧
        (∀ s ∈ sources, Plan.scanOf d s.qualifier = .ok s.scan) ∧
        assemble d block (sources.map Source.fromTable) = .ok p := by
  cases htables : tablesOf block.fromItems with
  | error e =>
    unfold planSelect at h
    rw [htables] at h
    cases h
  | ok refs =>
    have hitems := tablesOf_eq_ok_iff.1 htables
    rcases hread : readTables c [] refs with ⟨e | «from», d⟩
    · rw [planSelect_of_refs hitems, hread] at h
      cases h
    · obtain ⟨sources, hsources, rfl, hnodup, hscans⟩ := sources_of_read hread
      rw [planSelect_of_refs hitems, hread] at h
      exact ⟨refs, sources, d, hitems, hsources, hnodup, hscans, h⟩

/-- The projection is followed by the sort and the sort by the removal of repeated rows. -/
theorem finish_eq (block : Select) (root : Plan) :
    finish block root =
      root.projectTo block.items >>= fun projected =>
        (if block.orderBy.isEmpty then .ok projected else projected.sortBy block.orderBy) >>=
          fun sorted =>
            .ok (if block.distinct then
              .distinct (if block.orderBy.isEmpty then sorted.sortAll else sorted)
            else sorted) := by
  unfold finish
  cases block.distinct <;> cases block.orderBy.isEmpty <;> rfl

/-- **The plan of a SELECT block depends on the tables and on what the names without alias stand
for**, and on nothing else in the catalog. -/
theorem planSelect_congr {block : Select} (h : c.SameTables d)
    (hrefs : ∀ ref, .table ref ∈ block.fromItems → ref.alias = none →
      c.resolve ref.name = d.resolve ref.name) :
    (planSelect c block).1 = (planSelect d block).1 := by
  cases htables : tablesOf block.fromItems with
  | error e =>
    unfold planSelect
    rw [htables]
  | ok refs =>
    have hitems := tablesOf_eq_ok_iff.1 htables
    have hmem : ∀ ref ∈ refs, ref.alias = none → c.resolve ref.name = d.resolve ref.name := by
      intro ref href
      apply hrefs ref
      rw [hitems]
      exact List.mem_map_of_mem href
    obtain ⟨hread, hsame, hagree⟩ := @readTables_congr c d [] refs h hmem (by simp)
    rw [planSelect_of_refs hitems, planSelect_of_refs hitems]
    rcases hc : readTables c [] refs with ⟨outcome, c'⟩
    rcases hd : readTables d [] refs with ⟨outcome', d'⟩
    rw [hc, hd] at hread hsame hagree
    obtain rfl : outcome = outcome' := hread
    cases outcome with
    | error e => rfl
    | ok «from» =>
      have hinputs : ∀ placed, inputs c' placed 0 «from» = inputs d' placed 0 «from» :=
        fun placed => inputs_congr hsame placed 0 (hagree «from» rfl)
      show assemble c' block «from» = assemble d' block «from»
      unfold assemble
      simp only [hinputs]

end Congruence

end Planner

end FlatQuery
