import FlatQuery.Proofs.Scans
import Mathlib.Data.List.Induction

set_option autoImplicit false

/-! # The walk through a FROM list

A FROM list is walked through once, from left to right. Each entry registers its alias before its
table is looked up, so a walk that stops leaves aliases behind, and the scans are built only after
all aliases are there. `plan_of_exit` says what each way out of planning leaves in the catalog;
`scanned_of_read` says that the aliases of a list redirect none of its own scans. -/

namespace FlatQuery

/-- The alias of an entry with the name that it stands for. -/
def TableRef.pair? (ref : TableRef) : Option (String × String) := ref.alias.map (·, ref.name)

namespace Catalog

/-! ## Overwriting aliases -/

/-- An alias map in which some pairs have been set, one after the other. -/
def overwritten (aliases pairs : List (String × String)) : List (String × String) :=
  pairs.foldl (fun aliases pair => assign pair.1 pair.2 aliases) aliases

/-- The last pair that sets a name decides what it stands for. -/
theorem lookup_overwritten (aliases pairs : List (String × String)) (n : String) :
    (overwritten aliases pairs).lookup n = (pairs.reverse.lookup n).or (aliases.lookup n) := by
  induction pairs generalizing aliases with
  | nil => rfl
  | cons pair pairs ih =>
    obtain ⟨a, name⟩ := pair
    show (overwritten (assign a name aliases) pairs).lookup n = _
    rw [ih, lookup_assign, List.reverse_cons, List.lookup_append, Option.or_assoc]
    by_cases h : n = a
    · rw [if_pos h, h, List.lookup_cons_self, Option.some_or]
    · rw [if_neg h, List.lookup_cons, beq_false_of_ne h, List.lookup_nil, Option.none_or]

/-- Entries change the alias map only. -/
theorem foldl_enter (c : Catalog) (refs : List TableRef) :
    refs.foldl enter c =
      { c with aliases := overwritten c.aliases (refs.filterMap TableRef.pair?) } := by
  induction refs generalizing c with
  | nil => rfl
  | cons ref refs ih =>
    obtain ⟨name, «alias»⟩ := ref
    rw [List.foldl_cons, ih]
    cases «alias» with
    | none => rfl
    | some a => rfl

/-! ## Where a walk ends -/

/-- Whether a FROM list is walked through to its end: its qualifiers are distinct, and each entry
names a registered table. -/
structure Readable (c : Catalog) (refs : List TableRef) : Prop where
  nodup : (refs.map TableRef.qualifier).Nodup
  registered : ∀ ref ∈ refs, (c.tables.lookup (c.target ref)).isSome

variable {c d : Catalog} {before after refs : List TableRef} {ref : TableRef}

theorem Readable.readTables_append (h : c.Readable refs) (rest : List TableRef) :
    Planner.readTables c [] (refs ++ rest) =
      Planner.readTables (refs.foldl enter c) ((c.sources refs).map Source.fromTable) rest :=
  @Planner.readTables_append c [] refs _ h.nodup (map_source?_of_registered h.registered) rest

/-- The qualifiers of the entries that have been read. -/
theorem Readable.qualifiers (h : c.Readable refs) :
    ((c.sources refs).map Source.fromTable).map FromTable.qualifier =
      refs.map TableRef.qualifier := by
  rw [List.map_map]
  exact qualifiers_of_sources (map_source?_of_registered h.registered)

/-- **A FROM list is walked through to its end or has a first entry that stops the walk**: one that
repeats a qualifier or names no registered table. -/
theorem readable_or_stops (c : Catalog) (refs : List TableRef) :
    c.Readable refs ∨ ∃ before ref after, refs = before ++ ref :: after ∧ c.Readable before ∧
      (ref.qualifier ∈ before.map TableRef.qualifier ∨
        ref.qualifier ∉ before.map TableRef.qualifier ∧ c.tables.lookup (c.target ref) = none) := by
  induction refs using List.reverseRecOn with
  | nil => exact .inl ⟨List.nodup_nil, by simp⟩
  | append_singleton refs ref ih =>
    rcases ih with h | ⟨before, r, after, rfl, hbefore, hstop⟩
    · by_cases hrepeats : ref.qualifier ∈ refs.map TableRef.qualifier
      · exact .inr ⟨refs, ref, [], rfl, h, .inl hrepeats⟩
      · cases hentry : c.tables.lookup (c.target ref) with
        | none => exact .inr ⟨refs, ref, [], rfl, h, .inr ⟨hrepeats, hentry⟩⟩
        | some entry =>
          refine .inl ⟨?_, ?_⟩
          · rw [List.map_append, List.map_singleton, List.nodup_append_comm,
              List.singleton_append, List.nodup_cons]
            exact ⟨hrepeats, h.nodup⟩
          · intro r hr
            rcases List.mem_append.1 hr with hr | hr
            · exact h.registered r hr
            · rw [List.mem_singleton.1 hr, hentry]
              rfl
    · exact .inr ⟨before, r, after ++ [ref], by rw [List.append_assoc, List.cons_append],
        hbefore, hstop⟩

/-- A walk that meets a qualifier again stops before it registers the alias. -/
theorem readTables_repeated (hbefore : c.Readable before)
    (h : ref.qualifier ∈ before.map TableRef.qualifier) :
    Planner.readTables c [] (before ++ ref :: after) =
      (.error (.duplicateTable ref.qualifier), before.foldl enter c) := by
  rw [hbefore.readTables_append, Planner.readTables_cons, if_pos]
  rw [← hbefore.qualifiers] at h
  obtain ⟨table, htable, heq⟩ := List.mem_map.1 h
  exact List.any_eq_true.2 ⟨table, htable, beq_iff_eq.2 heq⟩

/-- A walk that finds no table has registered the alias of the entry by then. -/
theorem readTables_unregistered (hbefore : c.Readable before)
    (hfresh : ref.qualifier ∉ before.map TableRef.qualifier)
    (hnone : c.tables.lookup (c.target ref) = none) :
    Planner.readTables c [] (before ++ ref :: after) =
      (.error (.tableNotFound (c.target ref)), (before ++ [ref]).foldl enter c) := by
  -- the entries before have other qualifiers and leave the name of this one alone
  have htarget : (before.foldl enter c).target ref = c.target ref :=
    Planner.target_congr fun halias => by
      have hname : ref.name = ref.qualifier := by rw [TableRef.qualifier, halias, Option.getD_none]
      rw [hname]
      exact (Planner.resolve_foldl_enter c hbefore.nodup).2 _ hfresh
  have hschema : ((before.foldl enter c).enter ref).schemaFor ref.qualifier =
      .error (.tableNotFound (c.target ref)) := by
    rw [schemaFor, table?_enter, htarget, (Planner.sameTables_foldl_enter before c).2, hnone,
      resolve_enter, if_pos rfl, htarget]
  rw [hbefore.readTables_append, Planner.readTables_cons, if_neg, hschema, List.foldl_append]
  · rfl
  · rw [← hbefore.qualifiers] at hfresh
    intro hany
    obtain ⟨table, htable, heq⟩ := List.any_eq_true.1 hany
    exact hfresh (List.mem_map.2 ⟨table, htable, beq_iff_eq.1 heq⟩)

theorem readTables_readable (h : c.Readable refs) :
    Planner.readTables c [] refs =
      (.ok ((c.sources refs).map Source.fromTable), refs.foldl enter c) :=
  Planner.readTables_of_sources h.nodup (map_source?_of_registered h.registered)

/-! ## Ways out of planning -/

/-- How the planning of a statement ends as far as its FROM list goes: which entries have been
entered by then, and the error if the list itself ends it. -/
inductive Exit (c : Catalog) : Statement → List TableRef → Option Error → Prop
  /-- A set operation is refused before its blocks are looked at. -/
  | setOperation (op : SetOperator) (left right : Statement) :
    Exit c (.setOperation op left right) [] (some (.unsupported op.keyword))
  /-- A derived table is refused before the first entry is read, wherever it stands. -/
  | derived {block : Select} {query : Statement} {a : Option String}
    (hitem : .subquery query a ∈ block.fromItems) :
    Exit c (.select block) [] (some (.unsupported "subquery in FROM"))
  /-- An entry that repeats a qualifier ends the walk in front of it. -/
  | repeated {block : Select} {before after : List TableRef} {ref : TableRef}
    (hitems : block.fromItems = (before ++ ref :: after).map FromItem.table)
    (hbefore : c.Readable before) (hrepeats : ref.qualifier ∈ before.map TableRef.qualifier) :
    Exit c (.select block) before (some (.duplicateTable ref.qualifier))
  /-- An entry that names no table ends the walk behind it. -/
  | unregistered {block : Select} {before after : List TableRef} {ref : TableRef}
    (hitems : block.fromItems = (before ++ ref :: after).map FromItem.table)
    (hbefore : c.Readable before) (hfresh : ref.qualifier ∉ before.map TableRef.qualifier)
    (hnone : c.tables.lookup (c.target ref) = none) :
    Exit c (.select block) (before ++ [ref]) (some (.tableNotFound (c.target ref)))
  /-- The walk reaches the end of the list. The block is planned, or is refused later. -/
  | read {block : Select} {refs : List TableRef}
    (hitems : block.fromItems = refs.map FromItem.table) (hrefs : c.Readable refs) :
    Exit c (.select block) refs none

/-- A FROM list holds tables only, or a derived one. -/
theorem tables_or_derived (items : List FromItem) :
    (∃ refs : List TableRef, items = refs.map FromItem.table) ∨
      ∃ query a, FromItem.subquery query a ∈ items := by
  induction items with
  | nil => exact .inl ⟨[], rfl⟩
  | cons item items ih =>
    cases item with
    | subquery query a => exact .inr ⟨query, a, List.mem_cons_self ..⟩
    | table ref =>
      rcases ih with ⟨refs, rfl⟩ | ⟨query, a, hmem⟩
      · exact .inl ⟨ref :: refs, rfl⟩
      · exact .inr ⟨query, a, List.mem_cons_of_mem _ hmem⟩

theorem tablesOf_derived {items : List FromItem} {query : Statement} {a : Option String}
    (h : .subquery query a ∈ items) :
    Planner.tablesOf items = .error (.unsupported "subquery in FROM") := by
  induction items with
  | nil => cases h
  | cons item items ih =>
    unfold Planner.tablesOf at ih ⊢
    rw [List.mapM_cons]
    cases item with
    | subquery query a => rfl
    | table ref =>
      rcases List.mem_cons.1 h with h | h
      · cases h
      · show (Except.ok ref >>= fun _ => _) = _
        rw [ih h]
        rfl

/-- Planning ends in one of these ways. -/
theorem exists_exit (c : Catalog) (statement : Statement) :
    ∃ entered stop, c.Exit statement entered stop := by
  cases statement with
  | setOperation op left right => exact ⟨_, _, .setOperation op left right⟩
  | select block =>
    rcases tables_or_derived block.fromItems with ⟨refs, hitems⟩ | ⟨query, a, hitem⟩
    · rcases readable_or_stops c refs with h | ⟨before, ref, after, rfl, hbefore, hstop⟩
      · exact ⟨_, _, .read hitems h⟩
      · rcases hstop with hrepeats | ⟨hfresh, hnone⟩
        · exact ⟨_, _, .repeated hitems hbefore hrepeats⟩
        · exact ⟨_, _, .unregistered hitems hbefore hfresh hnone⟩
    · exact ⟨_, _, .derived hitem⟩

/-- Entries of the FROM list are entered and no others. -/
theorem Exit.mem_fromItems {block : Select} {entered : List TableRef} {stop : Option Error}
    (h : c.Exit (.select block) entered stop) : ∀ ref ∈ entered, .table ref ∈ block.fromItems := by
  intro ref href
  cases h with
  | derived hitem => cases href
  | repeated hitems hbefore hrepeats =>
    rw [hitems]
    exact List.mem_map_of_mem (List.mem_append_left _ href)
  | unregistered hitems hbefore hfresh hnone =>
    rw [hitems, List.append_cons]
    exact List.mem_map_of_mem (List.mem_append_left _ href)
  | read hitems hrefs =>
    rw [hitems]
    exact List.mem_map_of_mem href

/-- The catalog is left with the entries entered, and an error of the FROM list is the outcome. -/
theorem plan_of_exit {statement : Statement} {entered : List TableRef} {stop : Option Error}
    (h : c.Exit statement entered stop) :
    (c.plan statement).2 = entered.foldl enter c ∧
      ∀ e ∈ stop, (c.plan statement).1 = .error e := by
  cases h with
  | setOperation op left right =>
    refine ⟨rfl, ?_⟩
    rintro e ⟨⟩
    rfl
  | derived hitem =>
    rw [plan, Planner.planSelect, tablesOf_derived hitem]
    refine ⟨rfl, ?_⟩
    rintro e ⟨⟩
    rfl
  | repeated hitems hbefore hrepeats =>
    rw [plan, Planner.planSelect_of_refs hitems, readTables_repeated hbefore hrepeats]
    refine ⟨rfl, ?_⟩
    rintro e ⟨⟩
    rfl
  | unregistered hitems hbefore hfresh hnone =>
    rw [plan, Planner.planSelect_of_refs hitems, readTables_unregistered hbefore hfresh hnone]
    refine ⟨rfl, ?_⟩
    rintro e ⟨⟩
    rfl
  | read hitems hrefs =>
    rw [plan, Planner.planSelect_of_refs hitems, readTables_readable hrefs]
    refine ⟨rfl, ?_⟩
    rintro e ⟨⟩

/-- **What planning does to the catalog, on every way out**: it ends in one of the ways that `Exit`
lists, and then tables and data directory are as they were, and the old aliases are overwritten from
left to right by those of the entries entered until then, however planning goes on. -/
theorem plan_leaves (c : Catalog) (statement : Statement) :
    (∃ entered stop, c.Exit statement entered stop) ∧
      ∀ entered stop, c.Exit statement entered stop →
        (c.plan statement).2 =
            { c with aliases := overwritten c.aliases (entered.filterMap TableRef.pair?) } ∧
          (∀ n, (c.plan statement).2.aliases.lookup n =
            ((entered.filterMap TableRef.pair?).reverse.lookup n).or (c.aliases.lookup n)) ∧
          ∀ e ∈ stop, (c.plan statement).1 = .error e := by
  refine ⟨exists_exit c statement, fun entered stop hexit => ?_⟩
  obtain ⟨hleft, hstop⟩ := plan_of_exit hexit
  rw [foldl_enter] at hleft
  refine ⟨hleft, fun n => ?_, hstop⟩
  rw [hleft]
  exact lookup_overwritten ..

/-- Two tables and an alias of one of them. -/
def aliasedCatalog : Catalog :=
  ⟨"data", [("R", ⟨⟨[⟨"R", "A"⟩]⟩, none⟩), ("S", ⟨⟨[⟨"S", "B"⟩]⟩, none⟩)], [("X", "S")]⟩

/-- The block `SELECT * FROM R X, S Y, R Y`. -/
def repeatingBlock : Select where
  distinct := false
  items := [.wildcard]
  first := .table ⟨"R", some "X"⟩
  joins := [⟨.table ⟨"S", some "Y"⟩, none⟩, ⟨.table ⟨"R", some "Y"⟩, none⟩]
  condition := none
  orderBy := []

/-- The entries before the second `Y` have redirected the old alias and left a new one. -/
theorem plan_leaves_repeating :
    aliasedCatalog.Exit (.select repeatingBlock) [⟨"R", some "X"⟩, ⟨"S", some "Y"⟩]
        (some (.duplicateTable "Y")) ∧
      (aliasedCatalog.plan (.select repeatingBlock)).1 = .error (.duplicateTable "Y") ∧
      (aliasedCatalog.plan (.select repeatingBlock)).2 =
        { aliasedCatalog with aliases := [("X", "R"), ("Y", "S")] } := by
  have hexit : aliasedCatalog.Exit (.select repeatingBlock) [⟨"R", some "X"⟩, ⟨"S", some "Y"⟩]
      (some (.duplicateTable "Y")) :=
    @Exit.repeated _ repeatingBlock [⟨"R", some "X"⟩, ⟨"S", some "Y"⟩] [] ⟨"R", some "Y"⟩ rfl
      ⟨by decide, by decide⟩ (by decide)
  obtain ⟨hleft, -, hstop⟩ := (plan_leaves aliasedCatalog (.select repeatingBlock)).2 _ _ hexit
  exact ⟨hexit, hstop _ rfl, hleft.trans (by decide)⟩

/-! ## Scans behind the walk -/

/-- Whether entry number `k` of a list that was read is the table registered as `table`: its schema
is that of the table under the qualifier, and the scan that is built from it, under the catalog `d`
that the walk left, is of this table, with this schema and the data file of the table. -/
def Scanned (c d : Catalog) («from» : List FromTable) (k : Nat) (qualifier table : String) : Prop :=
  ∃ entry schema, c.tables.lookup table = some entry ∧ schema = entry.schema.withTable qualifier ∧
    «from»[k]? = some ⟨qualifier, schema⟩ ∧
    Plan.scanOf d qualifier = .ok (.scan table qualifier schema
      (entry.location.getD (FilePath.join c.dataDir table)))

variable {«from» : List FromTable}

/-- Each entry of a list that was read is scanned as its own table. -/
theorem scanned_of_read (hread : Planner.readTables c [] refs = (.ok «from», d)) {k : Nat}
    (hk : refs[k]? = some ref) : Scanned c d «from» k ref.qualifier (c.target ref) := by
  obtain ⟨sources, hsources, rfl, -, hscans⟩ := Planner.sources_of_read hread
  obtain ⟨s, hs, hsource⟩ : ∃ s, sources[k]? = some s ∧ some s = c.source? ref := by
    have hget := congrArg (·[k]?) hsources
    simp only [List.getElem?_map, hk, Option.map_some] at hget
    exact Option.map_eq_some_iff.1 hget.symm
  have hscan := hscans s (List.mem_of_getElem? hs)
  obtain ⟨entry, hentry, rfl⟩ := Option.map_eq_some_iff.1 hsource.symm
  refine ⟨entry, _, hentry, rfl, ?_, hscan⟩
  rw [List.getElem?_map, hs]
  rfl

/-- **No alias of a FROM list redirects one of its scans.** The planner builds the scans of a list
that was read under the catalog with all its aliases. Each is built, with the schema of its entry;
an entry with an alias scans the table registered under its own name, and another one the table that
its name stood for before. The plan has these scans and no others. -/
theorem scans_of_walk {block : Select} (hitems : block.fromItems = refs.map FromItem.table)
    (hread : Planner.readTables c [] refs = (.ok «from», d)) :
    c.plan (.select block) = (Planner.assemble d block «from», d) ∧
      «from».length = refs.length ∧
      (∀ k name a, refs[k]? = some ⟨name, some a⟩ → Scanned c d «from» k a name) ∧
      (∀ k name, refs[k]? = some ⟨name, none⟩ → Scanned c d «from» k name (c.resolve name)) ∧
      ∀ p, Planner.assemble d block «from» = .ok p → p.scans.map (fun s => .ok s.scan) =
        «from».map fun table => Plan.scanOf d table.qualifier := by
  refine ⟨?_, ?_, fun k name a => scanned_of_read hread, fun k name => scanned_of_read hread, ?_⟩
  · rw [plan, Planner.planSelect_of_refs hitems, hread]
  · obtain ⟨sources, hsources, rfl, -⟩ := Planner.sources_of_read hread
    have hlength := congrArg List.length hsources
    rw [List.length_map, List.length_map] at hlength
    rw [List.length_map, hlength]
  · intro p hp
    obtain ⟨sources, -, rfl, -, hscans⟩ := Planner.sources_of_read hread
    rw [Planner.scans_assemble hscans hp, List.map_map]
    exact List.map_congr_left fun s hs => (hscans s hs).symm

/-- The block `SELECT * FROM R S, S R, X`. -/
def crossedBlock : Select where
  distinct := false
  items := [.wildcard]
  first := .table ⟨"R", some "S"⟩
  joins := [⟨.table ⟨"S", some "R"⟩, none⟩, ⟨.table ⟨"X", none⟩, none⟩]
  condition := none
  orderBy := []

/-- Two tables under the names of each other, and an older alias of a name that is now an alias. -/
theorem scans_of_walk_crossed : ∃ «from» d,
    Planner.readTables aliasedCatalog [] [⟨"R", some "S"⟩, ⟨"S", some "R"⟩, ⟨"X", none⟩] =
        (.ok «from», d) ∧
      Scanned aliasedCatalog d «from» 0 "S" "R" ∧ Scanned aliasedCatalog d «from» 1 "R" "S" ∧
      Scanned aliasedCatalog d «from» 2 "X" "S" := by
  have hread : Planner.readTables aliasedCatalog []
      [⟨"R", some "S"⟩, ⟨"S", some "R"⟩, ⟨"X", none⟩] =
        (.ok [⟨"S", ⟨[⟨"S", "A"⟩]⟩⟩, ⟨"R", ⟨[⟨"R", "B"⟩]⟩⟩, ⟨"X", ⟨[⟨"X", "B"⟩]⟩⟩],
          { aliasedCatalog with aliases := [("X", "S"), ("S", "R"), ("R", "S")] }) := by
    decide
  obtain ⟨-, -, haliased, hplain, -⟩ := @scans_of_walk _ _ _ _ crossedBlock rfl hread
  exact ⟨_, _, hread, haliased 0 "R" "S" rfl, haliased 1 "S" "R" rfl, hplain 2 "X" rfl⟩

end Catalog

end FlatQuery
