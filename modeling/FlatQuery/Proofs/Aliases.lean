import FlatQuery.Database
import FlatQuery.Proofs.Walk

set_option autoImplicit false

/-! # Aliases from query to query

A database keeps the aliases of its queries, and a name is looked up among the aliases first. So a
query can change what a later one means: where the later one writes a table name without an alias
and the name has become an alias of another table. `query_after_openAt` says that nothing else in a
history of queries matters to a plan. -/

namespace FlatQuery

/-! ## Names of a statement -/

namespace Statement

/-- The table names that stand in the FROM list without an alias. -/
def plainNames : Statement → List String
  | select block => block.fromItems.filterMap fun
    | .table ref => if ref.alias = none then some ref.name else none
    | .subquery .. => none
  | setOperation .. => []

/-- The aliases of the FROM list with the names that they stand for. -/
def aliasPairs : Statement → List (String × String)
  | select block => block.fromItems.filterMap fun
    | .table ref => ref.alias.map (·, ref.name)
    | .subquery .. => none
  | setOperation .. => []

theorem mem_plainNames {block : Select} {n : String} :
    n ∈ (select block).plainNames ↔ .table ⟨n, none⟩ ∈ block.fromItems := by
  rw [plainNames, List.mem_filterMap]
  constructor
  · rintro ⟨item, hitem, h⟩
    split at h
    · next ref =>
      split at h
      · next hnone =>
        cases h
        obtain ⟨name, «alias»⟩ := ref
        cases hnone
        exact hitem
      · cases h
    · cases h
  · intro h
    exact ⟨_, h, rfl⟩

theorem mem_aliasPairs {block : Select} {ref : TableRef} {a : String}
    (href : .table ref ∈ block.fromItems) (ha : ref.alias = some a) :
    (a, ref.name) ∈ (select block).aliasPairs := by
  rw [aliasPairs, List.mem_filterMap]
  refine ⟨_, href, ?_⟩
  show ref.alias.map (·, ref.name) = some (a, ref.name)
  rw [ha]
  rfl

end Statement

namespace Catalog

variable {c d : Catalog} {statement : Statement}

theorem resolve_foldl_enter_cases (refs : List TableRef) (c : Catalog) (n : String) :
    (refs.foldl enter c).resolve n = c.resolve n ∨
      ∃ ref ∈ refs, ref.alias = some n ∧ (refs.foldl enter c).resolve n = ref.name := by
  induction refs generalizing c with
  | nil => exact .inl rfl
  | cons ref refs ih =>
    rw [List.foldl_cons]
    rcases ih (c.enter ref) with h | ⟨r, hr, hn, h⟩
    · rw [h]
      unfold enter
      split
      · next a ha =>
        rw [resolve_registerAlias]
        split
        · next hna => exact .inr ⟨ref, List.mem_cons_self .., by rw [ha, hna], rfl⟩
        · exact .inl rfl
      · exact .inl rfl
    · exact .inr ⟨r, List.mem_cons_of_mem _ hr, hn, h⟩

/-- **Planning a statement changes aliases only, and only those in its FROM list.** -/
theorem plan_registers (c : Catalog) (statement : Statement) :
    (c.plan statement).2.SameTables c ∧ ∀ n, (c.plan statement).2.resolve n = c.resolve n ∨
      (n, (c.plan statement).2.resolve n) ∈ statement.aliasPairs := by
  cases statement with
  | setOperation op left right => exact ⟨⟨rfl, rfl⟩, fun n => .inl rfl⟩
  | select block =>
    obtain ⟨entered, stop, hexit⟩ := exists_exit c (.select block)
    have hmem := hexit.mem_fromItems
    rw [(plan_of_exit hexit).1]
    refine ⟨Planner.sameTables_foldl_enter entered c, fun n => ?_⟩
    rcases resolve_foldl_enter_cases entered c n with h | ⟨ref, href, hn, h⟩
    · exact .inl h
    · rw [h]
      exact .inr (Statement.mem_aliasPairs (hmem ref href) hn)

/-- A statement is planned alike under all catalogs that agree on the tables and on the names
without alias. -/
theorem plan_congr (h : c.SameTables d)
    (hnames : ∀ n ∈ statement.plainNames, c.resolve n = d.resolve n) :
    (c.plan statement).1 = (d.plan statement).1 := by
  cases statement with
  | setOperation op left right => rfl
  | select block =>
    apply Planner.planSelect_congr h
    intro ref href hnone
    obtain ⟨name, «alias»⟩ := ref
    cases hnone
    exact hnames name (Statement.mem_plainNames.2 href)

/-- Catalogs that give a statement the same plan agree on the names without alias. -/
theorem resolve_of_plan_eq {p : Plan} (hc : (c.plan statement).1 = .ok p)
    (hd : (d.plan statement).1 = .ok p) :
    ∀ n ∈ statement.plainNames, c.resolve n = d.resolve n := by
  cases statement with
  | setOperation op left right => cases hc
  | select block =>
    intro n hn
    obtain ⟨refs, hrefs, hscans⟩ := Planner.scans_planSelect hc
    obtain ⟨refs', hrefs', hscans'⟩ := Planner.scans_planSelect hd
    obtain rfl : refs = refs' := by
      apply List.map_injective_iff.2 (fun r r' hr => FromItem.table.inj hr)
      rw [← hrefs, ← hrefs']
    have hmem : ⟨n, none⟩ ∈ refs := by
      have hitem := Statement.mem_plainNames.1 hn
      rw [hrefs, List.mem_map] at hitem
      obtain ⟨ref, href, heq⟩ := hitem
      cases heq
      exact href
    -- the entry has one source under both catalogs, and a source shows the table it stands for
    have hsource : c.source? ⟨n, none⟩ = d.source? ⟨n, none⟩ :=
      List.map_eq_map_iff.1 (hscans.trans hscans'.symm) _ hmem
    obtain ⟨s, -, hs⟩ := exists_source_of_mem hscans hmem
    have htable : ∀ {b : Catalog}, b.source? ⟨n, none⟩ = some s → s.table = b.resolve n := by
      intro b hb
      obtain ⟨entry, -, rfl⟩ := Option.map_eq_some_iff.1 hb
      rfl
    rw [← htable hs, ← htable (hsource ▸ hs)]

end Catalog

/-! ## Histories -/

/-- A request to a database. -/
inductive Request
  /-- A query text is planned. -/
  | query (text : String)
  /-- A query text is run on the files as they are then. -/
  | execute (text : String) (fs : FileStore) (sink : Sink)

/-- The query text of a request. -/
def Request.text : Request → String
  | query text => text
  | execute text .. => text

namespace Database

/-- The database after a request, successful or not. -/
def serve (db : Database) : Request → Database
  | .query text => (db.query text).2
  | .execute text fs sink => (db.execute fs text sink).2.2

/-- The database after a sequence of requests. -/
def after (db : Database) (requests : List Request) : Database := requests.foldl serve db

/-- A query text is shadowed if a name in its FROM list that has no alias is now an alias of
another table. -/
def Shadows (db : Database) (text : String) : Prop :=
  ∃ statement, Sql.read text = .ok statement ∧
    ∃ n ∈ statement.plainNames, db.catalog.resolve n ≠ n

instance (db : Database) (text : String) : Decidable (db.Shadows text) :=
  match h : Sql.read text with
  | .error e => .isFalse fun ⟨_, hread, _⟩ => by
    rw [h] at hread
    cases hread
  | .ok statement =>
    decidable_of_iff (∃ n ∈ statement.plainNames, db.catalog.resolve n ≠ n) <| by
      constructor
      · exact fun hn => ⟨statement, h, hn⟩
      · rintro ⟨statement', hread, hn⟩
        rw [h] at hread
        cases hread
        exact hn

/-- A query text introduces an alias for a name if its FROM list says so. -/
def Introduces (text a name : String) : Prop :=
  ∃ statement, Sql.read text = .ok statement ∧ (a, name) ∈ statement.aliasPairs

theorem serve_eq_query (db : Database) (r : Request) : db.serve r = (db.query r.text).2 := by
  cases r with
  | query text => rfl
  | execute text fs sink =>
    show (db.execute fs text sink).2.2 = (db.query text).2
    unfold execute
    split <;> next h => rw [h]

theorem query_of_read {db : Database} {text : String} {statement : Statement}
    (h : Sql.read text = .ok statement) :
    db.query text =
      ((db.catalog.plan statement).1, { db with catalog := (db.catalog.plan statement).2 }) := by
  unfold query
  rw [h]

/-- A request changes aliases only, and only those that its text writes. -/
theorem serve_registers (db : Database) (r : Request) :
    (db.serve r).catalog.SameTables db.catalog ∧
      ∀ n, (db.serve r).catalog.resolve n = db.catalog.resolve n ∨
        Introduces r.text n ((db.serve r).catalog.resolve n) := by
  rw [serve_eq_query]
  cases hread : Sql.read r.text with
  | error e =>
    unfold query
    rw [hread]
    exact ⟨⟨rfl, rfl⟩, fun n => .inl rfl⟩
  | ok statement =>
    rw [query_of_read hread]
    obtain ⟨hsame, hresolve⟩ := db.catalog.plan_registers statement
    refine ⟨hsame, fun n => ?_⟩
    rcases hresolve n with h | h
    · exact .inl h
    · exact .inr ⟨statement, hread, h⟩

/-- A sequence of requests changes aliases only, and only those that one of its texts writes. -/
theorem after_registers (requests : List Request) (db : Database) :
    (db.after requests).catalog.SameTables db.catalog ∧
      ∀ n, (db.after requests).catalog.resolve n = db.catalog.resolve n ∨
        ∃ r ∈ requests, Introduces r.text n ((db.after requests).catalog.resolve n) := by
  induction requests generalizing db with
  | nil => exact ⟨⟨rfl, rfl⟩, fun n => .inl rfl⟩
  | cons r requests ih =>
    obtain ⟨hsame, hresolve⟩ := ih (db.serve r)
    obtain ⟨hserve, hserved⟩ := serve_registers db r
    refine ⟨hsame.trans hserve, fun n => ?_⟩
    show ((db.serve r).after requests).catalog.resolve n = _ ∨
      ∃ r' ∈ r :: requests, Introduces r'.text n (((db.serve r).after requests).catalog.resolve n)
    rcases hresolve n with h | ⟨r', hr', h⟩
    · rw [h]
      rcases hserved n with h' | h'
      · exact .inl h'
      · exact .inr ⟨r, List.mem_cons_self .., h'⟩
    · exact .inr ⟨r', List.mem_cons_of_mem _ hr', h⟩

/-! ### Databases as they are opened -/

theorem aliases_loadLines (c : Catalog) (lineNo count : Nat)
    (lines : List (Except IoFault String)) :
    (c.loadLines lineNo count lines).2.aliases = c.aliases := by
  induction lines generalizing c lineNo count with
  | nil => rfl
  | cons line lines ih =>
    cases line with
    | error fault => rfl
    | ok line =>
      unfold Catalog.loadLines
      split
      · exact ih c _ _
      · rfl
      · next table columns _ _ =>
        split
        · rfl
        · next c' hc' =>
          rw [ih c']
          unfold Catalog.register at hc'
          split at hc'
          · cases hc'
          · obtain ⟨schema, -, h⟩ := bind_eq_ok_iff.1 hc'
            cases h
            rfl

/-- In a database that was just opened every name stands for itself. -/
theorem resolve_openAt {fs : FileStore} {config : Config} {db : Database}
    (h : openAt fs config = .ok db) (n : String) : db.catalog.resolve n = n := by
  have haliases : db.catalog.aliases = [] := by
    unfold openAt at h
    split at h
    · next count catalog hload =>
      cases h
      unfold Catalog.loadFile at hload
      split at hload
      · next source _ =>
        have hlines := aliases_loadLines (Catalog.empty config.dataPath) 0 0 source.toList
        rw [← Catalog.load, hload] at hlines
        exact hlines
      · cases hload
    · cases h
  unfold Catalog.resolve
  rw [haliases]
  rfl

/-- A file store with a schema file of the tables `S` and `R`. -/
def twoTables : FileStore :=
  ⟨[(⟨false, ["schema.txt"]⟩, .file [83, 32, 65, 10, 82, 32, 71, 10])]⟩

/-- The place of its database. -/
def twoTablesConfig : Config := ⟨"", "schema.txt", "data"⟩

/-- The database as it is opened. -/
def twoTablesOpened : Database :=
  { config := twoTablesConfig
    catalog := ⟨"data", [("S", ⟨⟨[⟨"S", "A"⟩]⟩, none⟩), ("R", ⟨⟨[⟨"R", "G"⟩]⟩, none⟩)], []⟩ }

theorem openAt_twoTables : openAt twoTables twoTablesConfig = .ok twoTablesOpened := by
  decide +kernel

end Database

end FlatQuery
