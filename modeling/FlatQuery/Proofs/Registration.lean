import FlatQuery.Proofs.Aliases

set_option autoImplicit false

/-! # Registered tables

What holds of the tables of every catalog that is built by registering tables and aliases, loading
descriptions and planning statements. All of these change the tables by registering new ones at
most, so they keep what this keeps (`Catalog.keeps_after`). In particular the columns of a table are
distinct and carry the name that it is registered under (`Catalog.wellFormed_after`). The sources of
a FROM list inherit this (`Catalog.nodup_sources`). -/

namespace FlatQuery

namespace Catalog

/-- A change of a catalog. It may fail, and then keeps what it changed before. -/
inductive Action
  | load (source : LineSource)
  | loadFile (fs : FileStore) (path : String)
  | register (name : String) (columns : List String) (location : Option String)
  | registerAlias («alias» name : String)
  | plan (statement : Statement)

/-- The catalog after an action. -/
def perform (c : Catalog) : Action → Catalog
  | .load source => (c.load source).2
  | .loadFile fs path => (c.loadFile fs path).2
  | .register name columns location =>
    match c.register name columns location with
    | .ok c' => c'
    | .error _ => c
  | .registerAlias a name => c.registerAlias a name
  | .plan statement => (c.plan statement).2

/-- The catalog after a sequence of actions. -/
def after (c : Catalog) (actions : List Action) : Catalog := actions.foldl perform c

/-- Whether each table has distinct columns, all of them under its own name. -/
def WellFormed (c : Catalog) : Prop :=
  ∀ entry ∈ c.tables, entry.2.schema.columns.Nodup ∧
    ∀ column ∈ entry.2.schema.columns, column.table = entry.1

variable {c d : Catalog}

/-- What registering a table takes and what it adds. -/
theorem of_register {name : String} {columns : List String} {location : Option String}
    (h : c.register name columns location = .ok d) :
    c.tables.lookup name = none ∧ (Schema.forTable name columns).columns.Nodup ∧
      d.tables = c.tables ++ [(name, ⟨.forTable name columns, location⟩)] := by
  unfold register at h
  split at h
  · cases h
  · next hfresh =>
    obtain ⟨schema, hschema, h⟩ := bind_eq_ok_iff.1 h
    cases h
    obtain ⟨hnodup, rfl⟩ := Schema.ofColumns_eq_ok_iff.1 hschema
    exact ⟨Option.not_isSome_iff_eq_none.1 hfresh, hnodup, rfl⟩

/-! ## What actions keep -/

section Keeps

variable {P : List (String × TableEntry) → Prop}

/-- Whether a property of the tables survives the registering of one more. -/
def KeptByRegister (P : List (String × TableEntry) → Prop) : Prop :=
  ∀ (c d : Catalog) (name : String) (columns : List String) (location : Option String),
    c.register name columns location = .ok d → P c.tables → P d.tables

theorem keeps_loadLines (hregister : KeptByRegister P)
    {lines : List (Except IoFault String)} {lineNo count : Nat} (hc : P c.tables) :
    P (c.loadLines lineNo count lines).2.tables := by
  induction lines generalizing c lineNo count with
  | nil => exact hc
  | cons line rest ih =>
    cases line with
    | error fault => exact hc
    | ok line =>
      unfold loadLines
      split
      · exact ih hc
      · exact hc
      · split
        · exact hc
        · next c' h => exact ih (hregister _ _ _ _ _ h hc)

/-- What holds of the tables and is kept when one is registered is kept by every action, also by one
that fails. -/
theorem keeps_perform (hregister : KeptByRegister P) (hc : P c.tables) (action : Action) :
    P (c.perform action).tables := by
  cases action with
  | load source => exact keeps_loadLines hregister hc
  | loadFile fs path =>
    show P (c.loadFile fs path).2.tables
    unfold loadFile
    split
    · exact keeps_loadLines hregister hc
    · exact hc
  | register name columns location =>
    simp only [perform]
    split
    · next c' h => exact hregister _ _ _ _ _ h hc
    · exact hc
  | registerAlias a name => exact hc
  | plan statement =>
    have htables : (c.plan statement).2.tables = c.tables := (plan_registers c statement).1.2
    exact htables ▸ hc

theorem keeps_after (hregister : KeptByRegister P) (hc : P c.tables) (actions : List Action) :
    P (c.after actions).tables := by
  induction actions generalizing c with
  | nil => exact hc
  | cons action actions ih => exact ih (keeps_perform hregister hc action)

end Keeps

/-- **The tables of a catalog stay well-formed whatever is done with it.** -/
theorem wellFormed_after (dataDir : String) (actions : List Action) :
    ((empty dataDir).after actions).WellFormed := by
  have hkept : KeptByRegister fun tables => (Catalog.mk dataDir tables []).WellFormed := by
    intro c d name columns location h hc
    obtain ⟨-, hnodup, htables⟩ := of_register h
    rw [htables]
    refine List.forall_mem_append.2 ⟨hc, List.forall_mem_singleton.2 ⟨hnodup, ?_⟩⟩
    intro column hcolumn
    obtain ⟨n, -, rfl⟩ := List.mem_map.1 hcolumn
    rfl
  exact keeps_after (c := empty dataDir) hkept (fun entry hentry => by cases hentry) actions

theorem mem_of_lookup {β : Type} {entries : List (String × β)} {k : String} {v : β}
    (h : entries.lookup k = some v) : (k, v) ∈ entries := by
  induction entries with
  | nil => cases h
  | cons entry rest ih =>
    obtain ⟨k', v'⟩ := entry
    rw [List.lookup_cons] at h
    split at h
    · next heq =>
      obtain rfl := beq_iff_eq.1 heq
      cases h
      exact List.mem_cons_self ..
    · exact List.mem_cons_of_mem _ (ih h)

/-- Renaming the qualifier keeps apart the columns of one table. -/
theorem nodup_withTable {s : Schema} {table : String} (hnodup : s.columns.Nodup)
    (htable : ∀ column ∈ s.columns, column.table = table) (name : String) :
    (s.withTable name).columns.Nodup := by
  refine hnodup.map_on ?_
  rintro ⟨_, n⟩ hcolumn ⟨_, n'⟩ hcolumn' heq
  rw [Column.mk.injEq]
  exact ⟨(htable _ hcolumn).trans (htable _ hcolumn').symm, (Column.mk.inj heq).2⟩

/-- Sources have distinct columns. -/
theorem nodup_sources (hc : c.WellFormed) {refs : List TableRef} {sources : List Source}
    (hsources : refs.map c.source? = sources.map some) :
    ∀ s ∈ sources, s.schema.columns.Nodup := by
  intro s hs
  obtain ⟨ref, -, hs⟩ := exists_ref_of_mem hsources hs
  obtain ⟨entry, hentry, rfl⟩ := Option.map_eq_some_iff.1 hs
  obtain ⟨hnodup, htable⟩ := hc _ (mem_of_lookup hentry)
  exact nodup_withTable hnodup htable _

end Catalog

end FlatQuery
