import FlatQuery.Proofs.FromList

set_option autoImplicit false

/-! # Planning again

Planning registers aliases, and registered aliases decide what later names stand for. Still the
aliases of a statement do not change the statement's own plan: a name is registered only while no
entry before it has it as a qualifier, so what an entry stands for is not touched by the entries
after it (`lookup_readTables`). Reading a FROM list a second time finds each alias as it left it
(`readTables_again`), whether or not the list was read to its end. -/

namespace FlatQuery

namespace Catalog

/-- Setting a key to the value that it has changes nothing. -/
theorem assign_of_lookup {β : Type} {key : String} {value : β} {entries : List (String × β)}
    (h : entries.lookup key = some value) : assign key value entries = entries := by
  induction entries with
  | nil => cases h
  | cons entry rest ih =>
    obtain ⟨k, v⟩ := entry
    rw [assign]
    by_cases hk : k = key
    · subst hk
      rw [List.lookup_cons_self, Option.some.injEq] at h
      rw [if_pos rfl, h]
    · rw [List.lookup_cons, beq_false_of_ne (Ne.symm hk)] at h
      rw [if_neg hk, ih h]

variable {c d : Catalog} {ref : TableRef} {n : String}

theorem resolve_of_lookup (h : c.aliases.lookup n = d.aliases.lookup n) :
    c.resolve n = d.resolve n := by
  rw [resolve, resolve, h]

/-- An entry changes what the alias map says of its qualifier only. -/
theorem lookup_enter (h : n ≠ ref.qualifier) :
    (c.enter ref).aliases.lookup n = c.aliases.lookup n := by
  obtain ⟨name, «alias»⟩ := ref
  cases «alias» with
  | none => rfl
  | some a => exact (lookup_assign a n name c.aliases).trans (if_neg h)

/-- Entering an entry again changes nothing, as long as the alias map says of its qualifier what it
said when the entry was first entered. -/
theorem enter_again
    (h : d.aliases.lookup ref.qualifier = (c.enter ref).aliases.lookup ref.qualifier) :
    d.enter ref = d := by
  obtain ⟨name, «alias»⟩ := ref
  cases «alias» with
  | none => rfl
  | some a =>
    have ha : d.aliases.lookup a = some name :=
      h.trans ((lookup_assign a a name c.aliases).trans (if_pos rfl))
    show { d with aliases := assign a name d.aliases } = d
    rw [assign_of_lookup ha]

end Catalog

namespace Planner

open Catalog

theorem sameTables_readTables (c : Catalog) (before : List FromTable) (refs : List TableRef) :
    (readTables c before refs).2.SameTables c := by
  induction refs generalizing c before with
  | nil => exact ⟨rfl, rfl⟩
  | cons ref refs ih =>
    rw [readTables_cons]
    split
    · exact ⟨rfl, rfl⟩
    · split
      · exact sameTables_enter c ref
      · exact (ih _ _).trans (sameTables_enter c ref)

/-- **The entries of a FROM list leave the qualifiers before them alone.** -/
theorem lookup_readTables (c : Catalog) {before : List FromTable} (refs : List TableRef)
    {t : FromTable} (ht : t ∈ before) :
    (readTables c before refs).2.aliases.lookup t.qualifier = c.aliases.lookup t.qualifier := by
  induction refs generalizing c before with
  | nil => rfl
  | cons ref refs ih =>
    rw [readTables_cons]
    split
    · rfl
    · next hnew =>
      have hne : t.qualifier ≠ ref.qualifier := by
        intro heq
        exact hnew (List.any_eq_true.2 ⟨t, ht, beq_iff_eq.2 heq⟩)
      split
      · exact lookup_enter hne
      · rw [ih _ (List.mem_append_left _ ht), lookup_enter hne]

/-- **A FROM list that was read before is read alike again**, and nothing is registered anew. -/
theorem readTables_again (c : Catalog) (before : List FromTable) (refs : List TableRef) :
    readTables (readTables c before refs).2 before refs = readTables c before refs := by
  induction refs generalizing c before with
  | nil => rfl
  | cons ref refs ih =>
    rw [readTables_cons c]
    by_cases hdup : before.any (·.qualifier == ref.qualifier)
    · rw [if_pos hdup, readTables_cons, if_pos hdup]
    · rw [if_neg hdup]
      cases hschema : (c.enter ref).schemaFor ref.qualifier with
      | error e =>
        have henter : (c.enter ref).enter ref = c.enter ref := enter_again rfl
        simp only [readTables_cons, if_neg hdup, henter, hschema]
      | ok schema =>
        -- the rest of the list leaves the alias of this entry as it is, so entering it again
        -- changes nothing and finds the same schema
        have hmem : ⟨ref.qualifier, schema⟩ ∈ before ++ [⟨ref.qualifier, schema⟩] :=
          List.mem_append_right _ (List.mem_singleton_self _)
        have hlookup := lookup_readTables (c.enter ref) refs hmem
        have henter := enter_again hlookup
        have hsame := sameTables_readTables (c.enter ref) (before ++ [⟨ref.qualifier, schema⟩]) refs
        have hfound := (schemaFor_congr hsame (resolve_of_lookup hlookup)).trans hschema
        rw [readTables_cons, if_neg hdup, henter, hfound]
        exact ih (c.enter ref) (before ++ [⟨ref.qualifier, schema⟩])

end Planner

/-- **Planning is idempotent on the catalog**: a statement that is planned again, under the catalog
that its planning left, has the same plan or the same error and leaves that catalog as it is. -/
theorem Catalog.plan_again (c : Catalog) (statement : Statement) :
    (c.plan statement).2.plan statement = c.plan statement := by
  cases statement with
  | setOperation op left right => rfl
  | select block =>
    show Planner.planSelect (Planner.planSelect c block).2 block = Planner.planSelect c block
    cases htables : Planner.tablesOf block.fromItems with
    | error e => simp only [Planner.planSelect, htables]
    | ok refs =>
      have hitems := Planner.tablesOf_eq_ok_iff.1 htables
      have hagain := Planner.readTables_again c [] refs
      rcases hread : Planner.readTables c [] refs with ⟨e | «from», d⟩ <;> rw [hread] at hagain
      · simp only [Planner.planSelect_of_refs hitems, hread, hagain]
      · simp only [Planner.planSelect_of_refs hitems, hread, hagain]

end FlatQuery
