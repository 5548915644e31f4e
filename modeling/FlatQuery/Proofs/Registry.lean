import FlatQuery.Proofs.Registration
import FlatQuery.Proofs.Resolution

set_option autoImplicit false

/-! # The registry

What can be relied on in every catalog, whatever was done to get there and whatever of it failed.
Tables are only ever added (`Catalog.prefix_after`), each under a new name (`Catalog.nodup_after`).
The schema of a table says no column twice, and neither does the same schema under the name that is
asked for, so each of its columns is found in its own place (`Schema.indexOf_of_nodup`) and no
reference to it is ambiguous (`Schema.indexOf_ne_ambiguous`). The main result is
`Catalog.reliable_after`. -/

namespace FlatQuery

/-! ## Distinct columns -/

namespace Schema

variable {s : Schema} {i : Nat}

/-- Where no column stands twice, each is found in its own place. -/
theorem indexOf_of_nodup (h : s.columns.Nodup) {column : Column} (hi : s.column? i = some column) :
    s.indexOf (some column.table) column.name = .ok i := by
  have hone : s.Resolves ⟨some column.table, column.name⟩ :=
    List.count_eq_one_of_mem h (List.mem_of_getElem? hi)
  obtain ⟨j, hj⟩ := resolves_iff.1 hone
  -- the first column that answers is at `j`, and no column but the one at `i` answers
  have hfound := column?_of_indexOf hj
  have hisSome : (s.columns.find? (·.answersTo (some column.table) column.name)).isSome :=
    List.find?_isSome.2 ⟨column, List.mem_of_getElem? hi, answersTo_some_iff.2 rfl⟩
  obtain ⟨found, hsome⟩ := Option.isSome_iff_exists.1 hisSome
  have hanswers := List.find?_some hsome
  obtain rfl : found = column := answersTo_some_iff.1 hanswers
  obtain ⟨hlt, -⟩ := List.getElem?_eq_some_iff.1 hi
  obtain rfl : i = j := (List.getElem?_inj hlt h).1 (hi.trans (hfound.trans hsome).symm)
  exact hj

/-- Where no column stands twice, no reference is ambiguous. -/
theorem indexOf_ne_ambiguous (h : s.columns.Nodup) (q : Option String) (n t c : String) :
    s.indexOf q n ≠ .error (.ambiguousColumn t c) := by
  unfold indexOf
  split
  · exact nofun
  · next i j more q' hpositions =>
    have hlength := length_positionsOf_some s q' n
    have hcount := List.nodup_iff_count_le_one.1 h ⟨q', n⟩
    rw [← hlength, hpositions, List.length_cons, List.length_cons] at hcount
    omega
  · exact nofun

end Schema

namespace Catalog

variable {c d : Catalog}

/-! ## Tables stay -/

theorem lookup_of_prefix {β : Type} {before after : List (String × β)} {k : String} {v : β}
    (h : before <+: after) (hv : before.lookup k = some v) : after.lookup k = some v := by
  obtain ⟨added, rfl⟩ := h
  rw [List.lookup_append, hv, Option.some_or]

/-- Whatever is done with a catalog adds tables behind those that it has. -/
theorem prefix_after (c : Catalog) (actions : List Action) :
    c.tables <+: (c.after actions).tables := by
  have hkept : KeptByRegister fun tables => c.tables <+: tables := by
    intro d d' name columns location h hd
    obtain ⟨-, -, htables⟩ := of_register h
    rw [htables]
    exact hd.trans (List.prefix_append ..)
  exact keeps_after hkept (List.prefix_refl _) actions

/-- No name is registered twice. -/
theorem nodup_after (dataDir : String) (actions : List Action) :
    (((empty dataDir).after actions).tables.map Prod.fst).Nodup := by
  have hkept : KeptByRegister fun tables => (tables.map Prod.fst).Nodup := by
    intro d d' name columns location h hd
    obtain ⟨hfresh, -, htables⟩ := of_register h
    have hnew : name ∉ d.tables.map Prod.fst := by
      intro hmem
      obtain ⟨entry, hentry, rfl⟩ := List.mem_map.1 hmem
      exact absurd (List.lookup_eq_none_iff.1 hfresh entry hentry) (by simp)
    rw [htables, List.map_append, List.map_singleton, List.nodup_append_comm, List.singleton_append]
    exact List.nodup_cons.2 ⟨hnew, hd⟩
  exact keeps_after (c := empty dataDir) hkept List.nodup_nil actions

/-! ## Schemas asked for -/

/-- What a schema is like that is asked for by a name. -/
structure Serves (s : Schema) (name : String) : Prop where
  nodup : s.columns.Nodup
  qualified : ∀ column ∈ s.columns, column.table = name
  indexed : ∀ i column, s.column? i = some column → s.indexOf (some name) column.name = .ok i
  unambiguous : ∀ q n t column, s.indexOf q n ≠ .error (.ambiguousColumn t column)

theorem serves_schemaFor (hc : c.WellFormed) {name : String} {s : Schema}
    (h : c.schemaFor name = .ok s) : Serves s name := by
  unfold schemaFor at h
  split at h
  · next entry hentry =>
    cases h
    obtain ⟨hnodup, htable⟩ := hc _ (mem_of_lookup hentry)
    have hdistinct := nodup_withTable hnodup htable name
    have hqualified : ∀ column ∈ (entry.schema.withTable name).columns, column.table = name := by
      intro column hcolumn
      obtain ⟨column, -, rfl⟩ := List.mem_map.1 hcolumn
      rfl
    refine ⟨hdistinct, hqualified, fun i column hi => ?_, Schema.indexOf_ne_ambiguous hdistinct⟩
    have hindex := Schema.indexOf_of_nodup hdistinct hi
    rwa [hqualified column (List.mem_of_getElem? hi)] at hindex
  · cases h

/-- What can be relied on in a catalog. -/
structure Reliable (c : Catalog) : Prop where
  names : (c.tables.map Prod.fst).Nodup
  tables : c.WellFormed
  /-- Whatever is done next, also if it fails, changes and removes no table. -/
  stays : ∀ actions name entry, c.tables.lookup name = some entry →
    (c.after actions).tables.lookup name = some entry
  schemas : ∀ name s, c.schemaFor name = .ok s → Serves s name

/-- **Every catalog is reliable, whatever was done to get there.** Its tables have distinct columns
under their own names and stay as they are; and a schema that it gives for a name, be it that of a
table or an alias, has distinct columns under that name, each of which is found in its own place. -/
theorem reliable_after (dataDir : String) (actions : List Action) :
    ((empty dataDir).after actions).Reliable where
  names := nodup_after dataDir actions
  tables := wellFormed_after dataDir actions
  stays later _ _ := lookup_of_prefix (prefix_after _ later)
  schemas _ _ := serves_schemaFor (wellFormed_after dataDir actions)

/-- A table is registered, and then four actions fail, of which the third one, which loads the lines
`S D` and `V`, adds a table before it does, and the fourth one, a statement, an alias. This alias is
redirected to the first table in the end. -/
def mixedHistory : List Action :=
  [.register "T" ["A", "B"] (some "t"), .register "T" ["C"] none, .register "U" ["A", "A"] none,
    .load (.lines [[83, 32, 68], [86]]), .plan (.select repeatingBlock), .registerAlias "X" "T"]

/-- The first table is as it was registered, also after the line `T C` is loaded, and under its
alias the second column is found in the second place. -/
theorem reliable_after_mixed :
    (((empty "data").after mixedHistory).after
        [.load (.lines [[84, 32, 67]])]).tables.lookup "T" =
          some ⟨.forTable "T" ["A", "B"], some "t"⟩ ∧
      (Schema.forTable "X" ["A", "B"]).indexOf (some "X") "B" = .ok 1 :=
  ⟨(reliable_after "data" mixedHistory).stays _ "T" _ (by decide),
    ((reliable_after "data" mixedHistory).schemas "X" _ (by decide)).indexed 1 ⟨"X", "B"⟩ rfl⟩

end Catalog

end FlatQuery
