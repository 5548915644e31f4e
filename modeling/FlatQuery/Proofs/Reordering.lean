import FlatQuery.Proofs.Acceptance
import FlatQuery.Proofs.ShortCircuit
import Mathlib.Data.Multiset.Sections

set_option autoImplicit false

/-! # FROM lists in another order

Two blocks that differ in the order of their FROM lists have other join trees: their conjuncts stand
elsewhere, and their columns have other positions. If all columns are qualified, none of this can be
seen from outside, except in the order of the rows (`plan_collect_reordered`). A column then has the
same value in every order of a context (`Context.valueOf_perm`), and the contexts of the two lists
are the same up to their order (`choices_filter_map_perm`). -/

namespace FlatQuery

/-! ## Products of reordered lists -/

section Choices

variable {α β : Type} {ls ls' : List (List α)}

/-- A list that is a reordered image is the image of a reordered list. -/
theorem exists_perm_of_perm_map {f : α → β} {xs : List α} {ys : List β} (h : ys.Perm (xs.map f)) :
    ∃ zs : List α, ys = zs.map f ∧ zs.Perm xs := by
  have hcomp : Relation.Comp (· = List.map f ·) List.Perm ys xs := by
    rw [List.eq_map_comp_perm]
    exact h
  exact hcomp

/-- Up to order the choices from some lists are the sections of the library. -/
theorem coe_choices (ls : List (List α)) :
    ((choices ls).map fun cs : List α => (cs : Multiset α) : Multiset (Multiset α)) =
      Multiset.Sections (ls.map fun xs : List α => (xs : Multiset α) : Multiset (Multiset α)) := by
  induction ls with
  | nil => rfl
  | cons xs rest ih =>
    rw [List.map_cons, ← Multiset.cons_coe, Multiset.sections_cons, ← ih, choices]
    simp only [Multiset.map_coe, Multiset.coe_bind, List.map_flatMap, List.map_map]
    rfl

/-- The choices from reordered lists are reordered choices. -/
theorem exists_choices_perm (h : ls.Perm ls') :
    ∃ css, List.Forall₂ List.Perm (choices ls) css ∧ css.Perm (choices ls') := by
  have hsections : ((choices ls).map fun cs : List α => (cs : Multiset α)).Perm
      ((choices ls').map fun cs : List α => (cs : Multiset α)) := by
    rw [← Multiset.coe_eq_coe, coe_choices, coe_choices, Multiset.coe_eq_coe.2 (h.map _)]
  obtain ⟨css, hmap, hperm⟩ := exists_perm_of_perm_map hsections
  refine ⟨css, ?_, hperm⟩
  rw [← List.forall₂_eq_eq_eq, List.forall₂_map_left_iff, List.forall₂_map_right_iff] at hmap
  exact hmap.imp fun cs cs' => Multiset.coe_eq_coe.1

theorem filter_map_congr₂ {R : α → α → Prop} {xs ys : List α} {p : α → Prop} [DecidablePred p]
    {f : α → β} (h : List.Forall₂ R xs ys) (hp : ∀ x ∈ xs, ∀ y, R x y → (p x ↔ p y))
    (hf : ∀ x ∈ xs, ∀ y, R x y → f x = f y) :
    (xs.filter (p ·)).map f = (ys.filter (p ·)).map f := by
  induction h with
  | nil => rfl
  | @cons x y xs ys hxy _ ih =>
    obtain ⟨hpx, hp⟩ := List.forall_mem_cons.1 hp
    obtain ⟨hfx, hf⟩ := List.forall_mem_cons.1 hf
    by_cases hx : p x
    · have hy := (hpx y hxy).1 hx
      rw [List.filter_cons, List.filter_cons, if_pos (decide_eq_true hx),
        if_pos (decide_eq_true hy), List.map_cons, List.map_cons, hfx y hxy, ih hp hf]
    · have hy := mt (hpx y hxy).2 hx
      rw [List.filter_cons, List.filter_cons, if_neg (by simpa using hx),
        if_neg (by simpa using hy), ih hp hf]

/-- What is made of the choices without regard to their order is the same for reordered lists, up to
the order in which it comes. -/
theorem choices_filter_map_perm {p : List α → Prop} [DecidablePred p] {f : List α → β}
    (h : ls.Perm ls') (hp : ∀ cs ∈ choices ls, ∀ cs', cs.Perm cs' → (p cs ↔ p cs'))
    (hf : ∀ cs ∈ choices ls, ∀ cs', cs.Perm cs' → f cs = f cs') :
    (((choices ls).filter (p ·)).map f).Perm (((choices ls').filter (p ·)).map f) := by
  obtain ⟨css, hall, hperm⟩ := exists_choices_perm h
  rw [filter_map_congr₂ hall hp hf]
  exact (hperm.filter _).map f

end Choices

/-! ## Reordered columns -/

namespace Schema

variable {s s' : Schema} {items : List SelectItem}

theorem resolves_perm (h : s.columns.Perm s'.columns) (ref : ColumnRef) :
    s.Resolves ref ↔ s'.Resolves ref := by
  obtain ⟨q, n⟩ := ref
  cases q with
  | some q =>
    show s.columns.count ⟨q, n⟩ = 1 ↔ s'.columns.count ⟨q, n⟩ = 1
    rw [h.count_eq]
  | none =>
    show (∃ column ∈ s.columns, column.name = n) ↔ ∃ column ∈ s'.columns, column.name = n
    simp only [h.mem_iff]

/-- A qualified name is answered by the column of that name only. -/
theorem find?_answersTo_some (s : Schema) (q n : String) :
    s.columns.find? (·.answersTo (some q) n) =
      if (⟨q, n⟩ : Column) ∈ s.columns then some ⟨q, n⟩ else none := by
  split
  · next hmem =>
    cases hfind : s.columns.find? (·.answersTo (some q) n) with
    | some column =>
      have hanswers := List.find?_some hfind
      rw [answersTo_some_iff.1 hanswers]
    | none =>
      have hnone := List.find?_eq_none.1 hfind _ hmem
      exact absurd (answersTo_some_iff.2 rfl) hnone
  · next hmem =>
    rw [List.find?_eq_none]
    intro column hcolumn hanswers
    rw [answersTo_some_iff.1 hanswers] at hcolumn
    exact hmem hcolumn

/-- A SELECT list of qualified columns takes the same columns from reordered ones. -/
theorem projected_perm (h : s.columns.Perm s'.columns)
    (hitems : ∀ item ∈ items, ∃ q n, item = .expr (.column ⟨some q, n⟩)) :
    s.projected items = s'.projected items := by
  refine congrArg Schema.mk (List.flatMap_congr ?_)
  intro item hitem
  obtain ⟨q, n, rfl⟩ := hitems item hitem
  simp only [SelectItem.columns, find?_answersTo_some, h.mem_iff]

/-- A row of a SELECT list depends on the values of its items only. -/
theorem output_congr {t t' : Tuple} (h : ∀ item ∈ items, item.values s t = item.values s' t') :
    s.output items t = s'.output items t' := by
  have hmapM : items.mapM (SelectItem.values s t) = items.mapM (SelectItem.values s' t') := by
    induction items with
    | nil => rfl
    | cons item items ih =>
      obtain ⟨hitem, hrest⟩ := List.forall_mem_cons.1 h
      rw [List.mapM_cons, List.mapM_cons, hitem, ih hrest]
  rw [output, output, hmapM]

end Schema

theorem SelectItem.resolves_perm {s s' : Schema} (h : s.columns.Perm s'.columns)
    (item : SelectItem) : item.Resolves s ↔ item.Resolves s' := by
  match item with
  | .wildcard => exact Iff.rfl
  | .expr (.column ref) => exact Schema.resolves_perm h ref
  | .expr (.literal _) => exact Iff.rfl
  | .expr (.binary ..) => exact Iff.rfl
  | .expr (.nested _) => exact Iff.rfl

/-! ## Reordered contexts -/

theorem Qualified.perm {tables tables' : List FromTable} (hfrom : Qualified tables)
    (h : tables.Perm tables') : Qualified tables' where
  nodup := (h.map _).nodup_iff.1 hfrom.nodup
  columns := fun table htable => hfrom.columns table (h.mem_iff.2 htable)

namespace Context

variable {entries more : List (FromTable × Tuple)} {entry : FromTable × Tuple} {ref : ColumnRef}

/-- Whether all conjuncts are true for the row of a context. -/
def Satisfies (es : List Expr) (entries : List (FromTable × Tuple)) : Prop :=
  ∀ e ∈ es, e.truth (schema entries) (tuple entries) = .ok true

instance (es : List Expr) : DecidablePred (Satisfies es) :=
  fun entries => inferInstanceAs
    (Decidable (∀ e ∈ es, e.truth (schema entries) (tuple entries) = .ok true))

/-- The row that a SELECT list makes of the row of a context. -/
def output (items : List SelectItem) (entries : List (FromTable × Tuple)) : Option Tuple :=
  (schema entries).output items (tuple entries)

theorem Fits.perm (hfits : Fits entries) (h : entries.Perm more) : Fits more :=
  fun entry hentry => hfits entry (h.mem_iff.2 hentry)

/-- A qualified column has a value in one of the entries. -/
theorem exists_entry_valueOf (hfits : Fits entries) (hq : ref.table ≠ none)
    (hresolves : (schema entries).Resolves ref) :
    ∃ entry ∈ entries, ∃ v, entry.1.schema.valueOf entry.2 ref = some v := by
  obtain ⟨q, n⟩ := ref
  cases q with
  | none => exact absurd rfl hq
  | some q =>
    have hone : (schema entries).columns.count ⟨q, n⟩ = 1 := hresolves
    have hmem : (⟨q, n⟩ : Column) ∈ (schema entries).columns := by
      rw [← List.count_pos_iff, hone]
      exact Nat.one_pos
    obtain ⟨s, hs, hcolumn⟩ := List.mem_flatMap.1 hmem
    obtain ⟨entry, hentry, rfl⟩ := List.mem_map.1 hs
    -- the column stands once in the whole context, so it stands once in its entry
    have hsub := (List.singleton_sublist.2 hs).flatMap Schema.columns
    rw [List.flatMap_singleton] at hsub
    have hle : entry.1.schema.columns.count ⟨q, n⟩ ≤ 1 := hone ▸ hsub.count_le _
    have hentryResolves : entry.1.schema.Resolves ⟨some q, n⟩ :=
      Nat.le_antisymm hle (List.count_pos_iff.2 hcolumn)
    obtain ⟨i, hi⟩ := Schema.resolves_iff.1 hentryResolves
    obtain ⟨v, -, hv⟩ := Schema.exists_valueOf (hfits entry hentry) hi
    exact ⟨entry, hentry, v, hv⟩

/-- The value that a qualified column has in an entry it has in the whole context. -/
theorem valueOf_of_entry (hfrom : Qualified (entries.map Prod.fst)) (hfits : Fits entries)
    (hmem : entry ∈ entries) (hq : ref.table ≠ none) {v : Value}
    (h : entry.1.schema.valueOf entry.2 ref = some v) :
    (schema entries).valueOf (tuple entries) ref = some v := by
  obtain ⟨before, after, rfl⟩ := List.append_of_mem hmem
  obtain ⟨q, n⟩ := ref
  cases q with
  | none => exact absurd rfl hq
  | some q =>
    have hqualifier : entry.1.qualifier = q := by
      obtain ⟨i, hi, -⟩ := Schema.valueOf_eq_some_iff.1 h
      obtain ⟨more, hmore, -⟩ := Schema.indexOf_eq_ok_iff.1 hi
      by_contra hne
      rw [hfrom.positionsOf_eq_nil (List.mem_map_of_mem hmem) hne] at hmore
      cases hmore
    -- no other entry has this qualifier, wherever it stands
    have hothers : ∀ other ∈ before ++ after, other.1.schema.positionsOf (some q) n = [] := by
      intro other hother
      have hotherMem : other ∈ before ++ entry :: after := by
        rcases List.mem_append.1 hother with hother | hother
        · exact List.mem_append_left _ hother
        · exact List.mem_append_right _ (List.mem_cons_of_mem _ hother)
      refine hfrom.positionsOf_eq_nil (List.mem_map_of_mem hotherMem) ?_
      rw [List.map_append, List.map_cons] at hfrom
      have hne := hfrom.ne_of_split other.1 (List.map_append ▸ List.mem_map_of_mem hother)
      exact fun heq => hne (heq.trans hqualifier.symm)
    exact valueOf_of_split hfits (fun b hb => hothers b (List.mem_append_left _ hb))
      (fun _ a ha => hothers a (List.mem_append_right _ ha)) h

/-- **A qualified column has the same value in every order of a context.** -/
theorem valueOf_perm (hfrom : Qualified (entries.map Prod.fst)) (hfits : Fits entries)
    (h : entries.Perm more) (hq : ref.table ≠ none) (hresolves : (schema entries).Resolves ref) :
    ∃ v, (schema entries).valueOf (tuple entries) ref = some v ∧
      (schema more).valueOf (tuple more) ref = some v := by
  obtain ⟨entry, hmem, v, hv⟩ := exists_entry_valueOf hfits hq hresolves
  refine ⟨v, valueOf_of_entry hfrom hfits hmem hq hv, ?_⟩
  exact valueOf_of_entry (hfrom.perm (h.map _)) (hfits.perm h) (h.mem_iff.1 hmem) hq hv

theorem satisfies_perm {es : List Expr} (hfrom : Qualified (entries.map Prod.fst))
    (hfits : Fits entries) (h : entries.Perm more)
    (hes : ∀ e ∈ es, ∀ ref ∈ e.columns, ref.table ≠ none ∧ (schema entries).Resolves ref) :
    Satisfies es entries ↔ Satisfies es more := by
  refine forall₂_congr fun e he => ?_
  rw [Expr.truth_congr fun ref href =>
    valueOf_perm hfrom hfits h (hes e he ref href).1 (hes e he ref href).2]

theorem output_perm {items : List SelectItem} (hfrom : Qualified (entries.map Prod.fst))
    (hfits : Fits entries) (h : entries.Perm more)
    (hitems : ∀ item ∈ items, ∃ q n, item = .expr (.column ⟨some q, n⟩))
    (hresolves : ∀ item ∈ items, item.Resolves (schema entries)) :
    output items entries = output items more := by
  refine Schema.output_congr fun item hitem => ?_
  obtain ⟨q, n, rfl⟩ := hitems item hitem
  have hcolumn : (schema entries).Resolves ⟨some q, n⟩ := hresolves _ hitem
  obtain ⟨v, hv, hv'⟩ := valueOf_perm hfrom hfits h (by simp) hcolumn
  rw [SelectItem.values, SelectItem.values, hv, hv']

end Context

/-! ## Contexts of a FROM list -/

/-- One row from each source, with the entry that it belongs to. -/
def contextsOf (rowsOf : Source → List Tuple) (sources : List Source) :
    List (List (FromTable × Tuple)) :=
  choices (sources.map fun s => (rowsOf s).map fun t => (s.fromTable, t))

section Contexts

variable {fs : FileStore} {rowsOf : Source → List Tuple} {sources sources' : List Source}
  {entries : List (FromTable × Tuple)}

/-- Contexts are the choices from the rows, each tuple with its entry. -/
theorem map_zip_choices (rowsOf : Source → List Tuple) (sources : List Source) :
    (choices (sources.map rowsOf)).map ((entriesOf sources).zip ·) =
      contextsOf rowsOf sources := by
  induction sources with
  | nil => rfl
  | cons s sources ih =>
    show ((rowsOf s).flatMap fun t => (choices (sources.map rowsOf)).map (t :: ·)).map _ =
      ((rowsOf s).map fun t => (s.fromTable, t)).flatMap fun entry =>
        (contextsOf rowsOf sources).map (entry :: ·)
    rw [← ih]
    simp only [List.map_flatMap, List.flatMap_map, List.map_map]
    rfl

theorem of_mem_contextsOf (hholds : ∀ s ∈ sources, s.Holds fs (rowsOf s))
    (h : entries ∈ contextsOf rowsOf sources) :
    entries.map Prod.fst = entriesOf sources ∧ Context.Fits entries := by
  have hall := List.forall₂_map_right_iff.1 (mem_choices.1 h)
  clear h
  induction hall with
  | nil => exact ⟨rfl, fun _ hentry => by cases hentry⟩
  | @cons entry s entries sources hentry _ ih =>
    obtain ⟨hs, hholds⟩ := List.forall_mem_cons.1 hholds
    obtain ⟨hfst, hfits⟩ := ih hholds
    obtain ⟨t, ht, rfl⟩ := List.mem_map.1 hentry
    refine ⟨congrArg (s.fromTable :: ·) hfst, List.forall_mem_cons.2 ⟨?_, hfits⟩⟩
    exact hs.length_eq t ht

theorem forall₂_rowsOf (hholds : ∀ s ∈ sources, s.Holds fs (rowsOf s)) :
    List.Forall₂ (Source.Holds fs) sources (sources.map rowsOf) :=
  List.forall₂_map_right_iff.2 (List.forall₂_same.2 hholds)

theorem schema_of_mem_contextsOf (hholds : ∀ s ∈ sources, s.Holds fs (rowsOf s))
    (h : entries ∈ contextsOf rowsOf sources) : Context.schema entries = schemaOf sources := by
  rw [Context.schema_eq_concat, (of_mem_contextsOf hholds h).1, concat_entriesOf]

theorem schemaOf_perm (h : sources.Perm sources') :
    (schemaOf sources).columns.Perm (schemaOf sources').columns :=
  (h.map _).flatMap_right _

end Contexts

/-! ## Reordered blocks -/

/-- Whether two blocks differ only in the order of their FROM lists, and in which of WHERE and the ON
conditions has which conjuncts. -/
structure Select.Reorders (block block' : Select) : Prop where
  fromItems : block.fromItems.Perm block'.fromItems
  conjuncts : ∀ e, e ∈ block.conjuncts ↔ e ∈ block'.conjuncts
  items : block.items = block'.items
  distinct : block.distinct = block'.distinct
  orderBy : block.orderBy = block'.orderBy

/-- Whether the columns of the conditions are qualified, and the SELECT list consists of qualified
columns. The keys of ORDER BY need no qualifier, since they are looked up in the SELECT list. -/
structure Select.ColumnsQualified (block : Select) : Prop where
  conditions : ∀ condition ∈ block.conditions, ∀ ref ∈ condition.columns, ref.table ≠ none
  items : ∀ item ∈ block.items, ∃ q n, item = .expr (.column ⟨some q, n⟩)

section Blocks

variable {c : Catalog} {block block' : Select} {refs refs' : List TableRef}

theorem Select.Reorders.symm (h : block.Reorders block') : block'.Reorders block where
  fromItems := h.fromItems.symm
  conjuncts := fun e => (h.conjuncts e).symm
  items := h.items.symm
  distinct := h.distinct.symm
  orderBy := h.orderBy.symm

theorem Select.Reorders.satisfies_iff (h : block.Reorders block')
    (entries : List (FromTable × Tuple)) :
    Context.Satisfies block.conjuncts entries ↔ Context.Satisfies block'.conjuncts entries := by
  unfold Context.Satisfies
  simp only [h.conjuncts]

theorem Select.Reorders.arranged_eq (h : block.Reorders block') :
    block.arranged = block'.arranged := by
  unfold Select.arranged
  rw [h.distinct, h.orderBy]

theorem Select.ColumnsQualified.reorder (hqualified : block.ColumnsQualified)
    (h : block.Reorders block') : block'.ColumnsQualified where
  conditions := by
    refine Select.forall_columns_iff.2 fun e he => ?_
    exact Select.forall_columns_iff.1 hqualified.conditions e ((h.conjuncts e).2 he)
  items := h.items ▸ hqualified.items

/-- A block is well-formed if a reordered one is. -/
theorem Select.WellFormed.reorder (hqualified : block.ColumnsQualified)
    (h : block.Reorders block') (hblock : block.WellFormed c refs) :
    ∃ refs', block'.WellFormed c refs' := by
  have hitems := h.fromItems.symm
  rw [hblock.tables] at hitems
  obtain ⟨refs', htables, hrefs⟩ := exists_perm_of_perm_map hitems
  have hsources : (c.sources refs).Perm (c.sources refs') := hrefs.symm.filterMap _
  have hcolumns := schemaOf_perm hsources
  refine ⟨refs', htables, ?_, ?_, ?_, ?_, ?_, ?_⟩
  · exact (hrefs.map _).nodup_iff.2 hblock.qualifiers
  · exact fun ref href => hblock.registered ref (hrefs.mem_iff.1 href)
  · have hhas := Select.forall_columns_iff.1 hblock.columns
    refine Select.forall_columns_iff.2 fun e he ref href => ?_
    obtain ⟨table, htable, hhas⟩ := hhas e ((h.conjuncts e).2 he) ref href
    exact ⟨table, (hsources.map _).mem_iff.1 htable, hhas⟩
  · exact fun e he => hblock.comparisons e ((h.conjuncts e).2 he)
  · intro item hitem
    rw [← SelectItem.resolves_perm hcolumns]
    exact hblock.items item (h.items ▸ hitem)
  · rw [← h.items, ← h.orderBy, ← Schema.projected_perm hcolumns hqualified.items]
    exact hblock.keys

/-- What ORDER BY and DISTINCT make of reordered rows. -/
theorem Select.arranged_perm {order : List Nat} {mid mid' : List Tuple} {n : Nat}
    (h : mid.Perm mid') (hlength : ∀ t ∈ mid, t.length = n) (horder : ∀ i < n, i ∈ order) :
    (block.arranged order mid).Perm (block.arranged order mid') ∧
      (block.orderBy ≠ [] ∨ block.distinct = true →
        block.arranged order mid = block.arranged order mid') := by
  have hsorted := sortTuples_eq_of_perm h hlength horder
  unfold Select.arranged
  rw [hsorted]
  split
  · exact ⟨List.Perm.refl _, fun _ => rfl⟩
  · next hdistinct =>
    split
    · next hkeys =>
      refine ⟨h, fun hor => ?_⟩
      rcases hor with hne | htrue
      · exact absurd (List.isEmpty_iff.1 hkeys) hne
      · exact absurd htrue hdistinct
    · exact ⟨List.Perm.refl _, fun _ => rfl⟩

end Blocks

/-! ## Drains of reordered blocks -/

section Drains

variable {c : Catalog} {block block' : Select} {p p' root projected : Plan} {sources : List Source}
  {placed : List Planner.Placed} {positions : List Nat} {fs : FileStore}
  {rowsOf : Source → List Tuple} {rows : List (List Tuple)}

namespace PlannedBlock

theorem entriesOf_ne_nil (h : PlannedBlock c block p sources placed root projected positions) :
    entriesOf sources ≠ [] := by
  obtain ⟨refs, hitems, hsources⟩ := h.from_eq
  exact mt List.map_eq_nil_iff.1 (sources_ne_nil hitems hsources)

theorem mem_inOrder_iff (h : PlannedBlock c block p sources placed root projected positions)
    {e : Expr} : e ∈ Planner.inOrder placed sources.length ↔ e ∈ block.conjuncts := by
  have hmem := Planner.mem_inOrder_length (e := e) h.qualified h.entriesOf_ne_nil h.placed_eq
  rw [entriesOf, List.length_map] at hmem
  exact hmem

/-- The columns of the conjuncts resolve in the columns of the FROM list. -/
theorem resolves_of_mem_conjuncts
    (h : PlannedBlock c block p sources placed root projected positions)
    (hrows : List.Forall₂ (Source.Holds fs) sources rows) :
    ∀ e ∈ block.conjuncts, ∀ ref ∈ e.columns, (schemaOf sources).Resolves ref := by
  intro e he
  have hbinds := (h.ends fs rows hrows).planned.binds e (h.mem_inOrder_iff.2 he)
  rw [concat_entriesOf] at hbinds
  obtain ⟨condition, -, hcondition⟩ := List.mem_flatMap.1 he
  exact ((Expr.binds_iff (Expr.isConjunction_of_mem_conjuncts hcondition)).1 hbinds).2

/-- The items of the SELECT list resolve there as well. -/
theorem resolves_of_mem_items (h : PlannedBlock c block p sources placed root projected positions)
    (hrows : List.Forall₂ (Source.Holds fs) sources rows) :
    ∀ item ∈ block.items, item.Resolves (schemaOf sources) := by
  rw [← h.schema_root hrows]
  exact Plan.exists_projectTo_iff.1 ⟨projected, h.projects⟩

/-- The choices that pass are the contexts that satisfy all conjuncts. -/
theorem passes_iff (h : PlannedBlock c block p sources placed root projected positions)
    (hholds : ∀ s ∈ sources, s.Holds fs (rowsOf s)) {cs : List Tuple}
    (hcs : cs ∈ choices (sources.map rowsOf)) :
    Passes (Expr.verdict (entriesOf sources)) (Planner.inOrder placed sources.length) cs ↔
      Context.Satisfies block.conjuncts ((entriesOf sources).zip cs) := by
  have hlength : cs.length = sources.length := by
    rw [(mem_choices.1 hcs).length_eq, List.length_map]
  have hfits : Context.Fits ((entriesOf sources).zip cs) := by
    rw [← List.take_length (l := sources.map rowsOf)] at hcs
    exact fits_of_mem_choices (forall₂_rowsOf hholds) hcs
  have hverdict : ∀ e ∈ Planner.inOrder placed sources.length,
      e.verdict (entriesOf sources) cs =
        e.truth (Context.schema ((entriesOf sources).zip cs))
          (Context.tuple ((entriesOf sources).zip cs)) := by
    intro e he
    have hwithin := Planner.within_inOrder h.qualified h.placed_eq he
    rw [← hlength] at hwithin
    exact Expr.verdict_of_within h.qualified hfits hwithin
  constructor
  · intro hpass e he
    have hmem := h.mem_inOrder_iff.2 he
    rw [← hverdict e hmem]
    exact hpass e hmem
  · intro hsatisfies e hmem
    rw [hverdict e hmem]
    exact hsatisfies e (h.mem_inOrder_iff.1 hmem)

/-- A drain that succeeds returns the projections of the contexts that satisfy all conjuncts, as the
block arranges them. -/
theorem collect_contexts (h : PlannedBlock c block p sources placed root projected positions)
    (hholds : ∀ s ∈ sources, s.Holds fs (rowsOf s)) {out : List Tuple}
    (hout : (p.collect fs p.start).1 = .ok out) :
    ∃ mid, (∀ t ∈ mid, t.length = projected.schema.length) ∧
      mid.map some =
        ((contextsOf rowsOf sources).filter (Context.Satisfies block.conjuncts)).map
          (Context.output block.items) ∧
      out = block.arranged (projected.schema.sortOrder positions) mid := by
  have hrows := forall₂_rowsOf hholds
  obtain ⟨ts, mid, hts, hmid, hmap, harranged⟩ := (h.collect_eq_ok_iff hrows).1 hout
  refine ⟨mid, h.length_of_mem_projected hrows hmid, ?_, harranged⟩
  have hsieved := (h.ends fs _ hrows).planned.sieved_rows hrows
  rw [hmap, hsieved.rows_eq ts hts, ← map_zip_choices, List.map_map, List.filter_map,
    List.map_map, filter_decide_congr fun cs hcs => h.passes_iff hholds hcs]
  refine List.map_congr_left ?_
  intro cs hcs
  have hlength : (entriesOf sources).length = cs.length := by
    rw [(mem_choices.1 (List.mem_filter.1 hcs).1).length_eq, entriesOf, List.length_map,
      List.length_map]
  show _ = (Context.schema ((entriesOf sources).zip cs)).output block.items
    (Context.tuple ((entriesOf sources).zip cs))
  rw [Context.schema_zip hlength, Context.tuple_zip hlength, concat_entriesOf]
  rfl

variable {root' projected' : Plan} {sources' : List Source} {placed' : List Planner.Placed}
  {positions' : List Nat}

theorem sources_perm (h : PlannedBlock c block p sources placed root projected positions)
    (h' : PlannedBlock c block' p' sources' placed' root' projected' positions')
    (hitems : block.fromItems.Perm block'.fromItems) : sources.Perm sources' := by
  obtain ⟨refs, hrefs, hsources⟩ := h.from_eq
  obtain ⟨refs', hrefs', hsources'⟩ := h'.from_eq
  rw [hrefs, hrefs', List.map_perm_map_iff fun _ _ => FromItem.table.inj] at hitems
  rw [← Catalog.sources_eq_of_map hsources, ← Catalog.sources_eq_of_map hsources']
  exact hitems.filterMap _

/-- The projections of reordered blocks have the same columns. -/
theorem schema_projected_eq (h : PlannedBlock c block p sources placed root projected positions)
    (h' : PlannedBlock c block' p' sources' placed' root' projected' positions')
    (hreorders : block.Reorders block') (hqualified : block.ColumnsQualified)
    (hholds : ∀ s ∈ sources, s.Holds fs (rowsOf s)) : projected.schema = projected'.schema := by
  have hsources := h.sources_perm h' hreorders.fromItems
  have hholds' : ∀ s ∈ sources', s.Holds fs (rowsOf s) :=
    fun s hs => hholds s (hsources.mem_iff.2 hs)
  rw [Plan.schema_projectTo h.projects, Plan.schema_projectTo h'.projects,
    h.schema_root (forall₂_rowsOf hholds), h'.schema_root (forall₂_rowsOf hholds'),
    ← hreorders.items, Schema.projected_perm (schemaOf_perm hsources) hqualified.items]

/-- What contexts of reordered FROM lists project to is the same, up to the order of the rows. -/
theorem contexts_perm (h : PlannedBlock c block p sources placed root projected positions)
    (hsources : sources.Perm sources') (hqualified : block.ColumnsQualified)
    (hholds : ∀ s ∈ sources, s.Holds fs (rowsOf s)) :
    (((contextsOf rowsOf sources).filter (Context.Satisfies block.conjuncts)).map
      (Context.output block.items)).Perm
        (((contextsOf rowsOf sources').filter (Context.Satisfies block.conjuncts)).map
          (Context.output block.items)) := by
  have hrows := forall₂_rowsOf hholds
  have hcontext : ∀ entries ∈ contextsOf rowsOf sources,
      Qualified (entries.map Prod.fst) ∧ Context.Fits entries := by
    intro entries hentries
    obtain ⟨hfst, hfits⟩ := of_mem_contextsOf hholds hentries
    exact ⟨hfst ▸ h.qualified, hfits⟩
  refine choices_filter_map_perm (hsources.map _) ?_ ?_
  · intro entries hentries more hperm
    obtain ⟨hfrom, hfits⟩ := hcontext entries hentries
    refine Context.satisfies_perm hfrom hfits hperm fun e he ref href => ⟨?_, ?_⟩
    · exact Select.forall_columns_iff.1 hqualified.conditions e he ref href
    · rw [schema_of_mem_contextsOf hholds hentries]
      exact h.resolves_of_mem_conjuncts hrows e he ref href
  · intro entries hentries more hperm
    obtain ⟨hfrom, hfits⟩ := hcontext entries hentries
    refine Context.output_perm hfrom hfits hperm hqualified.items ?_
    rw [schema_of_mem_contextsOf hholds hentries]
    exact h.resolves_of_mem_items hrows

end PlannedBlock

/-- Drains of reordered blocks return the same rows, in the same order if the blocks say one. -/
theorem collect_perm (hreorders : block.Reorders block') (hqualified : block.ColumnsQualified)
    (hplan : (c.plan (.select block)).1 = .ok p) (hplan' : (c.plan (.select block')).1 = .ok p')
    (hfiles : ∀ ref s, FromItem.table ref ∈ block.fromItems → c.source? ref = some s →
      ∃ rows, s.Holds fs rows)
    {out out' : List Tuple} (hout : (p.collect fs p.start).1 = .ok out)
    (hout' : (p'.collect fs p'.start).1 = .ok out') :
    out.Perm out' ∧ (block.orderBy ≠ [] ∨ block.distinct = true → out = out') := by
  obtain ⟨sources, placed, root, projected, positions, h⟩ := exists_plannedBlock hplan
  obtain ⟨sources', placed', root', projected', positions', h'⟩ := exists_plannedBlock hplan'
  have hsources := h.sources_perm h' hreorders.fromItems
  have hrows : ∀ s ∈ sources, ∃ rows, s.Holds fs rows := by
    intro s hs
    obtain ⟨refs, hrefs, hmap⟩ := h.from_eq
    obtain ⟨ref, href, hsource⟩ := Catalog.exists_ref_of_mem hmap hs
    exact hfiles ref s (hrefs ▸ List.mem_map_of_mem href) hsource
  -- rows as a function of the source serve both orders at once
  choose! rowsOf hholds using hrows
  obtain ⟨mid, hlength, hmid, rfl⟩ := h.collect_contexts hholds hout
  obtain ⟨mid', -, hmid', rfl⟩ :=
    h'.collect_contexts (fun s hs => hholds s (hsources.mem_iff.2 hs)) hout'
  have hperm : mid.Perm mid' := by
    rw [← List.map_perm_map_iff (Option.some_injective Tuple), hmid, hmid', ← hreorders.items,
      ← filter_decide_congr fun entries _ => hreorders.satisfies_iff entries]
    exact h.contexts_perm hsources hqualified hholds
  have hschema := h.schema_projected_eq h' hreorders hqualified hholds
  obtain rfl : positions = positions' := by
    have hsorts := h'.sorts
    rw [← hreorders.orderBy, ← hschema] at hsorts
    exact Except.ok.inj (h.sorts.symm.trans hsorts)
  rw [← hschema, ← hreorders.arranged_eq]
  exact Select.arranged_perm hperm hlength fun i hi => mem_sortOrder hi

/-- **The order of the FROM list does not matter.** Let two blocks differ only in the order of their
FROM lists, and in which of WHERE and the ON conditions has which conjuncts, and let their columns be
qualified. Then under every catalog that is reached by registering, loading and planning, either both
are planned or none is. If the files of their tables hold rows and both drains succeed, these return
the same rows up to their order, and in the same order under ORDER BY or DISTINCT. -/
theorem plan_collect_reordered (dataDir : String) (actions : List Catalog.Action)
    (hreorders : block.Reorders block') (hqualified : block.ColumnsQualified) :
    ((∃ p, (((Catalog.empty dataDir).after actions).plan (.select block)).1 = .ok p) ↔
        ∃ p', (((Catalog.empty dataDir).after actions).plan (.select block')).1 = .ok p') ∧
      ∀ p p', (((Catalog.empty dataDir).after actions).plan (.select block)).1 = .ok p →
        (((Catalog.empty dataDir).after actions).plan (.select block')).1 = .ok p' →
        ∀ fs, (∀ ref s, FromItem.table ref ∈ block.fromItems →
            ((Catalog.empty dataDir).after actions).source? ref = some s →
              ∃ rows, s.Holds fs rows) →
          ∀ out out', (p.collect fs p.start).1 = .ok out →
            (p'.collect fs p'.start).1 = .ok out' →
              out.Perm out' ∧ (block.orderBy ≠ [] ∨ block.distinct = true → out = out') := by
  have hc := Catalog.wellFormed_after dataDir actions
  refine ⟨?_, fun p p' hplan hplan' fs hfiles out out' hout hout' =>
    collect_perm hreorders hqualified hplan hplan' hfiles hout hout'⟩
  refine (exists_planSelect_iff hc).trans (Iff.trans ?_ (exists_planSelect_iff hc).symm)
  constructor
  · rintro ⟨refs, hblock⟩
    exact hblock.reorder hqualified hreorders
  · rintro ⟨refs, hblock⟩
    exact hblock.reorder (hqualified.reorder hreorders) hreorders.symm

end Drains

/-! ### Two orders of a join -/

/-- The actions that lead to the catalog of `S` and `R`. -/
def pairActions : List Catalog.Action :=
  [.register "S" ["A"] none, .register "R" ["G"] none]

/-- The conjunct `S.A <= R.G`. -/
def atMost : Expr :=
  .binary (.compare .le) (.column ⟨some "S", "A"⟩) (.column ⟨some "R", "G"⟩)

/-- The conjunct `1 < R.G`. -/
def aboveOne : Expr := .binary (.compare .lt) (.literal 1) (.column ⟨some "R", "G"⟩)

/-- The block `SELECT S.A, R.G FROM S, R WHERE S.A <= R.G AND 1 < R.G`. -/
def listedBlock : Select where
  distinct := false
  items := [.expr (.column ⟨some "S", "A"⟩), .expr (.column ⟨some "R", "G"⟩)]
  first := .table ⟨"S", none⟩
  joins := [⟨.table ⟨"R", none⟩, none⟩]
  condition := some (.and atMost aboveOne)
  orderBy := []

/-- The block `SELECT S.A, R.G FROM R JOIN S ON S.A <= R.G WHERE 1 < R.G`. -/
def joinedBlock : Select :=
  { listedBlock with
    first := .table ⟨"R", none⟩
    joins := [⟨.table ⟨"S", none⟩, some atMost⟩]
    condition := some aboveOne }

/-- The scan of `R` with its conjunct, the same in both plans. -/
def aboveOneScan : Plan :=
  .select (.scan "R" "R" ⟨[⟨"R", "G"⟩]⟩ "data/R")
    ⟨aboveOne, .compare .lt (.literal 1) (.column 0 ⟨some "R", "G"⟩)⟩

/-- The plan of the first block. -/
def listedPlan : Plan :=
  .project
    (.join (.scan "S" "S" ⟨[⟨"S", "A"⟩]⟩ "data/S") aboveOneScan
      (some ⟨atMost, .compare .le (.column 0 ⟨some "S", "A"⟩) (.column 1 ⟨some "R", "G"⟩)⟩))
    (some [0, 1])

/-- The plan of the second block. -/
def joinedPlan : Plan :=
  .project
    (.join aboveOneScan (.scan "S" "S" ⟨[⟨"S", "A"⟩]⟩ "data/S")
      (some ⟨atMost, .compare .le (.column 1 ⟨some "S", "A"⟩) (.column 0 ⟨some "R", "G"⟩)⟩))
    (some [1, 0])

/-- The rows come in the order of the outer table. -/
theorem plan_collect_reordered_pair :
    (listedBlock.Reorders joinedBlock ∧ listedBlock.ColumnsQualified) ∧
      (((Catalog.empty "data").after pairActions).plan (.select listedBlock)).1 = .ok listedPlan ∧
      (((Catalog.empty "data").after pairActions).plan (.select joinedBlock)).1 = .ok joinedPlan ∧
      (∀ ref s, FromItem.table ref ∈ listedBlock.fromItems →
        ((Catalog.empty "data").after pairActions).source? ref = some s →
          ∃ rows, s.Holds pairStore rows) ∧
      (listedPlan.collect pairStore listedPlan.start).1 =
        .ok [⟨[1, 2]⟩, ⟨[1, 3]⟩, ⟨[2, 2]⟩, ⟨[2, 3]⟩] ∧
      (joinedPlan.collect pairStore joinedPlan.start).1 =
        .ok [⟨[1, 2]⟩, ⟨[2, 2]⟩, ⟨[1, 3]⟩, ⟨[2, 3]⟩] ∧
      List.Perm ([⟨[1, 2]⟩, ⟨[1, 3]⟩, ⟨[2, 2]⟩, ⟨[2, 3]⟩] : List Tuple)
        [⟨[1, 2]⟩, ⟨[2, 2]⟩, ⟨[1, 3]⟩, ⟨[2, 3]⟩] := by
  have hreorders : listedBlock.Reorders joinedBlock :=
    { fromItems := List.Perm.swap ..
      conjuncts := fun e => by
        show e ∈ [atMost, aboveOne] ↔ e ∈ [aboveOne, atMost]
        rw [List.mem_pair, List.mem_pair]
        exact or_comm
      items := rfl
      distinct := rfl
      orderBy := rfl }
  have hqualified : listedBlock.ColumnsQualified :=
    { conditions := by decide +kernel
      items := by
        intro item hitem
        rcases List.mem_pair.1 hitem with rfl | rfl
        · exact ⟨"S", "A", rfl⟩
        · exact ⟨"R", "G", rfl⟩ }
  have hlisted : (((Catalog.empty "data").after pairActions).plan (.select listedBlock)).1 =
      .ok listedPlan := by decide +kernel
  have hjoined : (((Catalog.empty "data").after pairActions).plan (.select joinedBlock)).1 =
      .ok joinedPlan := by decide +kernel
  have hfiles : ∀ ref s, FromItem.table ref ∈ listedBlock.fromItems →
      ((Catalog.empty "data").after pairActions).source? ref = some s →
        ∃ rows, s.Holds pairStore rows := by
    have hpair := holds_pairStore
    unfold pairSources pairRows at hpair
    obtain ⟨hS, hrest⟩ := List.forall₂_cons.1 hpair
    obtain ⟨hR, -⟩ := List.forall₂_cons.1 hrest
    intro ref s href hs
    rcases List.mem_pair.1 href with href | href
    · cases href
      cases hs
      exact ⟨_, hS⟩
    · cases href
      cases hs
      exact ⟨_, hR⟩
  have hlistedRows : (listedPlan.collect pairStore listedPlan.start).1 =
      .ok [⟨[1, 2]⟩, ⟨[1, 3]⟩, ⟨[2, 2]⟩, ⟨[2, 3]⟩] := by
    rw [Plan.collect_start (by decide +kernel)]
    decide +kernel
  have hjoinedRows : (joinedPlan.collect pairStore joinedPlan.start).1 =
      .ok [⟨[1, 2]⟩, ⟨[2, 2]⟩, ⟨[1, 3]⟩, ⟨[2, 3]⟩] := by
    rw [Plan.collect_start (by decide +kernel)]
    decide +kernel
  obtain ⟨-, hrows⟩ := plan_collect_reordered "data" pairActions hreorders hqualified
  refine ⟨⟨hreorders, hqualified⟩, hlisted, hjoined, hfiles, hlistedRows, hjoinedRows, ?_⟩
  exact (hrows _ _ hlisted hjoined pairStore hfiles _ _ hlistedRows hjoinedRows).1

end FlatQuery
