import FlatQuery.Proofs.Pushdown

set_option autoImplicit false

/-! # Resolution

When names resolve and expressions bind, said without the order in which the planner looks: a
reference resolves in a schema by how many columns answer to it (`Schema.Resolves`), a conjunct
binds if it compares arithmetic expressions whose columns resolve (`Expr.binds_iff`), and a SELECT
list projects a schema if its items resolve (`exists_projectTo_iff`, `schema_projectTo`). -/

namespace FlatQuery

/-! ## References -/

namespace Schema

variable {s : Schema} {ref : ColumnRef} {q : Option String} {n : String} {i : Nat}

/-- Whether a reference resolves: a qualified one is exactly one of the columns, and another one has
the name of at least one. -/
def Resolves (s : Schema) (ref : ColumnRef) : Prop :=
  match ref.table with
  | some t => s.columns.count ⟨t, ref.column⟩ = 1
  | none => ∃ column ∈ s.columns, column.name = ref.column

instance (s : Schema) (ref : ColumnRef) : Decidable (s.Resolves ref) :=
  match ref with
  | ⟨some _, _⟩ => inferInstanceAs (Decidable (_ = _))
  | ⟨none, _⟩ => inferInstanceAs (Decidable (∃ _ ∈ _, _))

theorem length_positionsOf (s : Schema) (q : Option String) (n : String) :
    (s.positionsOf q n).length = s.columns.countP (·.answersTo q n) := by
  have hcolumns : s.columns.zipIdx.map Prod.fst = s.columns := List.zipIdx_map_fst ..
  rw [positionsOf, List.length_map, ← List.countP_eq_length_filter]
  conv_rhs => rw [← hcolumns, List.countP_map]
  rfl

theorem answersTo_some_iff {column : Column} {t : String} :
    column.answersTo (some t) n = true ↔ column = ⟨t, n⟩ := by
  obtain ⟨table, name⟩ := column
  simp only [Column.answersTo, Bool.and_eq_true, beq_iff_eq, Column.mk.injEq]
  exact ⟨fun h => ⟨h.2.symm, h.1⟩, fun h => ⟨h.2, h.1.symm⟩⟩

theorem answersTo_none_iff {column : Column} :
    column.answersTo none n = true ↔ column.name = n := by
  simp [Column.answersTo]

/-- A qualified reference matches the columns that are exactly it. -/
theorem length_positionsOf_some (s : Schema) (t n : String) :
    (s.positionsOf (some t) n).length = s.columns.count ⟨t, n⟩ := by
  rw [length_positionsOf, List.count_eq_countP]
  exact List.countP_congr fun column _ => answersTo_some_iff.trans beq_iff_eq.symm

/-- A reference resolves exactly when it stands for a position. -/
theorem resolves_iff : s.Resolves ref ↔ ∃ i, s.indexOf ref.table ref.column = .ok i := by
  obtain ⟨table, n⟩ := ref
  simp only [indexOf_eq_ok_iff]
  cases table with
  | some t =>
    show s.columns.count ⟨t, n⟩ = 1 ↔ _
    rw [← length_positionsOf_some, List.length_eq_one_iff]
    constructor
    · rintro ⟨i, hi⟩
      exact ⟨i, [], hi, fun _ => rfl⟩
    · rintro ⟨i, more, hi, hmore⟩
      exact ⟨i, by rw [hi, hmore (Option.some_ne_none t)]⟩
  | none =>
    have hmatch : (∃ column ∈ s.columns, column.name = n) ↔ 0 < (s.positionsOf none n).length := by
      rw [length_positionsOf, List.countP_pos_iff]
      simp only [answersTo_none_iff]
    show (∃ column ∈ s.columns, column.name = n) ↔ _
    rw [hmatch]
    constructor
    · intro hpos
      obtain ⟨i, more, hi⟩ := List.exists_cons_of_length_pos hpos
      exact ⟨i, more, hi, fun h => absurd rfl h⟩
    · rintro ⟨i, more, hi, -⟩
      rw [hi]
      exact Nat.succ_pos _

/-- A reference stands for the first column that answers to it. -/
theorem column?_of_indexOf (h : s.indexOf q n = .ok i) :
    s.column? i = s.columns.find? (·.answersTo q n) := by
  obtain ⟨more, hmore, -⟩ := indexOf_eq_ok_iff.1 h
  have hhead : (s.columns.zipIdx.find? fun p => p.1.answersTo q n).map Prod.snd = some i := by
    rw [← List.head?_filter, ← List.head?_map]
    exact congrArg List.head? hmore
  obtain ⟨⟨column, j⟩, hfound, rfl⟩ := Option.map_eq_some_iff.1 hhead
  have hcolumn := List.mem_zipIdx_iff_getElem?.1 (List.mem_of_find?_eq_some hfound)
  have hcolumns : s.columns.zipIdx.map Prod.fst = s.columns := List.zipIdx_map_fst ..
  conv_rhs => rw [← hcolumns, List.find?_map]
  show s.columns[j]? = Option.map Prod.fst (s.columns.zipIdx.find? fun p => p.1.answersTo q n)
  rw [hfound, hcolumn]
  rfl

end Schema

/-- Whether an entry of a FROM list has a column under the reference. -/
def FromTable.Has (table : FromTable) (ref : ColumnRef) : Prop :=
  (∀ q ∈ ref.table, q = table.qualifier) ∧
    ∃ column ∈ table.schema.columns, column.name = ref.column

/-- **A reference has a position exactly when some entry has it.** -/
theorem ColumnRef.exists_position_iff {«from» : List FromTable} {ref : ColumnRef}
    (hfrom : Qualified «from») (hnodup : ∀ table ∈ «from», table.schema.columns.Nodup) :
    (∃ k, ref.position «from» = .ok k) ↔ ∃ table ∈ «from», table.Has ref := by
  obtain ⟨q, n⟩ := ref
  constructor
  · rintro ⟨k, hk⟩
    obtain ⟨before, table, after, rfl, -, hbelongs⟩ := belongsTo_of_position hfrom hk
    have hmem : table ∈ before ++ table :: after :=
      List.mem_append_right _ (List.mem_cons_self ..)
    have hresolves := Schema.resolves_iff.2 hbelongs.indexed
    refine ⟨table, hmem, ?_⟩
    cases q with
    | none => exact ⟨by simp, hresolves⟩
    | some q =>
      have hcolumn : (⟨q, n⟩ : Column) ∈ table.schema.columns := by
        apply List.count_pos_iff.1
        have hone : table.schema.columns.count ⟨q, n⟩ = 1 := hresolves
        rw [hone]
        exact Nat.one_pos
      refine ⟨fun q' hq' => ?_, ⟨q, n⟩, hcolumn, rfl⟩
      obtain rfl := Option.some.inj hq'
      exact hfrom.columns table hmem _ hcolumn
  · rintro ⟨table, htable, hq, column, hcolumn, rfl⟩
    cases q with
    | none =>
      have hsome : («from».findIdx? fun table =>
          !(table.schema.positionsOf none column.name).isEmpty).isSome := by
        rw [List.findIdx?_isSome, List.any_eq_true]
        have hresolves : table.schema.Resolves ⟨none, column.name⟩ := ⟨column, hcolumn, rfl⟩
        obtain ⟨i, hi⟩ := Schema.resolves_iff.1 hresolves
        obtain ⟨more, hmore, -⟩ := Schema.indexOf_eq_ok_iff.1 hi
        exact ⟨table, htable, by rw [hmore]; rfl⟩
      obtain ⟨k, hk⟩ := Option.isSome_iff_exists.1 hsome
      exact ⟨k, by simp only [position, hk]⟩
    | some q =>
      obtain rfl : q = table.qualifier := hq q rfl
      have hsome : («from».zipIdx.find? (·.1.qualifier == table.qualifier)).isSome := by
        rw [List.find?_isSome]
        obtain ⟨k, hk⟩ := List.getElem?_of_mem htable
        exact ⟨(table, k), List.mem_zipIdx_iff_getElem?.2 hk, beq_self_eq_true _⟩
      obtain ⟨⟨found, k⟩, hfound⟩ := Option.isSome_iff_exists.1 hsome
      -- qualifiers are distinct, so the entry that is found is the one that has the column
      have hmem : found ∈ «from» :=
        List.mem_of_getElem? (List.mem_zipIdx_iff_getElem?.1 (List.mem_of_find?_eq_some hfound))
      have hqualifier : found.qualifier = table.qualifier := by
        simpa using List.find?_some hfound
      obtain rfl : found = table := List.inj_on_of_nodup_map hfrom.nodup hmem htable hqualifier
      have hone : found.schema.Resolves ⟨some found.qualifier, column.name⟩ := by
        have hself : column = ⟨found.qualifier, column.name⟩ := by
          rw [← hfrom.columns found htable column hcolumn]
        exact List.count_eq_one_of_mem (hnodup found htable) (hself ▸ hcolumn)
      obtain ⟨i, hi⟩ := Schema.resolves_iff.1 hone
      refine ⟨k, ?_⟩
      simp only [position, hfound]
      exact bind_eq_ok_iff.2 ⟨i, hi, rfl⟩

/-! ## Expressions -/

namespace Expr

variable {s : Schema} {e : Expr} {ref : ColumnRef}

/-- Whether an expression is made of columns, literals and arithmetic operations. -/
def IsArithmetic : Expr → Prop
  | column _ => True
  | literal _ => True
  | binary (.arithmetic _) left right => left.IsArithmetic ∧ right.IsArithmetic
  | binary _ _ _ => False
  | nested inner => inner.IsArithmetic

/-- Whether an expression is, under any parentheses, a comparison of arithmetic expressions. -/
def IsComparison : Expr → Prop
  | binary (.compare _) left right => left.IsArithmetic ∧ right.IsArithmetic
  | nested inner => inner.IsComparison
  | _ => False

theorem exists_bind_iff_isArithmetic :
    (∃ b, BoundExpr.bind s e = .ok b) ↔ e.IsArithmetic ∧ ∀ ref ∈ e.columns, s.Resolves ref := by
  induction e with
  | column ref =>
    unfold BoundExpr.bind
    simp only [exists_bind_iff, IsArithmetic, columns, List.mem_singleton, forall_eq, true_and,
      Schema.resolves_iff]
    constructor
    · rintro ⟨i, hi, -⟩
      exact ⟨i, hi⟩
    · rintro ⟨i, hi⟩
      exact ⟨i, hi, _, rfl⟩
  | literal value =>
    refine iff_of_true ⟨_, rfl⟩ ⟨trivial, ?_⟩
    intro ref href
    cases href
  | nested inner ih =>
    unfold BoundExpr.bind
    rw [exists_bind_iff]
    constructor
    · rintro ⟨b, hb, -⟩
      exact ih.1 ⟨b, hb⟩
    · intro h
      obtain ⟨b, hb⟩ := ih.2 h
      exact ⟨b, hb, _, rfl⟩
  | binary op left right ihl ihr =>
    cases op with
    | arithmetic op =>
      unfold BoundExpr.bind
      rw [exists_bind_iff, columns, List.forall_mem_append]
      constructor
      · rintro ⟨l, hl, h⟩
        obtain ⟨r, hr, -⟩ := exists_bind_iff.1 h
        obtain ⟨hleft, hleftRefs⟩ := ihl.1 ⟨l, hl⟩
        obtain ⟨hright, hrightRefs⟩ := ihr.1 ⟨r, hr⟩
        exact ⟨⟨hleft, hright⟩, hleftRefs, hrightRefs⟩
      · rintro ⟨⟨hleft, hright⟩, hleftRefs, hrightRefs⟩
        obtain ⟨l, hl⟩ := ihl.2 ⟨hleft, hleftRefs⟩
        obtain ⟨r, hr⟩ := ihr.2 ⟨hright, hrightRefs⟩
        exact ⟨l, hl, exists_bind_iff.2 ⟨r, hr, _, rfl⟩⟩
    | compare op =>
      constructor
      · rintro ⟨b, hb⟩
        cases hb
      · rintro ⟨h, -⟩
        cases h
    | and =>
      constructor
      · rintro ⟨b, hb⟩
        cases hb
      · rintro ⟨h, -⟩
        cases h

/-- **What is no conjunction binds exactly if it compares arithmetic expressions** and its columns
resolve. -/
theorem binds_iff (h : e.isConjunction = false) :
    e.Binds s ↔ e.IsComparison ∧ ∀ ref ∈ e.columns, s.Resolves ref := by
  induction e with
  | column ref =>
    constructor
    · rintro ⟨b, hb⟩
      cases hb
    · rintro ⟨h, -⟩
      cases h
  | literal value =>
    constructor
    · rintro ⟨b, hb⟩
      cases hb
    · rintro ⟨h, -⟩
      cases h
  | nested inner ih =>
    unfold Binds BoundPredicate.bind
    exact ih h
  | binary op left right ihl ihr =>
    cases op with
    | compare op =>
      unfold Binds BoundPredicate.bind
      rw [exists_bind_iff, columns, List.forall_mem_append]
      constructor
      · rintro ⟨l, hl, h⟩
        obtain ⟨r, hr, -⟩ := exists_bind_iff.1 h
        obtain ⟨hleft, hleftRefs⟩ := exists_bind_iff_isArithmetic.1 ⟨l, hl⟩
        obtain ⟨hright, hrightRefs⟩ := exists_bind_iff_isArithmetic.1 ⟨r, hr⟩
        exact ⟨⟨hleft, hright⟩, hleftRefs, hrightRefs⟩
      · rintro ⟨⟨hleft, hright⟩, hleftRefs, hrightRefs⟩
        obtain ⟨l, hl⟩ := exists_bind_iff_isArithmetic.2 ⟨hleft, hleftRefs⟩
        obtain ⟨r, hr⟩ := exists_bind_iff_isArithmetic.2 ⟨hright, hrightRefs⟩
        exact ⟨l, hl, exists_bind_iff.2 ⟨r, hr, _, rfl⟩⟩
    | and => cases h
    | arithmetic op =>
      constructor
      · rintro ⟨b, hb⟩
        cases hb
      · rintro ⟨h, -⟩
        cases h

/-! ### Conjuncts -/

theorem isConjunction_of_mem_conjuncts {e' : Expr} (h : e' ∈ e.conjuncts) :
    e'.isConjunction = false := by
  induction e with
  | column ref =>
    obtain rfl := List.mem_singleton.1 h
    rfl
  | literal value =>
    obtain rfl := List.mem_singleton.1 h
    rfl
  | binary op left right ihl ihr =>
    cases op with
    | and => exact (List.mem_append.1 h).elim ihl ihr
    | compare op =>
      obtain rfl := List.mem_singleton.1 h
      rfl
    | arithmetic op =>
      obtain rfl := List.mem_singleton.1 h
      rfl
  | nested inner ih =>
    unfold conjuncts at h
    split at h
    · exact ih h
    · next hinner =>
      obtain rfl := List.mem_singleton.1 h
      exact Bool.eq_false_iff.2 hinner

/-- The columns of a condition are those of its conjuncts. -/
theorem columns_conjuncts (e : Expr) : e.conjuncts.flatMap columns = e.columns := by
  induction e with
  | column ref => rfl
  | literal value => rfl
  | binary op left right ihl ihr =>
    cases op with
    | and => rw [conjuncts, List.flatMap_append, ihl, ihr, columns]
    | compare op => exact List.flatMap_singleton columns _
    | arithmetic op => exact List.flatMap_singleton columns _
  | nested inner ih =>
    unfold conjuncts
    split
    · exact ih
    · exact List.flatMap_singleton columns _

end Expr

/-! ## SELECT lists -/

/-- Whether an item of a SELECT list is a wildcard or a reference that resolves. -/
def SelectItem.Resolves (s : Schema) : SelectItem → Prop
  | wildcard => True
  | expr (.column ref) => s.Resolves ref
  | expr _ => False

/-- The columns of an item of a SELECT list: all columns, or the first that answers to a
reference. -/
def SelectItem.columns (s : Schema) : SelectItem → List Column
  | wildcard => s.columns
  | expr (.column ref) => (s.columns.find? (·.answersTo ref.table ref.column)).toList
  | expr _ => []

/-- The columns of a SELECT list over a schema. -/
def Schema.projected (s : Schema) (items : List SelectItem) : Schema :=
  ⟨items.flatMap (SelectItem.columns s)⟩

namespace Plan

variable {s : Schema} {item : SelectItem} {items : List SelectItem} {positions : List Nat}
  {p q : Plan} {keys : List ColumnRef}

theorem exists_positionsOfItem_iff :
    (∃ positions, positionsOfItem s item = .ok positions) ↔ item.Resolves s := by
  match item with
  | .wildcard => exact ⟨fun _ => trivial, fun _ => ⟨_, rfl⟩⟩
  | .expr (.column ref) =>
    unfold positionsOfItem
    simp only [exists_bind_iff, SelectItem.Resolves, Schema.resolves_iff]
    exact ⟨fun ⟨i, hi, _⟩ => ⟨i, hi⟩, fun ⟨i, hi⟩ => ⟨i, hi, _, rfl⟩⟩
  | .expr (.literal _) => exact ⟨fun ⟨_, h⟩ => (by cases h), fun h => (by cases h)⟩
  | .expr (.binary ..) => exact ⟨fun ⟨_, h⟩ => (by cases h), fun h => (by cases h)⟩
  | .expr (.nested _) => exact ⟨fun ⟨_, h⟩ => (by cases h), fun h => (by cases h)⟩

/-- The columns at the positions of an item are its columns. -/
theorem filterMap_positionsOfItem (h : positionsOfItem s item = .ok positions) :
    positions.filterMap s.column? = item.columns s := by
  unfold positionsOfItem at h
  split at h
  · cases h
    exact Context.filterMap_range_getElem? s.columns (Nat.le_refl _)
  · obtain ⟨i, hi, h⟩ := bind_eq_ok_iff.1 h
    cases h
    rw [SelectItem.columns, ← Schema.column?_of_indexOf hi, List.filterMap_cons]
    cases s.column? i <;> rfl
  · cases h

theorem exists_projectTo_iff :
    (∃ q, p.projectTo items = .ok q) ↔ ∀ item ∈ items, item.Resolves p.schema := by
  unfold projectTo
  split
  · exact ⟨fun _ => by simp [SelectItem.Resolves], fun _ => ⟨_, rfl⟩⟩
  · simp only [← exists_positionsOfItem_iff]
    rw [exists_bind_iff, ← exists_mapM_iff]
    exact ⟨fun ⟨pss, hpss, _⟩ => ⟨pss, hpss⟩, fun ⟨pss, hpss⟩ => ⟨pss, hpss, _, rfl⟩⟩

theorem filterMap_flatten {pss : List (List Nat)}
    (h : List.Forall₂ (fun item positions => positionsOfItem s item = .ok positions) items pss) :
    pss.flatten.filterMap s.column? = items.flatMap (SelectItem.columns s) := by
  induction h with
  | nil => rfl
  | cons hitem _ ih =>
    rw [List.flatten_cons, List.filterMap_append, List.flatMap_cons, ih,
      filterMap_positionsOfItem hitem]

/-- A projection has the columns of its SELECT list. -/
theorem schema_projectTo (h : p.projectTo items = .ok q) :
    q.schema = p.schema.projected items := by
  unfold projectTo at h
  split at h
  · cases h
    exact congrArg Schema.mk (List.append_nil p.schema.columns).symm
  · obtain ⟨pss, hpss, h⟩ := bind_eq_ok_iff.1 h
    cases h
    exact congrArg Schema.mk (filterMap_flatten (mapM_eq_ok_iff.1 hpss))

theorem exists_sortBy_iff :
    (∃ q, p.sortBy keys = .ok q) ↔ ∀ key ∈ keys, p.schema.Resolves key := by
  unfold sortBy
  simp only [Schema.resolves_iff]
  rw [exists_bind_iff, ← exists_mapM_iff]
  exact ⟨fun ⟨is, his, _⟩ => ⟨is, his⟩, fun ⟨is, his⟩ => ⟨is, his, _, rfl⟩⟩

end Plan

end FlatQuery
