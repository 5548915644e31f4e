import FlatQuery.Proofs.Results
import FlatQuery.Sql.Reading

set_option autoImplicit false

/-! # Clauses

Which query texts become statements. A query tree is `Closed` if it holds nothing but what a
statement can say. Lowering looks at less: it passes over some clauses and options, and `Query.kept`
is the tree without them. A text is read if what is kept of its tree is closed, and otherwise some
feature of it is refused (`read_query`). So a text with a clause that is passed over is read as if
the clause were not there, unless something else in it is refused. -/

namespace FlatQuery.Sql

/-! ## Refusals -/

/-- Whether a computation succeeds exactly under some condition, and otherwise refuses a feature. -/
structure Admits {α : Type} (x : Except Error α) (P : Prop) : Prop where
  accepts : P → ∃ a, x = .ok a
  refuses : ¬ P → ∃ feature, x = .error (.unsupported feature)

namespace Admits

variable {α β : Type} {x : Except Error α} {f : α → Except Error β} {P Q : Prop}

theorem accepted (a : α) : Admits (.ok a) True := ⟨fun _ => ⟨a, rfl⟩, fun h => absurd trivial h⟩

theorem refused (feature : String) : Admits (.error (.unsupported feature) : Except Error α) False :=
  ⟨False.elim, fun _ => ⟨feature, rfl⟩⟩

theorem congr (h : Admits x P) (hPQ : P ↔ Q) : Admits x Q :=
  ⟨fun hq => h.accepts (hPQ.2 hq), fun hq => h.refuses (mt hPQ.1 hq)⟩

theorem holds {a : α} (h : Admits x P) (hx : x = .ok a) : P := by
  by_contra hP
  obtain ⟨feature, hfeature⟩ := h.refuses hP
  rw [hx] at hfeature
  cases hfeature

/-- A computation followed by another succeeds if both do. -/
theorem bind (h : Admits x P) (hf : ∀ a, x = .ok a → Admits (f a) Q) :
    Admits (x >>= f) (P ∧ Q) := by
  constructor
  · rintro ⟨hp, hq⟩
    obtain ⟨a, ha⟩ := h.accepts hp
    obtain ⟨b, hb⟩ := (hf a ha).accepts hq
    exact ⟨b, bind_eq_ok_iff.2 ⟨a, ha, hb⟩⟩
  · intro hnot
    by_cases hp : P
    · obtain ⟨a, ha⟩ := h.accepts hp
      rw [ha]
      exact (hf a ha).refuses fun hq => hnot ⟨hp, hq⟩
    · obtain ⟨feature, hx⟩ := h.refuses hp
      rw [hx]
      exact ⟨feature, rfl⟩

/-- A computation whose result is only rebuilt succeeds if it does. -/
theorem then_ok (h : Admits x P) (f : α → β) : Admits (x >>= fun a => .ok (f a)) P :=
  (h.bind fun a _ => accepted (f a)).congr (and_iff_left trivial)

theorem map (h : Admits x P) (f : α → β) : Admits (f <$> x) P := by
  have hmap : f <$> x = x >>= fun a => .ok (f a) := by cases x <;> rfl
  rw [hmap]
  exact h.then_ok f

/-- A computation in front of which a feature may be refused. -/
theorem guarded {refusal : Option Error} (hrefusal : ∀ e ∈ refusal, ∃ feature, e = .unsupported feature)
    (h : Admits x P) :
    Admits (match refusal with | some e => .error e | none => x) (refusal = none ∧ P) := by
  cases refusal with
  | none => exact h.congr (by simp)
  | some e =>
    obtain ⟨feature, rfl⟩ := hrefusal e rfl
    exact (refused feature).congr (by simp)

theorem mapM {f : α → Except Error β} {P : α → Prop} {xs : List α}
    (h : ∀ x ∈ xs, Admits (f x) (P x)) : Admits (xs.mapM f) (∀ x ∈ xs, P x) := by
  induction xs with
  | nil => exact (accepted []).congr (by simp)
  | cons x xs ih =>
    obtain ⟨hx, hxs⟩ := List.forall_mem_cons.1 h
    rw [List.mapM_cons]
    refine (hx.bind fun y _ => (ih hxs).then_ok (y :: ·)).congr ?_
    rw [List.forall_mem_cons]

end Admits

/-! ## Terms -/

/-- Whether a literal is an integer of the engine, with or without a minus in front. -/
def Literal.Closed (negative : Bool) : Literal → Prop
  | number digits _ => (Value.read? (textIf negative "-" ++ digits).toList).isSome
  | spelled _ => False

/-- Whether a name has one part or two. -/
def ColumnName (parts : List Name) : Prop := parts.length = 1 ∨ parts.length = 2

/-- Whether a term is made of columns, integers, parentheses, signs and the operators of
expressions. -/
def Term.Closed : Term → Prop
  | name parts => ColumnName parts
  | literal value => value.Closed false
  | nested inner => inner.Closed
  | unary .minus (literal value) => value.Closed true
  | unary .minus operand => operand.Closed
  | unary .plus operand => operand.Closed
  | unary .not _ => False
  | unary .factorial _ => False
  | operation (.binary _) left right => left.Closed ∧ right.Closed
  | operation .or _ _ => False
  | operation (.other _) _ _ => False
  | call _ _ => False
  | subquery _ => False
  | other _ => False

/-- Whether a term is a column, with or without a plus in front. -/
def Term.IsColumn : Term → Prop
  | name parts => ColumnName parts
  | unary .plus operand => operand.IsColumn
  | _ => False

/-- Whether rows are ordered by a column, ascending. -/
structure SortTerm.Closed (s : SortTerm) : Prop where
  column : s.term.IsColumn
  ascending : s.ascending ≠ some false
  nullsFirst : s.nullsFirst = none

theorem admits_lowerNumber (negative : Bool) (digits : String) :
    Admits (lowerNumber negative digits)
      (Value.read? (textIf negative "-" ++ digits).toList).isSome := by
  unfold lowerNumber
  cases hvalue : Value.read? (textIf negative "-" ++ digits).toList with
  | some value => simpa only [hvalue] using (Admits.accepted _).congr (by simp)
  | none => simpa only [hvalue] using (Admits.refused _).congr (by simp)

theorem admits_literal (negative : Bool) (value : Literal) :
    Admits (value.lower negative) (value.Closed negative) := by
  cases value with
  | number digits long => exact admits_lowerNumber negative digits
  | spelled normal => exact Admits.refused _

theorem admits_lowerName (parts : List Name) : Admits (lowerName parts) (ColumnName parts) := by
  match parts with
  | [] => exact (Admits.refused _).congr (by simp [ColumnName])
  | [_] => exact (Admits.accepted _).congr (by simp [ColumnName])
  | [_, _] => exact (Admits.accepted _).congr (by simp [ColumnName])
  | _ :: _ :: _ :: _ => exact (Admits.refused _).congr (by simp [ColumnName])

theorem admits_term (t : Term) : Admits t.lower t.Closed := by
  fun_induction Term.lower t with
  | case1 parts => exact admits_lowerName parts
  | case2 value => exact admits_literal false value
  | case3 inner ih => exact ih.then_ok _
  | case4 value => exact admits_literal true value
  | case5 operand hnumber ih =>
    -- the minus belongs to a literal only
    have hclosed : (Term.unary .minus operand).Closed ↔ operand.Closed := by
      cases operand with
      | literal value => exact absurd rfl (hnumber value)
      | _ => rfl
    exact (ih.then_ok _).congr hclosed.symm
  | case6 operand ih => exact ih
  | case7 operand => exact Admits.refused _
  | case8 operand => exact Admits.refused _
  | case9 op left right ihl ihr => exact ihl.bind fun l _ => ihr.then_ok _
  | case10 left right => exact Admits.refused _
  | case11 symbol left right => exact Admits.refused _
  | case12 function normal => exact Admits.refused _
  | case13 normal => exact Admits.refused _
  | case14 normal => exact Admits.refused _

theorem lowerNumber_eq_ok {negative : Bool} {digits : String} {e : Expr}
    (h : lowerNumber negative digits = .ok e) :
    ∃ v, Value.read? (textIf negative "-" ++ digits).toList = some v ∧ e = .literal v := by
  unfold lowerNumber at h
  simp only at h
  split at h
  · next v hv =>
    cases h
    exact ⟨v, hv, rfl⟩
  · cases h

theorem literal_eq_ok {negative : Bool} {value : Literal} {e : Expr}
    (h : value.lower negative = .ok e) : ∃ v, e = .literal v := by
  cases value with
  | number digits long =>
    obtain ⟨v, -, he⟩ := lowerNumber_eq_ok h
    exact ⟨v, he⟩
  | spelled normal => cases h

/-- A term stands for a column exactly if it is one. -/
theorem isColumn_iff {t : Term} {e : Expr} (h : t.lower = .ok e) :
    t.IsColumn ↔ ∃ ref, e = .column ref := by
  fun_induction Term.lower t generalizing e with
  | case1 parts =>
    refine ⟨fun _ => ?_, fun _ => (admits_lowerName parts).holds h⟩
    unfold lowerName at h
    split at h <;> cases h
    · exact ⟨_, rfl⟩
    · exact ⟨_, rfl⟩
  | case2 value =>
    obtain ⟨v, rfl⟩ := literal_eq_ok h
    exact ⟨False.elim, fun ⟨_, hcolumn⟩ => by cases hcolumn⟩
  | case3 inner ih =>
    obtain ⟨e', -, h⟩ := bind_eq_ok_iff.1 h
    cases h
    exact ⟨False.elim, fun ⟨_, hcolumn⟩ => by cases hcolumn⟩
  | case4 value =>
    obtain ⟨v, rfl⟩ := literal_eq_ok h
    exact ⟨False.elim, fun ⟨_, hcolumn⟩ => by cases hcolumn⟩
  | case5 operand hnumber ih =>
    obtain ⟨e', -, h⟩ := bind_eq_ok_iff.1 h
    cases h
    exact ⟨False.elim, fun ⟨_, hcolumn⟩ => by cases hcolumn⟩
  | case6 operand ih => exact ih h
  | case9 op left right ihl ihr =>
    obtain ⟨l, -, h⟩ := bind_eq_ok_iff.1 h
    obtain ⟨r, -, h⟩ := bind_eq_ok_iff.1 h
    cases h
    exact ⟨False.elim, fun ⟨_, hcolumn⟩ => by cases hcolumn⟩
  | _ => cases h

theorem Term.IsColumn.closed {t : Term} (h : t.IsColumn) : t.Closed := by
  fun_induction Term.IsColumn t with
  | case1 parts => exact h
  | case2 operand ih => exact ih h
  | case3 t hname hplus => cases h

theorem admits_sortTerm (s : SortTerm) : Admits s.lower s.Closed := by
  unfold SortTerm.lower
  by_cases hdescending : s.ascending = some false
  · rw [if_pos hdescending]
    exact (Admits.refused _).congr ⟨False.elim, fun hs => hs.ascending hdescending⟩
  · by_cases hnulls : s.nullsFirst.isSome
    · rw [if_neg hdescending, if_pos hnulls]
      refine (Admits.refused _).congr ⟨False.elim, fun hs => ?_⟩
      rw [hs.nullsFirst] at hnulls
      cases hnulls
    · rw [if_neg hdescending, if_neg hnulls]
      refine (Admits.bind (Q := s.term.IsColumn) (admits_term s.term) fun e he => ?_).congr ?_
      · have hiff := isColumn_iff he
        cases e with
        | column ref => exact (Admits.accepted ref).congr (iff_of_true trivial (hiff.2 ⟨ref, rfl⟩))
        | literal _ | binary _ _ _ | nested _ =>
          refine (Admits.refused _).congr (iff_of_false id fun h => ?_)
          obtain ⟨ref, href⟩ := hiff.1 h
          cases href
      · constructor
        · rintro ⟨-, hcolumn⟩
          exact ⟨hcolumn, hdescending, Option.not_isSome_iff_eq_none.1 hnulls⟩
        · intro hs
          exact ⟨hs.column.closed, hs.column⟩

/-! ## Items, tables and joins -/

/-- An item of a SELECT list without the options of a wildcard. -/
def Item.kept : Item → Item
  | wildcard _ => wildcard ""
  | item => item

/-- Whether an item of a SELECT list is a plain wildcard or a term without an alias. -/
def Item.Closed : Item → Prop
  | wildcard options => options = ""
  | term t => t.Closed
  | aliased _ _ => False
  | qualifiedWildcard _ _ => False

/-- An alias without names for columns. -/
def TableAlias.kept (a : TableAlias) : TableAlias := ⟨a.name, []⟩

/-- Whether an alias, if there is one, does not name columns. -/
def PlainAlias (alias_ : Option TableAlias) : Prop := ∀ a ∈ alias_, a.columns = []

/-- Whether a join is a cross join or an inner join, with a condition under ON if with any. -/
def JoinOperator.Closed : JoinOperator → Prop
  | cross => True
  | conditional .inner .none => True
  | conditional .inner (.on term) => term.Closed
  | _ => False

theorem admits_item (item : Item) : Admits item.lower item.kept.Closed := by
  cases item with
  | wildcard options => exact (Admits.accepted _).congr (iff_of_true trivial rfl)
  | term t => exact (admits_term t).then_ok _
  | aliased t label => exact Admits.refused _
  | qualifiedWildcard qualifier options => exact Admits.refused _

theorem admits_lowerTable (table : List Name) (alias_ : Option TableAlias) :
    Admits (lowerTable table alias_) (table.length = 1 ∧ PlainAlias alias_) := by
  match table, alias_ with
  | [name], none => exact (Admits.accepted _).congr (by simp [PlainAlias])
  | [name], some ⟨label, []⟩ => exact (Admits.accepted _).congr (by simp [PlainAlias])
  | [name], some ⟨label, _ :: _⟩ => exact (Admits.refused _).congr (by simp [PlainAlias])
  | [], _ => exact (Admits.refused _).congr (by simp)
  | _ :: _ :: _, _ => exact (Admits.refused _).congr (by simp)

theorem admits_joinOperator (operator : JoinOperator) : Admits operator.lower operator.Closed := by
  match operator with
  | .cross => exact Admits.accepted _
  | .conditional .inner .none => exact Admits.accepted _
  | .conditional .inner (.on t) => exact (admits_term t).map some
  | .conditional .inner (.shared _) => exact Admits.refused _
  | .conditional .inner .natural => exact Admits.refused _
  | .conditional .left _ => exact Admits.refused _
  | .conditional .right _ => exact Admits.refused _
  | .conditional .full _ => exact Admits.refused _
  | .conditional .leftSemi _ => exact Admits.refused _
  | .conditional .rightSemi _ => exact Admits.refused _
  | .conditional .leftAnti _ => exact Admits.refused _
  | .conditional .rightAnti _ => exact Admits.refused _
  | .crossApply => exact Admits.refused _
  | .outerApply => exact Admits.refused _

/-! ## Queries -/

mutual

/-- Whether a body is one block, in any number of parentheses. -/
def Body.IsBlock : Body → Prop
  | .block _ => True
  | .query q => q.IsBlock
  | .setOperation _ _ _ _ => False
  | .values _ => False
  | .other _ => False

/-- Whether a query is one block. -/
def Query.IsBlock : Query → Prop
  | ⟨_, body, _, _, _, _, _, _, _⟩ => body.IsBlock

end

mutual

/-- Whether an entry of a FROM list is a table or a derived table, with an alias at most. -/
def Factor.Closed : Factor → Prop
  | .table name partitions arguments alias_ hints =>
    (name.length = 1 ∧ PlainAlias alias_) ∧ partitions = [] ∧ arguments = none ∧ hints = []
  | .derived lateral query alias_ => query.Closed ∧ lateral = false ∧ PlainAlias alias_
  | .joined _ _ => False
  | .other _ _ _ => False

/-- Whether a join can be said by a statement. -/
def Join.Closed : Join → Prop
  | ⟨operator, factor⟩ => factor.Closed ∧ operator.Closed

/-- Whether all joins can. -/
def Join.AllClosed : List Join → Prop
  | [] => True
  | j :: js => j.Closed ∧ Join.AllClosed js

/-- Whether an element of a FROM list can be said by a statement. -/
def Source.Closed : Source → Prop
  | ⟨factor, joins⟩ => factor.Closed ∧ Join.AllClosed joins

/-- Whether all elements can. -/
def Source.AllClosed : List Source → Prop
  | [] => True
  | s :: ss => s.Closed ∧ Source.AllClosed ss

/-- Whether a block has DISTINCT, a SELECT list, a FROM list and a WHERE condition, all of them as a
statement has them, and nothing else. -/
def Block.Closed : Block → Prop
  | ⟨distinct, top, items, into, sources, lateralViews, condition, groupBy, clusterBy,
      distributeBy, sortBy, having, windows, qualify⟩ =>
    (distinct = none ∨ distinct = some .rows) ∧ top = none ∧ into = none ∧ groupBy = none ∧
      having = none ∧ lateralViews = [] ∧ clusterBy = none ∧ distributeBy = none ∧ sortBy = none ∧
      windows = none ∧ qualify = none ∧ Source.AllClosed sources ∧ sources ≠ [] ∧
      (∀ item ∈ items, item.Closed) ∧ ∀ t ∈ condition, t.Closed

/-- Whether the blocks of a body can be said by statements. -/
def Body.Closed : Body → Prop
  | .block b => b.Closed
  | .query q => q.Closed
  | .setOperation _ _ left right => left.Closed ∧ right.Closed
  | .values _ => False
  | .other _ => False

/-- Whether a query has a body that statements can say, and no clause but an ORDER BY of columns over
a block. -/
def Query.Closed : Query → Prop
  | ⟨ctes, body, orderBy, limit, offset, limitBy, fetch, locks, resultForm⟩ =>
    ctes = none ∧ limit = none ∧ offset = none ∧ fetch = none ∧ locks = [] ∧ limitBy = none ∧
      resultForm = none ∧ body.Closed ∧ (orderBy = [] ∨ body.IsBlock ∧ ∀ t ∈ orderBy, t.Closed)

end

mutual

/-- An entry of a FROM list without partitions and hints, LATERAL, and names for the columns of a
derived table. -/
def Factor.kept : Factor → Factor
  | .table name _ arguments alias_ _ => .table name [] arguments alias_ []
  | .derived _ query alias_ => .derived false query.kept (alias_.map TableAlias.kept)
  | .joined inner alias_ => .joined inner alias_
  | .other before alias_ after => .other before alias_ after

/-- A join with what is kept of its entry. -/
def Join.kept : Join → Join
  | ⟨operator, factor⟩ => ⟨operator, factor.kept⟩

/-- What is kept of all joins. -/
def Join.keptAll : List Join → List Join
  | [] => []
  | j :: js => j.kept :: Join.keptAll js

/-- What is kept of an element of a FROM list. -/
def Source.kept : Source → Source
  | ⟨factor, joins⟩ => ⟨factor.kept, Join.keptAll joins⟩

/-- What is kept of a FROM list. -/
def Source.keptAll : List Source → List Source
  | [] => []
  | s :: ss => s.kept :: Source.keptAll ss

/-- A block without LATERAL VIEW, CLUSTER BY, DISTRIBUTE BY, SORT BY, WINDOW and QUALIFY. -/
def Block.kept : Block → Block
  | ⟨distinct, top, items, into, sources, _, condition, groupBy, _, _, _, having, _, _⟩ =>
    ⟨distinct, top, items.map Item.kept, into, Source.keptAll sources, [], condition, groupBy, none,
      none, none, having, none, none⟩

/-- What is kept of the blocks of a body. -/
def Body.kept : Body → Body
  | .block b => .block b.kept
  | .query q => .query q.kept
  | .setOperation op quantifier left right => .setOperation op quantifier left.kept right.kept
  | .values normal => .values normal
  | .other normal => .other normal

/-- A query without LIMIT BY and FOR. -/
def Query.kept : Query → Query
  | ⟨ctes, body, orderBy, limit, offset, _, fetch, locks, _⟩ =>
    ⟨ctes, body.kept, orderBy, limit, offset, none, fetch, locks, none⟩

end

/-! ### What lowering passes over -/

theorem Item.lower_kept (item : Item) : item.kept.lower = item.lower := by
  cases item <;> rfl

theorem Item.mapM_lower_kept (items : List Item) :
    (items.map Item.kept).mapM Item.lower = items.mapM Item.lower := by
  induction items with
  | nil => rfl
  | cons item items ih => rw [List.map_cons, List.mapM_cons, List.mapM_cons, item.lower_kept, ih]

mutual

theorem Factor.lower_kept : (f : Factor) → f.kept.lower = f.lower
  | .table _ _ _ _ _ => rfl
  | .derived _ query alias_ => by
    have hquery := query.lower_kept
    cases alias_ <;> simp only [Factor.kept, Factor.lower, hquery] <;> rfl
  | .joined _ _ => rfl
  | .other _ _ _ => rfl

theorem Join.lower_kept : (j : Join) → j.kept.lower = j.lower
  | ⟨_, factor⟩ => by simp only [Join.kept, Join.lower, factor.lower_kept]

theorem Join.lowerAll_kept : (js : List Join) → Join.lowerAll (Join.keptAll js) = Join.lowerAll js
  | [] => rfl
  | j :: js => by
    simp only [Join.keptAll, Join.lowerAll, j.lower_kept, Join.lowerAll_kept js]

theorem Source.lower_kept : (s : Source) → s.kept.lower = s.lower
  | ⟨factor, joins⟩ => by
    simp only [Source.kept, Source.lower, factor.lower_kept, Join.lowerAll_kept joins]

theorem Source.lowerAll_kept :
    (ss : List Source) → Source.lowerAll (Source.keptAll ss) = Source.lowerAll ss
  | [] => rfl
  | s :: ss => by
    simp only [Source.keptAll, Source.lowerAll, s.lower_kept, Source.lowerAll_kept ss]

theorem Block.lower_kept : (b : Block) → b.kept.lower = b.lower
  | ⟨_, _, items, _, sources, _, _, _, _, _, _, _, _, _⟩ => by
    have hsources := Source.lowerAll_kept sources
    simp only [Block.kept, Block.lower, Block.refusal?, Block.lowerOver, hsources,
      Item.mapM_lower_kept items]

theorem Body.lower_kept : (b : Body) → b.kept.lower = b.lower
  | .block b => by simp only [Body.kept, Body.lower, b.lower_kept]
  | .query q => by simp only [Body.kept, Body.lower, q.lower_kept]
  | .setOperation _ _ left right => by
    simp only [Body.kept, Body.lower, left.lower_kept, right.lower_kept]
  | .values _ => rfl
  | .other _ => rfl

/-- **A query is lowered as if it had nothing but what is kept of it.** -/
theorem Query.lower_kept : (q : Query) → q.kept.lower = q.lower
  | ⟨_, body, _, _, _, _, _, _, _⟩ => by
    simp only [Query.kept, Query.lower, Query.refusal?, body.lower_kept]

end

/-! ### What lowering accepts -/

theorem admits_orderRows (s : Statement) (terms : List SortTerm) :
    Admits (orderRows s terms)
      (terms = [] ∨ (∃ block, s = .select block) ∧ ∀ t ∈ terms, t.Closed) := by
  match terms, s with
  | [], s => exact (Admits.accepted s).congr (by simp)
  | t :: ts, .select block =>
    refine ((Admits.mapM fun t _ => admits_sortTerm t).then_ok _).congr ?_
    simp
  | t :: ts, .setOperation .. => exact (Admits.refused _).congr (by simp)

theorem select_of_orderRows {s s' : Statement} {terms : List SortTerm}
    (h : orderRows s terms = .ok s') : (∃ block, s' = .select block) ↔ ∃ block, s = .select block := by
  match terms, s with
  | [], s =>
    cases h
    exact Iff.rfl
  | t :: ts, .select block =>
    obtain ⟨keys, -, h⟩ := bind_eq_ok_iff.1 h
    cases h
    exact iff_of_true ⟨_, rfl⟩ ⟨_, rfl⟩
  | t :: ts, .setOperation .. => cases h

mutual

/-- A body becomes a SELECT block if it is one block. -/
theorem Body.isBlock_iff : (b : Body) → ∀ {s : Statement}, b.lower = .ok s →
    ((∃ block, s = .select block) ↔ b.IsBlock)
  | .block b, s, h => by
    obtain ⟨block, -, h⟩ := bind_eq_ok_iff.1 h
    cases h
    exact iff_of_true ⟨_, rfl⟩ trivial
  | .query q, s, h => q.isBlock_iff h
  | .setOperation _ _ left right, s, h => by
    obtain ⟨l, -, h⟩ := bind_eq_ok_iff.1 h
    obtain ⟨r, -, h⟩ := bind_eq_ok_iff.1 h
    cases h
    exact iff_of_false (fun ⟨_, hs⟩ => by cases hs) id
  | .values _, s, h => by cases h
  | .other _, s, h => by cases h

theorem Query.isBlock_iff : (q : Query) → ∀ {s : Statement}, q.lower = .ok s →
    ((∃ block, s = .select block) ↔ q.IsBlock)
  | ⟨ctes, body, orderBy, limit, offset, limitBy, fetch, locks, resultForm⟩, s, h => by
    unfold Query.lower at h
    split at h
    · cases h
    · obtain ⟨inner, hinner, h⟩ := bind_eq_ok_iff.1 h
      rw [select_of_orderRows h]
      exact body.isBlock_iff hinner

end

mutual

theorem Body.isBlock_kept : (b : Body) → (b.kept.IsBlock ↔ b.IsBlock)
  | .block _ => Iff.rfl
  | .query q => q.isBlock_kept
  | .setOperation _ _ _ _ => Iff.rfl
  | .values _ => Iff.rfl
  | .other _ => Iff.rfl

theorem Query.isBlock_kept : (q : Query) → (q.kept.IsBlock ↔ q.IsBlock)
  | ⟨_, body, _, _, _, _, _, _, _⟩ => body.isBlock_kept

end

theorem admits_lowerOver (b : Block) (entries : List JoinItem) :
    Admits (b.lowerOver entries)
      (entries ≠ [] ∧ (∀ item ∈ b.items, item.kept.Closed) ∧ ∀ t ∈ b.condition, t.Closed) := by
  cases entries with
  | nil => exact (Admits.refused _).congr (by simp)
  | cons first joins =>
    have hcondition : Admits (b.condition.mapM Term.lower) (∀ t ∈ b.condition, t.Closed) := by
      cases b.condition with
      | none => exact (Admits.accepted _).congr (by simp)
      | some t => exact ((admits_term t).map some).congr (by simp)
    refine ((Admits.mapM fun item _ => admits_item item).bind fun items _ =>
      hcondition.then_ok _).congr ?_
    simp

theorem plainAlias_kept (alias_ : Option TableAlias) : PlainAlias (alias_.map TableAlias.kept) := by
  intro a ha
  obtain ⟨a', -, rfl⟩ := Option.map_eq_some_iff.1 ha
  rfl

/-- An element of a FROM list stands for one entry at least. -/
theorem entries_ne_nil {ss : List Source} {entries : List JoinItem}
    (h : Source.lowerAll ss = .ok entries) : entries ≠ [] ↔ Source.keptAll ss ≠ [] := by
  cases ss with
  | nil =>
    cases h
    exact iff_of_false (fun hne => hne rfl) (fun hne => hne rfl)
  | cons s ss =>
    obtain ⟨factor, joins⟩ := s
    obtain ⟨_, hs, h⟩ := bind_eq_ok_iff.1 h
    obtain ⟨_, -, h⟩ := bind_eq_ok_iff.1 h
    obtain ⟨_, -, hs⟩ := bind_eq_ok_iff.1 hs
    obtain ⟨_, -, hs⟩ := bind_eq_ok_iff.1 hs
    cases hs
    cases h
    exact iff_of_true (List.cons_ne_nil _ _) (List.cons_ne_nil _ _)

section Refusals

variable {c : Prop} [Decidable c] {feature : String} {others : Option Error}

/-- One clause that is refused, in front of others. -/
theorem unsupported_of_ite (h : ∀ e ∈ others, ∃ feature, e = .unsupported feature) :
    ∀ e ∈ (if c then some (Error.unsupported feature) else others),
      ∃ feature, e = .unsupported feature := by
  split
  · rintro e ⟨⟩
    exact ⟨feature, rfl⟩
  · exact h

theorem ite_unsupported_eq_none_iff :
    (if c then some (Error.unsupported feature) else others) = none ↔ ¬ c ∧ others = none := by
  by_cases h : c
  · simp [h]
  · simp [h]

end Refusals

theorem Block.refusal?_eq (b : Block) : ∀ e ∈ b.refusal?, ∃ feature, e = .unsupported feature := by
  unfold refusal?
  split
  · rintro e ⟨⟩
    exact ⟨"DISTINCT ON", rfl⟩
  · refine unsupported_of_ite (unsupported_of_ite (unsupported_of_ite (unsupported_of_ite ?_)))
    rintro e ⟨⟩

theorem Block.refusal?_eq_none_iff (b : Block) : b.refusal? = none ↔
    (b.distinct = none ∨ b.distinct = some .rows) ∧ b.top = none ∧ b.into = none ∧
      b.groupBy = none ∧ b.having = none := by
  unfold refusal?
  split
  · next normal hdistinct => simp [hdistinct]
  · next hdistinct =>
    simp only [ite_unsupported_eq_none_iff, Option.not_isSome_iff_eq_none, and_true]
    refine (and_iff_right ?_).symm
    match h : b.distinct with
    | none => exact .inl rfl
    | some .rows => exact .inr rfl
    | some (.on normal) => exact absurd h (hdistinct normal)

theorem Query.refusal?_eq (q : Query) : ∀ e ∈ q.refusal?, ∃ feature, e = .unsupported feature := by
  unfold refusal?
  refine unsupported_of_ite (unsupported_of_ite (unsupported_of_ite (unsupported_of_ite
    (unsupported_of_ite ?_))))
  rintro e ⟨⟩

theorem Query.refusal?_eq_none_iff (q : Query) : q.refusal? = none ↔
    q.ctes = none ∧ q.limit = none ∧ q.offset = none ∧ q.fetch = none ∧ q.locks = [] := by
  simp only [refusal?, ite_unsupported_eq_none_iff, Option.not_isSome_iff_eq_none, not_not,
    List.isEmpty_iff, and_true]

mutual

theorem admits_factor : (f : Factor) → Admits f.lower f.kept.Closed
  | .table name partitions arguments alias_ hints => by
    cases arguments with
    | none =>
      refine ((admits_lowerTable name alias_).then_ok FromItem.table).congr ?_
      simp [Factor.kept, Factor.Closed]
    | some args => exact (Admits.refused _).congr (by simp [Factor.kept, Factor.Closed])
  | .derived lateral query alias_ => by
    refine ((admits_query query).then_ok _).congr ?_
    exact (and_iff_left ⟨rfl, plainAlias_kept alias_⟩).symm
  | .joined _ _ => Admits.refused _
  | .other _ _ _ => Admits.refused _

theorem admits_join : (j : Join) → Admits j.lower j.kept.Closed
  | ⟨operator, factor⟩ =>
    (admits_factor factor).bind fun _ _ => (admits_joinOperator operator).then_ok _

theorem admits_joins : (js : List Join) → Admits (Join.lowerAll js) (Join.AllClosed (Join.keptAll js))
  | [] => Admits.accepted _
  | j :: js => (admits_join j).bind fun _ _ => (admits_joins js).then_ok _

theorem admits_source : (s : Source) → Admits s.lower s.kept.Closed
  | ⟨factor, joins⟩ => (admits_factor factor).bind fun _ _ => (admits_joins joins).then_ok _

theorem admits_sources :
    (ss : List Source) → Admits (Source.lowerAll ss) (Source.AllClosed (Source.keptAll ss))
  | [] => Admits.accepted _
  | s :: ss => (admits_source s).bind fun _ _ => (admits_sources ss).then_ok _

theorem admits_block : (b : Block) → Admits b.lower b.kept.Closed
  | ⟨distinct, top, items, into, sources, lateralViews, condition, groupBy, clusterBy,
      distributeBy, sortBy, having, windows, qualify⟩ => by
    have hrest := (admits_sources sources).bind fun entries hentries =>
      (admits_lowerOver ⟨distinct, top, items, into, sources, lateralViews, condition, groupBy,
        clusterBy, distributeBy, sortBy, having, windows, qualify⟩ entries).congr
        (and_congr_left' (entries_ne_nil hentries))
    unfold Block.lower
    refine (Admits.guarded (Block.refusal?_eq _) hrest).congr ?_
    rw [Block.refusal?_eq_none_iff]
    simp [Block.kept, Block.Closed, and_assoc]

theorem admits_body : (b : Body) → Admits b.lower b.kept.Closed
  | .block b => (admits_block b).then_ok _
  | .query q => admits_query q
  | .setOperation _ _ left right =>
    (admits_body left).bind fun _ _ => (admits_body right).then_ok _
  | .values _ => Admits.refused _
  | .other _ => Admits.refused _

/-- **A query is lowered exactly if what is kept of it is closed**, and otherwise refused. -/
theorem admits_query : (q : Query) → Admits q.lower q.kept.Closed
  | ⟨ctes, body, orderBy, limit, offset, limitBy, fetch, locks, resultForm⟩ => by
    have hrest := (admits_body body).bind fun s hs =>
      (admits_orderRows s orderBy).congr
        (or_congr_right (and_congr_left' (body.isBlock_iff hs)))
    unfold Query.lower
    refine (Admits.guarded (Query.refusal?_eq _) hrest).congr ?_
    rw [Query.refusal?_eq_none_iff]
    simp [Query.kept, Query.Closed, and_assoc, body.isBlock_kept]

end

/-! ### What is lost -/

theorem Item.kept_of_closed {item : Item} (h : item.Closed) : item.kept = item := by
  cases item with
  | wildcard options => exact congrArg wildcard h.symm
  | term t => rfl
  | aliased t label => rfl
  | qualifiedWildcard qualifier options => rfl

theorem PlainAlias.map_kept {alias_ : Option TableAlias} (h : PlainAlias alias_) :
    alias_.map TableAlias.kept = alias_ := by
  cases alias_ with
  | none => rfl
  | some a =>
    have hcolumns : a.columns = [] := h a rfl
    rw [Option.map_some, TableAlias.kept, ← hcolumns]

mutual

theorem Factor.kept_of_closed : (f : Factor) → f.Closed → f.kept = f
  | .table name partitions arguments alias_ hints, h => by
    obtain ⟨-, rfl, -, rfl⟩ := h
    rfl
  | .derived lateral query alias_, h => by
    obtain ⟨hquery, rfl, halias⟩ := h
    rw [Factor.kept, query.kept_of_closed hquery, halias.map_kept]
  | .joined _ _, _ => rfl
  | .other _ _ _, _ => rfl

theorem Join.kept_of_closed : (j : Join) → j.Closed → j.kept = j
  | ⟨_, factor⟩, h => by rw [Join.kept, factor.kept_of_closed h.1]

theorem Join.keptAll_of_closed : (js : List Join) → Join.AllClosed js → Join.keptAll js = js
  | [], _ => rfl
  | j :: js, h => by rw [Join.keptAll, j.kept_of_closed h.1, Join.keptAll_of_closed js h.2]

theorem Source.kept_of_closed : (s : Source) → s.Closed → s.kept = s
  | ⟨factor, joins⟩, h => by
    rw [Source.kept, factor.kept_of_closed h.1, Join.keptAll_of_closed joins h.2]

theorem Source.keptAll_of_closed :
    (ss : List Source) → Source.AllClosed ss → Source.keptAll ss = ss
  | [], _ => rfl
  | s :: ss, h => by rw [Source.keptAll, s.kept_of_closed h.1, Source.keptAll_of_closed ss h.2]

theorem Block.kept_of_closed : (b : Block) → b.Closed → b.kept = b
  | ⟨_, _, items, _, sources, _, _, _, _, _, _, _, _, _⟩, h => by
    obtain ⟨-, -, -, -, -, rfl, rfl, rfl, rfl, rfl, rfl, hsources, -, hitems, -⟩ := h
    have hmap : items.map Item.kept = items :=
      (List.map_congr_left fun item hitem => Item.kept_of_closed (hitems item hitem)).trans
        (List.map_id items)
    rw [Block.kept, hmap, Source.keptAll_of_closed sources hsources]

theorem Body.kept_of_closed : (b : Body) → b.Closed → b.kept = b
  | .block b, h => by rw [Body.kept, b.kept_of_closed h]
  | .query q, h => by rw [Body.kept, q.kept_of_closed h]
  | .setOperation _ _ left right, h => by
    rw [Body.kept, left.kept_of_closed h.1, right.kept_of_closed h.2]
  | .values _, _ => rfl
  | .other _, _ => rfl

/-- Nothing of a closed query is passed over. -/
theorem Query.kept_of_closed : (q : Query) → q.Closed → q.kept = q
  | ⟨_, body, _, _, _, _, _, _, _⟩, h => by
    obtain ⟨-, -, -, -, -, rfl, rfl, hbody, -⟩ := h
    rw [Query.kept, body.kept_of_closed hbody]

end

/-- A query is closed if what is kept of it is and that is all of it. -/
theorem Query.closed_iff (q : Query) : q.Closed ↔ q.kept.Closed ∧ q.kept = q := by
  constructor
  · intro h
    have hkept := q.kept_of_closed h
    exact ⟨hkept.symm ▸ h, hkept⟩
  · rintro ⟨h, hkept⟩
    exact hkept ▸ h

/-! ## Texts -/

/-- **A text that says one query is read if what is kept of the query is closed**, as if that were
all of it, and otherwise a feature is refused. The whole query is closed if moreover nothing of it is
passed over, so that a text is read without being closed exactly if something is. -/
theorem read_query {text : String} {q : Query}
    (h : (Token.scan text).bind Grammar.read = some [.query q]) :
    read text = q.kept.lower ∧
      (q.kept.Closed → ∃ s, read text = .ok s) ∧
      (¬ q.kept.Closed → ∃ feature, read text = .error (.unsupported feature)) ∧
      (q.Closed ↔ q.kept.Closed ∧ q.kept = q) := by
  have hread : read text = q.lower := by
    unfold read
    rw [h]
    rfl
  rw [hread]
  exact ⟨q.lower_kept.symm, (admits_query q).accepts, (admits_query q).refuses, q.closed_iff⟩

/-! ### A text with QUALIFY -/

/-- The block of sentences that are one query of one block. -/
def block? : List Sentence → Option (Query × Block)
  | [.query q] =>
    match q.body with
    | .block b => some (q, b)
    | _ => none
  | _ => none

theorem eq_of_block? {sentences : List Sentence} {q : Query} {b : Block}
    (h : block? sentences = some (q, b)) : sentences = [.query q] ∧ q.body = .block b := by
  unfold block? at h
  split at h
  · split at h
    · next hbody =>
      cases h
      exact ⟨rfl, hbody⟩
    · cases h
  · cases h

theorem scan_qualify : ∃ q b, (Token.scan "SELECT * FROM S QUALIFY A > 1").bind Grammar.read =
    some [.query q] ∧ q.body = .block b ∧ b.qualify.isSome := by
  have htree : (((Token.scan "SELECT * FROM S QUALIFY A > 1").bind Grammar.read).bind block?).map
      (·.2.qualify.isSome) = some true := by decide +kernel
  obtain ⟨⟨q, b⟩, hblock, hqualify⟩ := Option.map_eq_some_iff.1 htree
  obtain ⟨sentences, hscan, hsentences⟩ := Option.bind_eq_some_iff.1 hblock
  obtain ⟨rfl, hbody⟩ := eq_of_block? hsentences
  exact ⟨q, b, hscan, hbody, hqualify⟩

/-- The text is read as what is kept of its query, which is not all of it. -/
theorem read_query_qualify :
    ∃ q, (Token.scan "SELECT * FROM S QUALIFY A > 1").bind Grammar.read = some [.query q] ∧
      read "SELECT * FROM S QUALIFY A > 1" = q.kept.lower := by
  obtain ⟨q, b, hscan, -, -⟩ := scan_qualify
  exact ⟨q, hscan, (read_query hscan).1⟩

/-- The SELECT list, the number of joins and the condition of a statement that is one block. -/
def outline : Statement → Option (List SelectItem × Nat × Option Expr)
  | .select block => some (block.items, block.joins.length, block.condition)
  | .setOperation .. => none

/-- The text is not closed, and it is read as a block that says nothing of the clause. -/
theorem qualify_passed_over :
    ∃ q s, (Token.scan "SELECT * FROM S QUALIFY A > 1").bind Grammar.read = some [.query q] ∧
      ¬ q.Closed ∧ read "SELECT * FROM S QUALIFY A > 1" = .ok s ∧
      outline s = some ([.wildcard], 0, none) := by
  obtain ⟨q, b, hscan, hbody, hqualify⟩ := scan_qualify
  have hopen : ¬ q.Closed := by
    intro h
    obtain ⟨ctes, body, orderBy, limit, offset, limitBy, fetch, locks, resultForm⟩ := q
    obtain rfl : body = .block b := hbody
    obtain ⟨-, -, -, -, -, -, -, hblock, -⟩ := h
    obtain ⟨distinct, top, items, into, sources, lateralViews, condition, groupBy, clusterBy,
      distributeBy, sortBy, having, windows, qualify⟩ := b
    obtain ⟨-, -, -, -, -, -, -, -, -, -, rfl, -⟩ := hblock
    cases hqualify
  have houtline : (read "SELECT * FROM S QUALIFY A > 1").toOption.bind outline =
      some ([.wildcard], 0, none) := by decide +kernel
  obtain ⟨s, hread, hs⟩ := Option.bind_eq_some_iff.1 houtline
  refine ⟨q, s, hscan, hopen, ?_, hs⟩
  cases hresult : read "SELECT * FROM S QUALIFY A > 1" with
  | ok s' =>
    rw [hresult] at hread
    exact congrArg Except.ok (Option.some.inj hread)
  | error e =>
    rw [hresult] at hread
    cases hread

end FlatQuery.Sql
