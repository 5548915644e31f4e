import FlatQuery.Proofs.Clauses
import FlatQuery.Proofs.Exact
import FlatQuery.Proofs.Storage

set_option autoImplicit false

/-! # Values of terms

What an arithmetic term denotes over the integers is read off the term (`Term.Denotes`), before
anything is made of it. Lowering treats a minus in two ways: in front of a number it becomes part of
the literal, and anywhere else a subtraction from zero. Either way the expression has the value of
the term, and its subexpressions are in range if the parts of the term are (`carries_lower`). So an
evaluation says of a term what the integers do (`lower_exact`). -/

namespace FlatQuery.Sql

namespace Term

/-! ## Arithmetic terms -/

/-- Whether a term is made of columns, numbers, parentheses, signs and the operators that compute an
integer from two. -/
def IsArithmetic : Term → Prop
  | name names => ColumnName names
  | literal (.number _ _) => True
  | literal (.spelled _) => False
  | nested inner => inner.IsArithmetic
  | unary .minus operand => operand.IsArithmetic
  | unary .plus operand => operand.IsArithmetic
  | unary .not _ => False
  | unary .factorial _ => False
  | operation (.binary (.arithmetic _)) left right => left.IsArithmetic ∧ right.IsArithmetic
  | operation _ _ _ => False
  | call _ _ => False
  | subquery _ => False
  | other _ => False

/-- The numbers of a term, with a minus if one stands directly in front. -/
def numerals : Term → List String
  | literal (.number digits _) => [digits]
  | unary .minus (literal (.number digits _)) => ["-" ++ digits]
  | nested inner => inner.numerals
  | unary _ operand => operand.numerals
  | operation _ left right => left.numerals ++ right.numerals
  | _ => []

/-- The parts of a term that have values, each behind its own parts. A number and a minus directly
in front of it are one part. -/
def parts : Term → List Term
  | unary .minus (literal (.number digits long)) => [unary .minus (literal (.number digits long))]
  | nested inner => inner.parts ++ [nested inner]
  | unary op operand => operand.parts ++ [unary op operand]
  | operation op left right => left.parts ++ right.parts ++ [operation op left right]
  | t => [t]

/-- The value of a term over the integers, given those of the columns. -/
inductive Denotes (column : ColumnRef → Option Int) : Term → Int → Prop
  | column {c : Name} {n : Int} (h : column ⟨none, c.text⟩ = some n) : Denotes column (name [c]) n
  | qualified {q c : Name} {n : Int} (h : column ⟨some q.text, c.text⟩ = some n) :
    Denotes column (name [q, c]) n
  | number {digits : String} {long : Bool} {n : Int} (h : Text.Numeral digits.toList n) :
    Denotes column (literal (.number digits long)) n
  | nested {inner : Term} {n : Int} (h : Denotes column inner n) : Denotes column (nested inner) n
  | minus {operand : Term} {n : Int} (h : Denotes column operand n) :
    Denotes column (unary .minus operand) (-n)
  | plus {operand : Term} {n : Int} (h : Denotes column operand n) :
    Denotes column (unary .plus operand) n
  | operation {op : Arithmetic} {left right : Term} {a b n : Int} (hl : Denotes column left a)
    (hr : Denotes column right b) (h : op.exactValue? a b = some n) :
    Denotes column (operation (.binary (.arithmetic op)) left right) n

/-- Whether a term has a value over the integers, and it is one of the engine. -/
def Representable (column : ColumnRef → Option Int) (t : Term) : Prop :=
  ∃ n, t.Denotes column n ∧ Value.InRange n

/-! ## What is refused -/

theorem textIf_false_append (text digits : String) : textIf false text ++ digits = digits := by
  rw [textIf, if_neg Bool.false_ne_true, String.empty_append]

theorem closed_number_iff {digits : String} {long : Bool} :
    (Literal.number digits long).Closed false ↔
      ∃ n, Text.Numeral digits.toList n ∧ Value.InRange n := by
  rw [Literal.Closed, textIf_false_append]
  exact Value.isSome_read?_iff

theorem closed_minus_number_iff {digits : String} {long : Bool} :
    (Literal.number digits long).Closed true ↔
      ∃ n, Text.Numeral ("-" ++ digits).toList n ∧ Value.InRange n :=
  Value.isSome_read?_iff

/-- An arithmetic term is lowered if all of its numbers are integers in range. -/
theorem IsArithmetic.closed_iff {t : Term} (h : t.IsArithmetic) :
    t.Closed ↔ ∀ text ∈ t.numerals, ∃ n, Text.Numeral text.toList n ∧ Value.InRange n := by
  fun_induction IsArithmetic t with
  | case1 names => exact iff_of_true h fun text htext => absurd htext List.not_mem_nil
  | case2 digits long =>
    rw [numerals, List.forall_mem_singleton, Term.Closed, closed_number_iff]
  | case4 inner ih => exact ih h
  | case5 operand ih =>
    cases operand with
    | literal value =>
      cases value with
      | number digits long =>
        rw [numerals, List.forall_mem_singleton, Term.Closed, closed_minus_number_iff]
      | spelled normal => exact h.elim
    | _ => exact ih h
  | case6 operand ih => exact ih h
  | case9 op left right ihl ihr =>
    rw [Term.Closed, numerals, List.forall_mem_append, ihl h.1, ihr h.2]
  | _ => exact h.elim

/-! ## What a term denotes -/

section Denotation

variable {column : ColumnRef → Option Int} {t left right : Term} {n : Int}

theorem denotes_number_iff {digits : String} {long : Bool} :
    (literal (.number digits long)).Denotes column n ↔ Text.Numeral digits.toList n :=
  ⟨fun h => by cases h; assumption, .number⟩

theorem denotes_nested_iff : (nested t).Denotes column n ↔ t.Denotes column n :=
  ⟨fun h => by cases h; assumption, .nested⟩

theorem denotes_plus_iff : (unary .plus t).Denotes column n ↔ t.Denotes column n :=
  ⟨fun h => by cases h; assumption, .plus⟩

theorem denotes_minus_iff :
    (unary .minus t).Denotes column n ↔ ∃ m, t.Denotes column m ∧ -m = n := by
  constructor
  · rintro (_ | _)
    exact ⟨_, ‹_›, rfl⟩
  · rintro ⟨m, hm, rfl⟩
    exact .minus hm

theorem denotes_operation_iff {op : Arithmetic} :
    (operation (.binary (.arithmetic op)) left right).Denotes column n ↔
      ∃ a, left.Denotes column a ∧ ∃ b, right.Denotes column b ∧ op.exactValue? a b = some n := by
  constructor
  · rintro (_ | _)
    exact ⟨_, ‹_›, _, ‹_›, ‹_›⟩
  · rintro ⟨a, ha, b, hb, h⟩
    exact .operation ha hb h

theorem parts_minus (h : ∀ value, t ≠ literal value) :
    (unary .minus t).parts = t.parts ++ [unary .minus t] := by
  cases t with
  | literal value => exact absurd rfl (h value)
  | _ => rfl

end Denotation

/-! ## What an expression carries over -/

/-- Whether an expression has the value of a term, and values in range as far as the term has. -/
structure Carries (column : ColumnRef → Option Int) (t : Term) (e : Expr) : Prop where
  denotes_iff {n : Int} : t.Denotes column n ↔ e.exactValue? column = some n
  parts_iff : (∀ part ∈ t.parts, part.Representable column) ↔
    ∀ part ∈ e.postorder, part.Representable column

namespace Carries

variable {column : ColumnRef → Option Int} {t left right : Term} {e l r : Expr}

theorem representable_iff (h : ∀ n, t.Denotes column n ↔ e.exactValue? column = some n) :
    t.Representable column ↔ e.Representable column :=
  exists_congr fun n => and_congr_left' (h n)

/-- A term and an expression with the same value, over parts that are in range together. -/
theorem node (ts : List Term) (es : List Expr) (ht : t.parts = ts ++ [t])
    (he : e.postorder = es ++ [e])
    (hbelow : (∀ part ∈ ts, part.Representable column) ↔
      ∀ part ∈ es, part.Representable column)
    (h : ∀ n, t.Denotes column n ↔ e.exactValue? column = some n) : Carries column t e where
  denotes_iff {n} := h n
  parts_iff := by
    rw [ht, he, List.forall_mem_append, List.forall_mem_append, List.forall_mem_singleton,
      List.forall_mem_singleton, hbelow, representable_iff h]

theorem atom (ht : t.parts = [t]) (he : e.postorder = [e])
    (h : ∀ n, t.Denotes column n ↔ e.exactValue? column = some n) : Carries column t e :=
  node [] [] ht he (by simp) h

theorem bare {c : Name} : Carries column (name [c]) (.column ⟨none, c.text⟩) :=
  atom rfl rfl fun n => ⟨fun h => by cases h; assumption, .column⟩

theorem qualified {q c : Name} : Carries column (name [q, c]) (.column ⟨some q.text, c.text⟩) :=
  atom rfl rfl fun n => ⟨fun h => by cases h; assumption, .qualified⟩

theorem number {digits : String} {long : Bool} {v : Value}
    (h : Value.read? digits.toList = some v) :
    Carries column (literal (.number digits long)) (.literal v) := by
  refine atom rfl rfl fun n => ?_
  rw [denotes_number_iff, Expr.exactValue?, ← Text.readInt?_eq_some_iff,
    Text.readInt?_eq_some_iff.2 (Value.read?_eq_some_iff.1 h)]

/-- A minus directly in front of a number is read with it. -/
theorem negative {digits : String} {long : Bool} {v : Value}
    (h : Value.read? ('-' :: digits.toList) = some v) :
    Carries column (unary .minus (literal (.number digits long))) (.literal v) := by
  refine atom rfl rfl fun n => ?_
  -- the number alone may be out of range: it denotes the opposite of the literal
  have hdigits (m : Int) : Text.Numeral digits.toList m ↔ -m = v.toInt :=
    (Value.read?_eq_some_iff.1 h).behind_minus
  simp only [denotes_minus_iff, denotes_number_iff, hdigits, Expr.exactValue?, Option.some.injEq]
  constructor
  · rintro ⟨m, hm, rfl⟩
    exact hm.symm
  · rintro rfl
    exact ⟨-v.toInt, Int.neg_neg _, Int.neg_neg _⟩

theorem nested (h : Carries column t e) : Carries column (nested t) (.nested e) :=
  node _ _ rfl rfl h.parts_iff fun _ => denotes_nested_iff.trans h.denotes_iff

theorem plus (h : Carries column t e) : Carries column (unary .plus t) e where
  denotes_iff := denotes_plus_iff.trans h.denotes_iff
  parts_iff := by
    have hself : (unary .plus t).Representable column ↔ e.Representable column :=
      representable_iff fun n => denotes_plus_iff.trans h.denotes_iff
    -- the plus is one more part of the term, but not of the expression
    show (∀ part ∈ t.parts ++ [unary .plus t], part.Representable column) ↔ _
    rw [List.forall_mem_append, List.forall_mem_singleton, h.parts_iff, hself]
    exact and_iff_left_of_imp fun hall => hall e e.mem_postorder_self

/-- Any other minus subtracts from zero, which is in range. -/
theorem negation (hnumber : ∀ value, t ≠ literal value) (h : Carries column t e) :
    Carries column (unary .minus t) (.binary (.arithmetic .sub) (.literal 0) e) := by
  refine node t.parts ([.literal 0] ++ e.postorder) (parts_minus hnumber) rfl ?_ fun n => ?_
  · have hzero : (Expr.literal 0).Representable column := ⟨0, rfl, by decide⟩
    rw [List.forall_mem_append, List.forall_mem_singleton, h.parts_iff, and_iff_right hzero]
  · rw [denotes_minus_iff, Expr.exactValue?]
    simp [h.denotes_iff, Expr.exactValue?, Arithmetic.exactValue?, Option.bind_eq_some_iff]

theorem operation {op : BinaryOp} (hl : Carries column left l) (hr : Carries column right r) :
    Carries column (operation (.binary op) left right) (.binary op l r) := by
  refine node (left.parts ++ right.parts) (l.postorder ++ r.postorder) rfl rfl ?_ fun n => ?_
  · rw [List.forall_mem_append, List.forall_mem_append, hl.parts_iff, hr.parts_iff]
  · cases op with
    | arithmetic op =>
      rw [denotes_operation_iff, Expr.exactValue?]
      simp only [hl.denotes_iff, hr.denotes_iff, Option.bind_eq_bind, Option.bind_eq_some_iff]
    | compare op => exact iff_of_false (fun h => by cases h) (fun h => by cases h)
    | and => exact iff_of_false (fun h => by cases h) (fun h => by cases h)

end Carries

section Lowering

variable {column : ColumnRef → Option Int} {t : Term} {e : Expr}

theorem carries_lowerName {names : List Name} (h : lowerName names = .ok e) :
    Carries column (name names) e := by
  unfold lowerName at h
  split at h <;> cases h
  · exact .bare
  · exact .qualified

theorem carries_literal {value : Literal} (h : value.lower false = .ok e) :
    Carries column (literal value) e := by
  cases value with
  | number digits long =>
    obtain ⟨v, hv, rfl⟩ := lowerNumber_eq_ok h
    rw [textIf_false_append] at hv
    exact .number hv
  | spelled normal => cases h

theorem carries_negative {value : Literal} (h : value.lower true = .ok e) :
    Carries column (unary .minus (literal value)) e := by
  cases value with
  | number digits long =>
    obtain ⟨v, hv, rfl⟩ := lowerNumber_eq_ok h
    rw [textIf, if_pos rfl, String.toList_append] at hv
    exact .negative hv
  | spelled normal => cases h

/-- **What a term stands for carries over what the term denotes.** -/
theorem carries_lower (h : t.lower = .ok e) : Carries column t e := by
  fun_induction Term.lower t generalizing e with
  | case1 names => exact carries_lowerName h
  | case2 value => exact carries_literal h
  | case3 inner ih =>
    obtain ⟨e', he, h⟩ := bind_eq_ok_iff.1 h
    cases h
    exact (ih he).nested
  | case4 value => exact carries_negative h
  | case5 operand hnumber ih =>
    obtain ⟨e', he, h⟩ := bind_eq_ok_iff.1 h
    cases h
    exact (ih he).negation hnumber
  | case6 operand ih => exact (ih h).plus
  | case9 op left right ihl ihr =>
    obtain ⟨l, hl, h⟩ := bind_eq_ok_iff.1 h
    obtain ⟨r, hr, h⟩ := bind_eq_ok_iff.1 h
    cases h
    exact (ihl hl).operation (ihr hr)
  | _ => cases h

end Lowering

end Term

/-- **Lowering preserves the value of arithmetic.** An arithmetic term is refused exactly if one of
its numbers, read with a minus that stands directly in front, is not the numeral of an integer in
range. Otherwise, over each schema to which the expression can be bound and for each tuple of that
schema, the expression has a value exactly if all parts of the term have one over the integers that
is in range; then its value is that of the term. -/
theorem lower_exact {t : Term} (h : t.IsArithmetic) :
    ((∃ error, t.lower = .error error) ↔
      ∃ text ∈ t.numerals, ¬ ∃ n, Text.Numeral text.toList n ∧ Value.InRange n) ∧
    ∀ e, t.lower = .ok e → ∀ (s : Schema) (b : BoundExpr), BoundExpr.bind s e = .ok b →
      ∀ row : Tuple, row.length = s.length → ∀ v, b.eval row = .ok v ↔
        (∀ part ∈ t.parts, ∃ n, part.Denotes (s.intOf row) n ∧ Value.InRange n) ∧
          t.Denotes (s.intOf row) v.toInt := by
  constructor
  · have hlowered : (∃ e, t.lower = .ok e) ↔ t.Closed :=
      ⟨fun ⟨_, he⟩ => (admits_term t).holds he, (admits_term t).accepts⟩
    rw [exists_error_iff, hlowered, h.closed_iff]
    simp only [not_forall, exists_prop]
  · intro e he s b hb row hrow v
    have hcarries : Term.Carries (s.intOf row) t e := Term.carries_lower he
    rw [BoundExpr.eval_eq_ok_iff hb hrow, ← hcarries.parts_iff, ← hcarries.denotes_iff]
    rfl

/-! ### The smallest value -/

/-- The term `-9223372036854775808 - - -B`. -/
def smallestLess : Term :=
  .operation (.binary (.arithmetic .sub))
    (.unary .minus (.literal (.number "9223372036854775808" false)))
    (.unary .minus (.unary .minus (.name [⟨"B", none⟩])))

/-- What the term stands for. -/
def smallestLessExpr : Expr :=
  .binary (.arithmetic .sub) (.literal (-9223372036854775808))
    (.binary (.arithmetic .sub) (.literal 0)
      (.binary (.arithmetic .sub) (.literal 0) (.column ⟨none, "B"⟩)))

/-- The same expression, bound. -/
def boundSmallestLess : BoundExpr :=
  .arithmetic .sub (.literal (-9223372036854775808))
    (.arithmetic .sub (.literal 0) (.arithmetic .sub (.literal 0) (.column 1 ⟨none, "B"⟩)))

/-- The smallest value is written with a minus that belongs to it; without one the number is
refused. -/
theorem lower_exact_smallest :
    smallestLess.IsArithmetic ∧ smallestLess.lower = .ok smallestLessExpr ∧
      BoundExpr.bind triples smallestLessExpr = .ok boundSmallestLess ∧
      (⟨[0, -7, 0]⟩ : Tuple).length = triples.length ∧
      boundSmallestLess.eval ⟨[0, -7, 0]⟩ = .ok (-9223372036854775801) ∧
      smallestLess.Denotes (triples.intOf ⟨[0, -7, 0]⟩) (-9223372036854775801) ∧
      (Term.literal (.number "9223372036854775808" false)).IsArithmetic ∧
      ∃ error, (Term.literal (.number "9223372036854775808" false)).lower = .error error := by
  have ht : smallestLess.IsArithmetic := ⟨trivial, .inl rfl⟩
  have hlower : smallestLess.lower = .ok smallestLessExpr := by decide +kernel
  have hbind : BoundExpr.bind triples smallestLessExpr = .ok boundSmallestLess := by decide +kernel
  have heval : boundSmallestLess.eval ⟨[0, -7, 0]⟩ = .ok (-9223372036854775801) := by
    decide +kernel
  have hvalue := ((lower_exact ht).2 _ hlower _ _ hbind _ rfl _).1 heval
  have hnumber : (Term.literal (.number "9223372036854775808" false)).IsArithmetic := trivial
  have hlarge : ¬ ∃ n, Text.Numeral "9223372036854775808".toList n ∧ Value.InRange n :=
    mt Value.isSome_read?_iff.2 (by decide +kernel)
  exact ⟨ht, hlower, hbind, rfl, heval, hvalue.2, hnumber,
    (lower_exact hnumber).1.2 ⟨_, List.mem_singleton_self _, hlarge⟩⟩

end FlatQuery.Sql
