import FlatQuery.Proofs.Truth

set_option autoImplicit false

/-! # Exact arithmetic

`Expr.exactValue?` computes over the unbounded integers. The engine computes with values of 64 bits
and checks every operation, and what it answers is what the integers say: the exact value if all
subexpressions have one that is in range, and otherwise an error at the first of them that has none
(`eval_exact`). -/

namespace FlatQuery

/-! ## Values over the integers -/

/-- What an operation yields over the integers. Quotients are rounded toward zero, and there is none
by zero. -/
def Arithmetic.exactValue? : Arithmetic → Int → Int → Option Int
  | .add, a, b => some (a + b)
  | .sub, a, b => some (a - b)
  | .mul, a, b => some (a * b)
  | .div, a, b => if b = 0 then none else some (a.tdiv b)

namespace Expr

/-- The value of an expression over the integers, given those of the columns. -/
def exactValue? (column : ColumnRef → Option Int) : Expr → Option Int
  | .column ref => column ref
  | .literal value => some value.toInt
  | .binary (.arithmetic op) left right => do
    op.exactValue? (← left.exactValue? column) (← right.exactValue? column)
  | .binary _ _ _ => none
  | .nested inner => inner.exactValue? column

/-- The subexpressions, each behind its operands and those on the left before those on the right. -/
def postorder : Expr → List Expr
  | .column ref => [.column ref]
  | .literal value => [.literal value]
  | .binary op left right => left.postorder ++ right.postorder ++ [.binary op left right]
  | .nested inner => inner.postorder ++ [.nested inner]

section Faults

variable (column : ColumnRef → Option Int)

/-- Whether an expression has a value over the integers, and it is one of the engine. -/
def Representable (e : Expr) : Prop := ∃ n ∈ e.exactValue? column, Value.InRange n

instance : DecidablePred (Representable column) := fun e =>
  inferInstanceAs (Decidable (∃ n ∈ e.exactValue? column, Value.InRange n))

/-- Whether an expression is a quotient with the divisor zero. -/
def DividesByZero : Expr → Prop
  | .binary (.arithmetic .div) _ right => right.exactValue? column = some 0
  | _ => False

instance : DecidablePred (DividesByZero column)
  | .binary (.arithmetic .div) _ right =>
    inferInstanceAs (Decidable (right.exactValue? column = some 0))
  | .column _ | .literal _ | .nested _ | .binary (.compare _) _ _ | .binary .and _ _
  | .binary (.arithmetic .add) _ _ | .binary (.arithmetic .sub) _ _
  | .binary (.arithmetic .mul) _ _ => inferInstanceAs (Decidable False)

/-- The first subexpression that has no value or one that is out of range. -/
def offending? (e : Expr) : Option Expr := e.postorder.find? (¬ ·.Representable column)

/-- The error of an expression that has no value or one that is out of range. -/
def fault (e : Expr) : Error :=
  if e.DividesByZero column then .divisionByZero e.text else .arithmeticOverflow e.text

end Faults

section Offending

variable {column : ColumnRef → Option Int} {e : Expr}

theorem mem_postorder_self (e : Expr) : e ∈ e.postorder := by
  cases e <;> simp [postorder]

theorem offending?_eq_none_iff :
    e.offending? column = none ↔ ∀ part ∈ e.postorder, part.Representable column := by
  simp [offending?]

theorem representable_of_exactValue? {v : Value} (h : e.exactValue? column = some v.toInt) :
    e.Representable column :=
  ⟨v.toInt, h, v.inRange_toInt⟩

theorem offending?_binary (op : BinaryOp) (left right : Expr) :
    (binary op left right).offending? column =
      ((left.offending? column).or (right.offending? column)).or
        (if (binary op left right).Representable column then none
          else some (binary op left right)) := by
  unfold offending?
  rw [postorder, List.find?_append, List.find?_append]
  by_cases h : (binary op left right).Representable column <;> simp [h]

theorem offending?_nested (inner : Expr) :
    (nested inner).offending? column =
      (inner.offending? column).or
        (if inner.Representable column then none else some (nested inner)) := by
  have hiff : (nested inner).Representable column ↔ inner.Representable column := Iff.rfl
  unfold offending?
  rw [postorder, List.find?_append]
  by_cases h : inner.Representable column <;> simp [hiff, h]

end Offending

end Expr

/-! ## Checked operations -/

section Operations

variable {op : Arithmetic} {v w x : Value}

theorem Arithmetic.exactValue?_eq (op : Arithmetic) (a b : Int) :
    op.exactValue? a b = if op = .div ∧ b = 0 then none else some (op.onInt a b) := by
  cases op <;> simp [exactValue?, onInt]

/-- An operation yields what it yields over the integers, if that is in range. -/
theorem Arithmetic.apply_eq_ok_iff :
    op.apply v w = .ok x ↔ op.exactValue? v.toInt w.toInt = some x.toInt := by
  rw [exactValue?_eq, apply]
  by_cases hzero : op = .div ∧ w.toInt = 0
  · simp [hzero]
  · rw [if_neg hzero, if_neg hzero, Option.some.injEq, eq_comm, @eq_comm Int,
      ← Value.ofInt?_eq_some_iff]
    cases Value.ofInt? (op.onInt v.toInt w.toInt) <;> simp [eq_comm]

/-- Otherwise it tells whether the divisor is zero. -/
theorem Arithmetic.apply_eq_error {fault : ArithmeticFault} (h : op.apply v w = .error fault) :
    fault = if op = .div ∧ w.toInt = 0 then .zeroDivisor else .outOfRange := by
  unfold apply at h
  by_cases hzero : op = .div ∧ w.toInt = 0
  · rw [if_pos hzero] at h ⊢
    exact (Except.error.inj h).symm
  · rw [if_neg hzero] at h ⊢
    split at h
    · cases h
    · exact (Except.error.inj h).symm

end Operations

/-! ## Outcomes -/

namespace Expr

variable {column : ColumnRef → Option Int} {left right inner : Expr} {o o' : Except Error Value}

/-- What the integers say of an expression: its exact value, or the error of the first subexpression
that has none in range. -/
inductive Meets (column : ColumnRef → Option Int) (e : Expr) : Except Error Value → Prop
  | value {v : Value} (hnone : e.offending? column = none)
    (hexact : e.exactValue? column = some v.toInt) : Meets column e (.ok v)
  | fault {part : Expr} (hsome : e.offending? column = some part) :
    Meets column e (.error (part.fault column))

theorem Meets.atom {e : Expr} {v : Value} (hatom : e.postorder = [e])
    (hexact : e.exactValue? column = some v.toInt) : e.Meets column (.ok v) := by
  refine .value ?_ hexact
  rw [offending?_eq_none_iff, hatom, List.forall_mem_singleton]
  exact representable_of_exactValue? hexact

theorem Meets.nested (h : inner.Meets column o) : (nested inner).Meets column o := by
  cases h with
  | value hnone hexact =>
    refine .value ?_ hexact
    rw [offending?_nested, hnone, if_pos (representable_of_exactValue? hexact), Option.or_none]
  | fault hsome =>
    refine .fault ?_
    rw [offending?_nested, hsome, Option.some_or]

/-- Over operands whose values are known, an operation yields its exact value or is at fault. -/
theorem Meets.apply (op : Arithmetic) {v w : Value} (hl : left.Meets column (.ok v))
    (hr : right.Meets column (.ok w)) :
    (binary (.arithmetic op) left right).Meets column ((op.apply v w).mapError fun fault =>
      fault.error (binary (.arithmetic op) left right).text) := by
  obtain ⟨hnone, hexact⟩ := hl
  obtain ⟨hnone', hexact'⟩ := hr
  have hvalue : (binary (.arithmetic op) left right).exactValue? column =
      op.exactValue? v.toInt w.toInt := by
    rw [exactValue?, hexact, hexact']
    rfl
  have hoffending := @offending?_binary column (.arithmetic op) left right
  rw [hnone, hnone', Option.or_none, Option.none_or] at hoffending
  cases happly : op.apply v w with
  | ok x =>
    have hx := hvalue.trans (Arithmetic.apply_eq_ok_iff.1 happly)
    rw [if_pos (representable_of_exactValue? hx)] at hoffending
    exact .value hoffending hx
  | error fault =>
    have hnot : ¬ (binary (.arithmetic op) left right).Representable column := by
      -- a value in range would be the result of the operation
      rintro ⟨n, hn, hrange⟩
      have hok : op.apply v w = .ok (Int64.ofInt n) := by
        rw [Arithmetic.apply_eq_ok_iff, Value.toInt_ofInt hrange, ← hvalue]
        exact hn
      rw [happly] at hok
      cases hok
    have hdivides : (binary (.arithmetic op) left right).DividesByZero column ↔
        op = .div ∧ w.toInt = 0 := by
      cases op <;> simp [DividesByZero, hexact']
    have hfault : fault.error (binary (.arithmetic op) left right).text =
        (binary (.arithmetic op) left right).fault column := by
      simp only [Arithmetic.apply_eq_error happly, Expr.fault, hdivides]
      split <;> rfl
    rw [if_neg hnot] at hoffending
    rw [Except.mapError, hfault]
    exact .fault hoffending

/-- An operation carries out its left operand, then the right one, then itself. -/
theorem Meets.operation {op : Arithmetic} (hl : left.Meets column o) (hr : right.Meets column o') :
    (binary (.arithmetic op) left right).Meets column (do
      let v ← o
      let w ← o'
      (op.apply v w).mapError fun fault =>
        fault.error (binary (.arithmetic op) left right).text) := by
  cases hl with
  | fault hsome =>
    refine .fault ?_
    rw [offending?_binary, hsome, Option.some_or, Option.some_or]
  | value hnone hexact =>
    cases hr with
    | fault hsome =>
      refine .fault ?_
      rw [offending?_binary, hnone, hsome, Option.none_or, Option.some_or]
    | value hnone' hexact' => exact Meets.apply op (.value hnone hexact) (.value hnone' hexact')

end Expr

/-! ## Evaluation -/

/-- The value of a column for a tuple, as an integer. -/
def Schema.intOf (s : Schema) (t : Tuple) (ref : ColumnRef) : Option Int :=
  (s.valueOf t ref).map Int64.toInt

section Evaluation

variable {s : Schema} {t : Tuple} {e : Expr} {b : BoundExpr}

namespace BoundExpr

/-- A bound expression has the text of the expression. -/
theorem text_of_bind (h : bind s e = .ok b) : b.text = e.text := by
  induction e generalizing b with
  | column ref =>
    obtain ⟨i, -, h⟩ := bind_eq_ok_iff.1 h
    cases h
    rfl
  | literal value =>
    cases h
    rfl
  | nested inner ih =>
    obtain ⟨i, hi, h⟩ := bind_eq_ok_iff.1 h
    cases h
    rw [text, Expr.text, ih hi]
  | binary op left right ihl ihr =>
    cases op with
    | arithmetic op =>
      obtain ⟨l, hl, h⟩ := bind_eq_ok_iff.1 h
      obtain ⟨r, hr, h⟩ := bind_eq_ok_iff.1 h
      cases h
      rw [text, Expr.text, ihl hl, ihr hr]
      rfl
    | compare op => cases h
    | and => cases h

theorem eval_arithmetic (op : Arithmetic) (l r : BoundExpr) :
    (arithmetic op l r).eval t = (do
      let v ← l.eval t
      let w ← r.eval t
      (op.apply v w).mapError fun fault => fault.error (arithmetic op l r).text) := by
  rw [eval]
  congr 1
  funext v
  congr 1
  funext w
  cases op.apply v w <;> rfl

/-- **An evaluation meets what the integers say.** -/
theorem meets_eval (h : bind s e = .ok b) (ht : t.length = s.length) :
    e.Meets (s.intOf t) (b.eval t) := by
  induction e generalizing b with
  | column ref =>
    obtain ⟨i, hi, h⟩ := bind_eq_ok_iff.1 h
    cases h
    obtain ⟨v, hget, hv⟩ := Schema.exists_valueOf ht hi
    have hexact : (Expr.column ref).exactValue? (s.intOf t) = some v.toInt := by
      rw [Expr.exactValue?, Schema.intOf, hv, Option.map_some]
    rw [eval, hget]
    exact .atom rfl hexact
  | literal value =>
    cases h
    exact .atom rfl rfl
  | nested inner ih =>
    obtain ⟨i, hi, h⟩ := bind_eq_ok_iff.1 h
    cases h
    exact (ih hi).nested
  | binary op left right ihl ihr =>
    cases op with
    | compare op => cases h
    | and => cases h
    | arithmetic op =>
      have htext := text_of_bind h
      obtain ⟨l, hl, h⟩ := bind_eq_ok_iff.1 h
      obtain ⟨r, hr, h⟩ := bind_eq_ok_iff.1 h
      cases h
      rw [eval_arithmetic, htext]
      exact (ihl hl).operation (ihr hr)

/-- An evaluation yields the exact value if it and those of all subexpressions are in range. -/
theorem eval_eq_ok_iff {v : Value} (h : bind s e = .ok b) (ht : t.length = s.length) :
    b.eval t = .ok v ↔
      (∀ part ∈ e.postorder, part.Representable (s.intOf t)) ∧
        e.exactValue? (s.intOf t) = some v.toInt := by
  rw [← Expr.offending?_eq_none_iff]
  generalize hout : b.eval t = out
  have hmeets := meets_eval h ht
  rw [hout] at hmeets
  cases hmeets with
  | @value w hnone hexact =>
    rw [hexact, Except.ok.injEq, Option.some.injEq, Int64.toInt_inj]
    exact (and_iff_right hnone).symm
  | fault hsome => simp [hsome]

end BoundExpr

/-- **Checked arithmetic is exact.** Let an expression be bound to a schema. For each tuple of the
schema it has a value exactly if all of its subexpressions have one over the integers that is in
range, and none divides by zero; then its value is the exact one. Otherwise its evaluation ends at
the first subexpression, operands first, that divides by zero or whose value is out of range, with
the error that says which of the two it is and shows the text of that subexpression. -/
theorem eval_exact (h : BoundExpr.bind s e = .ok b) (ht : t.length = s.length) :
    (∀ v, b.eval t = .ok v ↔
      (∀ part ∈ e.postorder, part.Representable (s.intOf t)) ∧
        e.exactValue? (s.intOf t) = some v.toInt) ∧
    ∀ part, e.postorder.find? (¬ ·.Representable (s.intOf t)) = some part →
      b.eval t = .error (if part.DividesByZero (s.intOf t) then .divisionByZero part.text
        else .arithmeticOverflow part.text) := by
  refine ⟨fun v => BoundExpr.eval_eq_ok_iff h ht, ?_⟩
  intro part hpart
  generalize hout : b.eval t = out
  have hmeets := BoundExpr.meets_eval h ht
  rw [hout] at hmeets
  cases hmeets with
  | value hnone hexact => cases hnone.symm.trans hpart
  | fault hsome =>
    obtain rfl := Option.some.inj (hsome.symm.trans hpart)
    rfl

end Evaluation

/-! ### Quotients at the ends of the range -/

/-- The schema of a table with three columns. -/
def triples : Schema := .forTable "T" ["A", "B", "C"]

/-- The expression `(A / B) + A / C`. -/
def quotients : Expr :=
  .binary (.arithmetic .add)
    (.nested (.binary (.arithmetic .div) (.column ⟨none, "A"⟩) (.column ⟨none, "B"⟩)))
    (.binary (.arithmetic .div) (.column ⟨none, "A"⟩) (.column ⟨none, "C"⟩))

/-- The same expression, bound. -/
def boundQuotients : BoundExpr :=
  .arithmetic .add
    (.nested (.arithmetic .div (.column 0 ⟨none, "A"⟩) (.column 1 ⟨none, "B"⟩)))
    (.arithmetic .div (.column 0 ⟨none, "A"⟩) (.column 2 ⟨none, "C"⟩))

/-- Quotients are rounded toward zero. The smallest value has no quotient by `-1`, and this comes to
light before the other divisor does, which is zero. -/
theorem eval_exact_quotients :
    BoundExpr.bind triples quotients = .ok boundQuotients ∧
      (⟨[-7, 2, -2]⟩ : Tuple).length = triples.length ∧
      boundQuotients.eval ⟨[-7, 2, -2]⟩ = .ok 0 ∧
      (⟨[-9223372036854775808, -1, 0]⟩ : Tuple).length = triples.length ∧
      boundQuotients.eval ⟨[-9223372036854775808, -1, 0]⟩ = .error (.arithmeticOverflow "A / B") ∧
      (⟨[-9223372036854775808, 1, 0]⟩ : Tuple).length = triples.length ∧
      boundQuotients.eval ⟨[-9223372036854775808, 1, 0]⟩ = .error (.divisionByZero "A / C") := by
  have hbind : BoundExpr.bind triples quotients = .ok boundQuotients := by decide +kernel
  exact ⟨hbind, rfl, ((eval_exact hbind rfl).1 0).2 (by decide +kernel),
    rfl, (eval_exact hbind rfl).2 (.binary (.arithmetic .div) (.column ⟨none, "A"⟩)
      (.column ⟨none, "B"⟩)) (by decide +kernel),
    rfl, (eval_exact hbind rfl).2 (.binary (.arithmetic .div) (.column ⟨none, "A"⟩)
      (.column ⟨none, "C"⟩)) (by decide +kernel)⟩

end FlatQuery
