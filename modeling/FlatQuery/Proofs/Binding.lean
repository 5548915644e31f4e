import FlatQuery.Proofs.Exact
import FlatQuery.Proofs.Phases
import FlatQuery.Proofs.Resolution

set_option autoImplicit false

/-! # Binding

Which expressions bind as integers and which as truth values, and that none does as both. Bound
forms have operators of their own kind by construction. What binding is good for shows on the loose
forms, whose operators may be any: evaluation is stuck where an operator of another kind stands.
Binding to a loose form makes the same checks and yields the same form (`LooseExpr.bind_eq`), and
that is evaluated as before (`BoundExpr.eval_loose`). So no evaluation of a form that binding yields
is ever stuck. The main result is `binds_soundly`. -/

namespace FlatQuery

/-! ## Kinds of expressions -/

namespace Expr

variable {s s' : Schema} {e : Expr}

/-- Whether an expression is, through any parentheses and conjunctions, made of comparisons of
arithmetic expressions. -/
def IsCondition : Expr → Prop
  | binary (.compare _) left right => left.IsArithmetic ∧ right.IsArithmetic
  | binary .and left right => left.IsCondition ∧ right.IsCondition
  | nested inner => inner.IsCondition
  | _ => False

theorem isPredicate_of_isArithmetic (h : e.IsArithmetic) : e.isPredicate = false := by
  induction e with
  | column ref => rfl
  | literal value => rfl
  | binary op left right ihl ihr =>
    cases op with
    | arithmetic op => rfl
    | compare op => cases h
    | and => cases h
  | nested inner ih => exact ih h

theorem isPredicate_of_isCondition (h : e.IsCondition) : e.isPredicate = true := by
  induction e with
  | column ref => cases h
  | literal value => cases h
  | binary op left right ihl ihr =>
    cases op with
    | arithmetic op => cases h
    | compare op => rfl
    | and => rfl
  | nested inner ih => exact ih h

theorem not_isCondition_of_isArithmetic (h : e.IsArithmetic) : ¬ e.IsCondition := by
  intro hcondition
  cases (isPredicate_of_isArithmetic h).symm.trans (isPredicate_of_isCondition hcondition)

/-- An expression binds as a truth value exactly if it is a condition whose columns resolve. -/
theorem binds_iff_isCondition :
    e.Binds s ↔ e.IsCondition ∧ ∀ ref ∈ e.columns, s.Resolves ref := by
  induction e with
  | column ref =>
    constructor
    · rintro ⟨b, hb⟩
      cases hb
    · rintro ⟨h, -⟩
      cases h
  | literal value =>
    constructor
    · rintro ⟨b, hb⟩
      cases hb
    · rintro ⟨h, -⟩
      cases h
  | nested inner ih =>
    unfold Binds BoundPredicate.bind
    exact ih
  | binary op left right ihl ihr =>
    cases op with
    | arithmetic op =>
      constructor
      · rintro ⟨b, hb⟩
        cases hb
      · rintro ⟨h, -⟩
        cases h
    | compare op => exact binds_iff rfl
    | and =>
      rw [binds_and, ihl, ihr, columns, List.forall_mem_append]
      exact and_and_and_comm

end Expr

/-! ## Loose forms -/

/-- How an evaluation ends that does not trust its operators. -/
inductive Halt
  | error (e : Error)
  /-- An operator stands where one of another kind is needed. -/
  | stuck
  deriving DecidableEq, Repr

/-- A bound integer expression whose operators may be any. -/
inductive LooseExpr
  | column (index : Nat) (ref : ColumnRef)
  | literal (value : Value)
  | binary (op : BinaryOp) (left right : LooseExpr)
  | nested (inner : LooseExpr)
  deriving DecidableEq, Repr

namespace LooseExpr

/-- The text of the expression that was bound. -/
def text : LooseExpr → String
  | column _ ref => ref.text
  | literal value => value.text
  | binary op left right => left.text ++ " " ++ op.symbol ++ " " ++ right.text
  | nested inner => "(" ++ inner.text ++ ")"

/-- Binds an integer expression, and checks its operators on the way. -/
def bind (schema : Schema) : Expr → Except Error LooseExpr
  | .column ref => do
    let index ← schema.indexOf ref.table ref.column
    return column index ref
  | .literal value => .ok (literal value)
  | e@(.binary op left right) =>
    if op.isArithmetic then do
      let l ← bind schema left
      let r ← bind schema right
      return binary op l r
    else .error (.typeMismatch .integer e.text)
  | .nested inner => do
    let i ← bind schema inner
    return nested i

/-- Carries out an operation of the expression `e`, if it is one of arithmetic. -/
def apply (e : LooseExpr) : BinaryOp → Value → Value → Except Halt Value
  | .arithmetic op, l, r => (op.apply l r).mapError fun fault => .error (fault.error e.text)
  | _, _, _ => .error .stuck

/-- The value of an expression for a tuple. -/
def eval (t : Tuple) : LooseExpr → Except Halt Value
  | column index ref =>
    match t.get? index with
    | some v => .ok v
    | none => .error (.error (.columnIndexOutOfRange ref.text index t.length))
  | literal value => .ok value
  | e@(binary op left right) => do
    let l ← left.eval t
    let r ← right.eval t
    e.apply op l r
  | nested inner => inner.eval t

end LooseExpr

/-- A bound predicate whose comparisons may be any operators. -/
inductive LoosePredicate
  | compare (op : BinaryOp) (left right : LooseExpr)
  | and (left right : LoosePredicate)
  deriving DecidableEq, Repr

namespace LoosePredicate

/-- Binds a predicate, and checks its operators on the way. -/
def bind (schema : Schema) : Expr → Except Error LoosePredicate
  | e@(.binary op left right) =>
    if op.isComparison then do
      let l ← LooseExpr.bind schema left
      let r ← LooseExpr.bind schema right
      return compare op l r
    else if op = .and then do
      let l ← bind schema left
      let r ← bind schema right
      return and l r
    else .error (.typeMismatch .boolean e.text)
  | .nested inner => bind schema inner
  | e => .error (.typeMismatch .boolean e.text)

/-- Carries out a comparison. -/
def apply : BinaryOp → Value → Value → Except Halt Bool
  | .compare op, l, r => .ok (op.holds l.toInt r.toInt)
  | _, _, _ => .error .stuck

/-- The truth value of a predicate for a tuple. -/
def eval (t : Tuple) : LoosePredicate → Except Halt Bool
  | compare op left right => do
    let l ← left.eval t
    let r ← right.eval t
    apply op l r
  | and left right => do
    if ← left.eval t then right.eval t else return false

end LoosePredicate

/-! ## Bound forms as loose forms -/

/-- A bound expression that forgets of what kind its operators are. -/
def BoundExpr.loose : BoundExpr → LooseExpr
  | column index ref => .column index ref
  | literal value => .literal value
  | arithmetic op left right => .binary (.arithmetic op) left.loose right.loose
  | nested inner => .nested inner.loose

/-- A bound predicate that forgets of what kind its operators are. -/
def BoundPredicate.loose : BoundPredicate → LoosePredicate
  | compare op left right => .compare (.compare op) left.loose right.loose
  | and left right => .and left.loose right.loose

theorem BoundExpr.text_loose (b : BoundExpr) : b.loose.text = b.text := by
  induction b with
  | column index ref => rfl
  | literal value => rfl
  | arithmetic op left right ihl ihr => rw [loose, LooseExpr.text, text, ihl, ihr]; rfl
  | nested inner ih => rw [loose, LooseExpr.text, text, ih]

section Loose

variable {s : Schema} {t : Tuple}

/-- Binding makes the same checks and yields the same form, whether that remembers them or not. -/
theorem LooseExpr.bind_eq (s : Schema) (e : Expr) :
    LooseExpr.bind s e = (BoundExpr.bind s e).map BoundExpr.loose := by
  induction e with
  | column ref =>
    unfold bind BoundExpr.bind
    cases s.indexOf ref.table ref.column <;> rfl
  | literal value => rfl
  | binary op left right ihl ihr =>
    cases op with
    | arithmetic op =>
      simp only [bind, BoundExpr.bind, BinaryOp.isArithmetic, if_true, ihl, ihr]
      cases BoundExpr.bind s left with
      | error e => rfl
      | ok l => cases BoundExpr.bind s right <;> rfl
    | compare op => rfl
    | and => rfl
  | nested inner ih =>
    simp only [bind, BoundExpr.bind, ih]
    cases BoundExpr.bind s inner <;> rfl

theorem LoosePredicate.bind_eq (s : Schema) (e : Expr) :
    LoosePredicate.bind s e = (BoundPredicate.bind s e).map BoundPredicate.loose := by
  induction e with
  | column ref => rfl
  | literal value => rfl
  | binary op left right ihl ihr =>
    cases op with
    | arithmetic op => rfl
    | compare op =>
      simp only [bind, BoundPredicate.bind, BinaryOp.isComparison, if_true, LooseExpr.bind_eq]
      cases BoundExpr.bind s left with
      | error e => rfl
      | ok l => cases BoundExpr.bind s right <;> rfl
    | and =>
      simp only [bind, BoundPredicate.bind, BinaryOp.isComparison, Bool.false_eq_true, if_false,
        if_true, ihl, ihr]
      cases BoundPredicate.bind s left with
      | error e => rfl
      | ok l => cases BoundPredicate.bind s right <;> rfl
  | nested inner ih => exact ih

/-- A bound expression is never stuck: its loose form has the same value or the same error. -/
theorem BoundExpr.eval_loose (b : BoundExpr) (t : Tuple) :
    b.loose.eval t = (b.eval t).mapError Halt.error := by
  induction b with
  | column index ref =>
    simp only [loose, LooseExpr.eval, eval]
    cases t.get? index <;> rfl
  | literal value => rfl
  | arithmetic op left right ihl ihr =>
    rw [eval_arithmetic, ← text_loose (arithmetic op left right)]
    simp only [loose, LooseExpr.eval, ihl, ihr]
    cases left.eval t with
    | error e => rfl
    | ok l =>
      cases right.eval t with
      | error e => rfl
      | ok r =>
        show (op.apply l r).mapError _ = ((op.apply l r).mapError _).mapError _
        cases op.apply l r <;> rfl
  | nested inner ih => exact ih

theorem BoundPredicate.eval_loose (b : BoundPredicate) (t : Tuple) :
    b.loose.eval t = (b.eval t).mapError Halt.error := by
  induction b with
  | compare op left right =>
    simp only [loose, LoosePredicate.eval, eval, BoundExpr.eval_loose]
    cases left.eval t with
    | error e => rfl
    | ok l => cases right.eval t <;> rfl
  | and left right ihl ihr =>
    simp only [loose, LoosePredicate.eval, eval, ihl, ihr]
    cases left.eval t with
    | error e => rfl
    | ok v => cases v <;> rfl

/-! ## Soundness -/

theorem not_stuck_mapError {α : Type} (x : Except Error α) :
    x.mapError Halt.error ≠ .error .stuck := by
  cases x <;> exact nofun

theorem LooseExpr.not_stuck_of_bind {e : Expr} {b : LooseExpr} (h : LooseExpr.bind s e = .ok b)
    (t : Tuple) : b.eval t ≠ .error .stuck := by
  rw [bind_eq] at h
  obtain ⟨bound, -, rfl⟩ := map_eq_ok_iff.1 h
  rw [BoundExpr.eval_loose]
  exact not_stuck_mapError _

theorem LoosePredicate.not_stuck_of_bind {e : Expr} {b : LoosePredicate}
    (h : LoosePredicate.bind s e = .ok b) (t : Tuple) : b.eval t ≠ .error .stuck := by
  rw [bind_eq] at h
  obtain ⟨bound, -, rfl⟩ := map_eq_ok_iff.1 h
  rw [BoundPredicate.eval_loose]
  exact not_stuck_mapError _

end Loose

/-- What is right about an expression that is bound to a schema, as either kind. -/
structure BindsSoundly (s : Schema) (e : Expr) : Prop where
  integer : (∃ b, BoundExpr.bind s e = .ok b) ↔
    e.IsArithmetic ∧ ∀ ref ∈ e.columns, s.Resolves ref
  boolean : (∃ b, BoundPredicate.bind s e = .ok b) ↔
    e.IsCondition ∧ ∀ ref ∈ e.columns, s.Resolves ref
  /-- What binds as one kind binds as the other one to no schema. -/
  exclusive : ∀ s' b, BoundExpr.bind s e = .ok b → ∀ b', BoundPredicate.bind s' e ≠ .ok b'
  integer_form : ∀ b, BoundExpr.bind s e = .ok b →
    b.text = e.text ∧ b.Below s.length ∧ e.isPredicate = false
  boolean_form : ∀ b, BoundPredicate.bind s e = .ok b → b.Below s.length ∧ e.isPredicate = true
  /-- Without trust in the operators there are the same forms with the same values and errors, and
  none is stuck on a tuple of whatever length. -/
  integer_loose : LooseExpr.bind s e = (BoundExpr.bind s e).map BoundExpr.loose ∧
    (∀ b t, BoundExpr.bind s e = .ok b → b.loose.eval t = (b.eval t).mapError Halt.error) ∧
    ∀ b t, LooseExpr.bind s e = .ok b → b.eval t ≠ .error .stuck
  boolean_loose : LoosePredicate.bind s e = (BoundPredicate.bind s e).map BoundPredicate.loose ∧
    (∀ b t, BoundPredicate.bind s e = .ok b → b.loose.eval t = (b.eval t).mapError Halt.error) ∧
    ∀ b t, LoosePredicate.bind s e = .ok b → b.eval t ≠ .error .stuck

/-- **Binding is sound.** An expression binds as an integer exactly if it is made of arithmetic
operations, and as a truth value exactly if it is a condition over such expressions, provided that
all columns resolve; so it never binds as both. Its bound form has positions of the schema only, and
no evaluation is stuck at an operator of the wrong kind. -/
theorem binds_soundly (s : Schema) (e : Expr) : BindsSoundly s e where
  integer := Expr.exists_bind_iff_isArithmetic
  boolean := Expr.binds_iff_isCondition
  exclusive _ b hb b' hb' :=
    Expr.not_isCondition_of_isArithmetic (Expr.exists_bind_iff_isArithmetic.1 ⟨b, hb⟩).1
      (Expr.binds_iff_isCondition.1 ⟨b', hb'⟩).1
  integer_form b hb :=
    ⟨BoundExpr.text_of_bind hb, BoundExpr.below_of_bind hb,
      Expr.isPredicate_of_isArithmetic (Expr.exists_bind_iff_isArithmetic.1 ⟨b, hb⟩).1⟩
  boolean_form b hb :=
    ⟨BoundPredicate.below_of_bind hb,
      Expr.isPredicate_of_isCondition (Expr.binds_iff_isCondition.1 ⟨b, hb⟩).1⟩
  integer_loose :=
    ⟨LooseExpr.bind_eq s e, fun b t _ => b.eval_loose t,
      fun _ t h => LooseExpr.not_stuck_of_bind h t⟩
  boolean_loose :=
    ⟨LoosePredicate.bind_eq s e, fun b t _ => b.eval_loose t,
      fun _ t h => LoosePredicate.not_stuck_of_bind h t⟩

/-- A comparison in parentheses binds as a truth value only. -/
theorem binds_soundly_nested :
    let e : Expr := .nested (.binary (.compare .lt) (.column ⟨none, "A"⟩) (.literal 1))
    (∃ b, BoundPredicate.bind ⟨[⟨"T", "A"⟩]⟩ e = .ok b) ∧
      ¬ ∃ b, BoundExpr.bind ⟨[⟨"T", "A"⟩]⟩ e = .ok b :=
  ⟨(binds_soundly _ _).boolean.2 ⟨⟨trivial, trivial⟩, by decide⟩,
    fun h => ((binds_soundly _ _).integer.1 h).1⟩

/-- A loose form that no binding yields is stuck at its operator. -/
example : (LooseExpr.binary .and (.literal 1) (.literal 2)).eval ⟨[]⟩ = .error .stuck := rfl

end FlatQuery
