import FlatQuery.Expr
import FlatQuery.Schema
import FlatQuery.Tuple

set_option autoImplicit false

/-! # Bound expressions

An expression is bound to a schema once: names become positions, and it is checked that arithmetic
and truth values stand where they belong. Afterwards it is evaluated tuple by tuple without a look
at names. Evaluation goes from left to right, and the right side of an AND is left alone when the
left side is false. -/

namespace FlatQuery

/-! ## Arithmetic on values -/

/-- The integer that an operation yields; division rounds toward zero. -/
def Arithmetic.onInt : Arithmetic → Int → Int → Int
  | .add, a, b => a + b
  | .sub, a, b => a - b
  | .mul, a, b => a * b
  | .div, a, b => a.tdiv b

/-- Why an operation yields no value. -/
inductive ArithmeticFault
  | zeroDivisor
  | outOfRange
  deriving DecidableEq, Repr

/-- The error that a fault is in the expression `node`. -/
def ArithmeticFault.error (node : String) : ArithmeticFault → Error
  | zeroDivisor => .divisionByZero node
  | outOfRange => .arithmeticOverflow node

/-- Carries out an operation, or tells why its result is no value. -/
def Arithmetic.apply (op : Arithmetic) (l r : Value) : Except ArithmeticFault Value :=
  if op = .div ∧ r.toInt = 0 then .error .zeroDivisor
  else match Value.ofInt? (op.onInt l.toInt r.toInt) with
    | some v => .ok v
    | none => .error .outOfRange

/-- Whether a comparison holds. -/
def Comparison.holds : Comparison → Int → Int → Bool
  | .eq, a, b => a == b
  | .ne, a, b => a != b
  | .lt, a, b => a < b
  | .le, a, b => a ≤ b
  | .gt, a, b => b < a
  | .ge, a, b => b ≤ a

/-! ## Integer expressions -/

/-- An integer expression whose columns are positions. The reference is kept for messages. -/
inductive BoundExpr
  | column (index : Nat) (ref : ColumnRef)
  | literal (value : Value)
  | arithmetic (op : Arithmetic) (left right : BoundExpr)
  | nested (inner : BoundExpr)
  deriving DecidableEq, Repr

namespace BoundExpr

/-- The text of the expression that was bound. -/
def text : BoundExpr → String
  | column _ ref => ref.text
  | literal value => value.text
  | arithmetic op left right => left.text ++ " " ++ op.symbol ++ " " ++ right.text
  | nested inner => "(" ++ inner.text ++ ")"

/-- Binds an integer expression. -/
def bind (schema : Schema) : Expr → Except Error BoundExpr
  | .column ref => do
    let index ← schema.indexOf ref.table ref.column
    return column index ref
  | .literal value => .ok (literal value)
  | .binary (.arithmetic op) left right => do
    let l ← bind schema left
    let r ← bind schema right
    return arithmetic op l r
  | e@(.binary _ _ _) => .error (.typeMismatch .integer e.text)
  | .nested inner => do
    let i ← bind schema inner
    return nested i

/-- The value of an expression for a tuple. -/
def eval (t : Tuple) : BoundExpr → Except Error Value
  | column index ref =>
    match t.get? index with
    | some v => .ok v
    | none => .error (.columnIndexOutOfRange ref.text index t.length)
  | literal value => .ok value
  | e@(arithmetic op left right) => do
    let l ← left.eval t
    let r ← right.eval t
    match op.apply l r with
    | .ok v => return v
    | .error fault => throw (fault.error e.text)
  | nested inner => inner.eval t

end BoundExpr

/-! ## Truth values -/

/-- A predicate whose columns are positions; its parentheses are dropped. -/
inductive BoundPredicate
  | compare (op : Comparison) (left right : BoundExpr)
  | and (left right : BoundPredicate)
  deriving DecidableEq, Repr

namespace BoundPredicate

/-- Binds a predicate. -/
def bind (schema : Schema) : Expr → Except Error BoundPredicate
  | .binary (.compare op) left right => do
    let l ← BoundExpr.bind schema left
    let r ← BoundExpr.bind schema right
    return compare op l r
  | .binary .and left right => do
    let l ← bind schema left
    let r ← bind schema right
    return and l r
  | .nested inner => bind schema inner
  | e => .error (.typeMismatch .boolean e.text)

/-- The truth value of a predicate for a tuple. -/
def eval (t : Tuple) : BoundPredicate → Except Error Bool
  | compare op left right => do
    let l ← left.eval t
    let r ← right.eval t
    return op.holds l.toInt r.toInt
  | and left right => do
    if ← left.eval t then right.eval t else return false

end BoundPredicate

/-- A predicate together with the expression it was bound from. -/
structure Predicate where
  expr : Expr
  bound : BoundPredicate
  deriving DecidableEq, Repr

namespace Predicate

/-- Binds a predicate and keeps its expression. -/
def bind (schema : Schema) (expr : Expr) : Except Error Predicate := do
  let bound ← BoundPredicate.bind schema expr
  return ⟨expr, bound⟩

/-- The predicate as written. -/
def text (p : Predicate) : String := p.expr.text

/-- The truth value of a predicate for a tuple. -/
def eval (p : Predicate) (t : Tuple) : Except Error Bool := p.bound.eval t

end Predicate

end FlatQuery
