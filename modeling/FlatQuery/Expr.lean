import FlatQuery.Value

set_option autoImplicit false

/-! # Expressions

The expressions of the query language: columns, integer literals, binary operators, and parentheses,
which are kept because they show in messages. `Expr.text` prints an expression without adding
parentheses of its own. -/

namespace FlatQuery

/-- A reference to a column, with or without the table or alias that qualifies it. -/
structure ColumnRef where
  table : Option String
  column : String
  deriving DecidableEq, Repr, Inhabited

/-- The reference as written. -/
def ColumnRef.text (c : ColumnRef) : String :=
  match c.table with
  | some t => t ++ "." ++ c.column
  | none => c.column

/-- The comparisons of two integers. -/
inductive Comparison
  | eq | ne | lt | le | gt | ge
  deriving DecidableEq, Repr

/-- The arithmetic operations on two integers. -/
inductive Arithmetic
  | add | sub | mul | div
  deriving DecidableEq, Repr

/-- The binary operators. -/
inductive BinaryOp
  | compare (op : Comparison)
  | and
  | arithmetic (op : Arithmetic)
  deriving DecidableEq, Repr

/-- The symbol of a comparison. -/
def Comparison.symbol : Comparison → String
  | .eq => "="
  | .ne => "<>"
  | .lt => "<"
  | .le => "<="
  | .gt => ">"
  | .ge => ">="

/-- The symbol of an arithmetic operation. -/
def Arithmetic.symbol : Arithmetic → String
  | .add => "+"
  | .sub => "-"
  | .mul => "*"
  | .div => "/"

namespace BinaryOp

/-- The symbol of an operator. -/
def symbol : BinaryOp → String
  | compare op => op.symbol
  | and => "AND"
  | arithmetic op => op.symbol

/-- Whether an operator compares two integers. -/
def isComparison : BinaryOp → Bool
  | compare _ => true
  | _ => false

/-- Whether an operator computes an integer from two integers. -/
def isArithmetic : BinaryOp → Bool
  | arithmetic _ => true
  | _ => false

end BinaryOp

/-- An expression as written. -/
inductive Expr
  | column (ref : ColumnRef)
  | literal (value : Value)
  | binary (op : BinaryOp) (left right : Expr)
  | nested (inner : Expr)
  deriving DecidableEq, Repr, Inhabited

namespace Expr

/-- The text of an expression: operators between their operands with blanks around them. -/
def text : Expr → String
  | column ref => ref.text
  | literal value => value.text
  | binary op left right => left.text ++ " " ++ op.symbol ++ " " ++ right.text
  | nested inner => "(" ++ inner.text ++ ")"

/-- The expression `left AND right`. -/
abbrev and (left right : Expr) : Expr := binary .and left right

/-- The conjunction of a list of predicates, nested to the left. -/
def conjunction : List Expr → Option Expr
  | [] => none
  | e :: es => some (es.foldl and e)

/-- Whether the outermost operator, under any parentheses, yields a truth value. -/
def isPredicate : Expr → Bool
  | binary op _ _ => !op.isArithmetic
  | nested inner => inner.isPredicate
  | _ => false

/-- The column references from left to right. -/
def columns : Expr → List ColumnRef
  | column ref => [ref]
  | literal _ => []
  | binary _ left right => left.columns ++ right.columns
  | nested inner => inner.columns

end Expr

end FlatQuery
