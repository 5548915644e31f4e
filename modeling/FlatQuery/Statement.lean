import FlatQuery.Expr

set_option autoImplicit false

/-! # Statements

What the planner is given: one SELECT block, or a set operation, which it refuses. Tables derived
from a statement can be written down in a FROM list so that the planner can refuse them by name. -/

namespace FlatQuery

/-- A table of a FROM list with its alias. -/
structure TableRef where
  name : String
  «alias» : Option String
  deriving DecidableEq, Repr, Inhabited

/-- The name that qualifies the columns of a table: the alias if there is one. -/
def TableRef.qualifier (t : TableRef) : String := t.alias.getD t.name

/-- An item of a SELECT list. -/
inductive SelectItem
  | wildcard
  | expr (e : Expr)
  deriving DecidableEq, Repr

/-- The set operators. -/
inductive SetOperator
  | union | intersect | except
  deriving DecidableEq, Repr

/-- The keyword of a set operator. -/
def SetOperator.keyword : SetOperator → String
  | union => "UNION"
  | intersect => "INTERSECT"
  | except => "EXCEPT"

mutual

/-- An entry of a FROM list. -/
inductive FromItem
  | table (ref : TableRef)
  | subquery (query : Statement) («alias» : Option String)

/-- A joined entry with its condition. -/
structure JoinItem where
  right : FromItem
  on : Option Expr

/-- A SELECT block. Its FROM list is `first` followed by the joined entries. -/
structure Select where
  /-- Whether repeated rows are removed. -/
  distinct : Bool
  items : List SelectItem
  first : FromItem
  joins : List JoinItem
  /-- The WHERE condition. -/
  condition : Option Expr
  orderBy : List ColumnRef

/-- A query. -/
inductive Statement
  | select (block : Select)
  | setOperation (op : SetOperator) (left right : Statement)

end

instance : Inhabited FromItem := ⟨.table default⟩

instance : Inhabited Statement := ⟨.select ⟨false, [], default, [], none, []⟩⟩

/-- All entries of the FROM list in the order written. -/
def Select.fromItems (s : Select) : List FromItem := s.first :: s.joins.map JoinItem.right

/-- All conditions on the rows in the order in which they are applied: WHERE, then the ON conditions
from left to right. -/
def Select.conditions (s : Select) : List Expr :=
  s.condition.toList ++ s.joins.filterMap JoinItem.on

end FlatQuery
