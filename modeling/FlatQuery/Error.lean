set_option autoImplicit false

/-! # Errors

Every way in which a query can fail, as a cause with the data that its message shows. A cause
belongs to one of two phases: planning fails before a tuple is read, execution while tuples are
pulled. -/

namespace FlatQuery

/-- The kind of expression that a place asks for. -/
inductive ExprKind
  | integer
  | boolean
  deriving DecidableEq, Repr

/-- The word for an expression kind in messages. -/
def ExprKind.text : ExprKind → String
  | .integer => "integer"
  | .boolean => "boolean"

/-- When an error arises. -/
inductive Phase
  /-- While a plan is built, before any tuple is read. -/
  | planning
  /-- While tuples are pulled through a plan. -/
  | execution
  deriving DecidableEq, Repr

/-- The causes of failure. -/
inductive Error
  /-- A construct of the query language that the engine does not run. -/
  | unsupported (feature : String)
  /-- The text holds no single statement. -/
  | parse (message : String)
  /-- The text is not a sequence of well-formed statements. -/
  | malformedSql
  /-- A name resolves to no registered table. -/
  | tableNotFound (name : String)
  /-- A table name or alias stands twice in one FROM list. -/
  | duplicateTable (name : String)
  /-- A column reference matches no column. -/
  | columnNotFound (table : Option String) (column : String)
  /-- A qualified column reference matches several columns. -/
  | ambiguousColumn (table column : String)
  /-- A column would stand twice in one schema. -/
  | duplicateColumn (table column : String)
  /-- An expression of one kind stands where the other kind is needed. -/
  | typeMismatch (expected : ExprKind) (expr : String)
  /-- No step of the join tree can evaluate a join predicate. -/
  | unsatisfiablePredicate (predicate : String)
  /-- A schema description or registration is invalid. -/
  | invalidSchema (message : String)
  /-- A file cannot be opened, read or written. -/
  | io (path message : String)
  /-- A line of a data file is not a tuple of the table. -/
  | malformedTuple (path : String) (line : Nat) (message : String)
  /-- A bound position lies outside the tuple at hand. -/
  | columnIndexOutOfRange (column : String) (index arity : Nat)
  /-- A divisor is zero. -/
  | divisionByZero (expr : String)
  /-- The result of an operation is no 64-bit value. -/
  | arithmeticOverflow (expr : String)
  deriving DecidableEq, Repr

namespace Error

/-- The phase that an error belongs to. -/
def phase : Error → Phase
  | io .. | malformedTuple .. | columnIndexOutOfRange .. | divisionByZero ..
  | arithmeticOverflow .. =>
    .execution
  | _ => .planning

/-- The text that reports an error. -/
def message : Error → String
  | unsupported feature => "Unsupported feature: " ++ feature
  | parse message => "Parse error: " ++ message
  | malformedSql => "Parse error: malformed statement"
  | tableNotFound name => "Table not found: " ++ name
  | duplicateTable name => "Table " ++ name ++ " appears more than once in FROM"
  | columnNotFound (some table) column => "Column " ++ table ++ "." ++ column ++ " not found"
  | columnNotFound none column => "Column " ++ column ++ " not found"
  | ambiguousColumn table column => "Column " ++ table ++ "." ++ column ++ " is ambiguous"
  | duplicateColumn table column => "Duplicate column " ++ table ++ "." ++ column ++ " in schema"
  | typeMismatch expected expr =>
    "Type mismatch: expected " ++ expected.text ++ " expression, got " ++ expr
  | unsatisfiablePredicate predicate =>
    "Join predicate cannot be placed in the join tree: " ++ predicate
  | invalidSchema message => "Invalid schema: " ++ message
  | io path message => "I/O error on " ++ path ++ ": " ++ message
  | malformedTuple path line message =>
    "Malformed tuple at " ++ path ++ ":" ++ toString line ++ ": " ++ message
  | columnIndexOutOfRange column index arity =>
    "Column " ++ column ++ " resolved to position " ++ toString index ++ " but tuple has "
      ++ toString arity ++ " values"
  | divisionByZero expr => "Division by zero in " ++ expr
  | arithmeticOverflow expr => "Integer overflow in " ++ expr

end Error

end FlatQuery
