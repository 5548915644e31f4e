import FlatQuery.Sql.Grammar
import FlatQuery.Sql.Lowering

set_option autoImplicit false

/-! # Reading queries

A query text is scanned, read and lowered. All of the text has to be well formed before it is asked
whether it says one statement, and that before it is asked whether the engine runs it. -/

namespace FlatQuery.Sql

/-- The statement that a query text says. -/
def read (text : String) : Except Error Statement :=
  match (Token.scan text).bind Grammar.read with
  | none => .error .malformedSql
  | some [sentence] => sentence.lower
  | some sentences =>
    .error (.parse ("expected exactly one statement, found " ++ toString sentences.length))

end FlatQuery.Sql
