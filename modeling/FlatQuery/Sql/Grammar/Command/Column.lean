import FlatQuery.Sql.Grammar.Command.Basic

set_option autoImplicit false

/-! # Columns and constraints

The definitions of the columns of a table, with what they say of their values, and the constraints
on the table as a whole. -/

namespace FlatQuery.Sql

namespace Grammar

open TokenParser

/-! ## Sequences of numbers -/

/-- Reads a bound of a sequence or that there is none, if one is next. -/
def sequenceBound (key : String) : TokenParser Unit := do
  if ← keyword? key then skip numberValue else skip (phrase? ["NO", key])

/-- Reads the options of a sequence, which stand in a certain order. -/
def sequenceOptions : TokenParser Unit := do
  skipAfter ["INCREMENT"] do
    skip (keyword? "BY")
    skip numberValue
  sequenceBound "MINVALUE"
  sequenceBound "MAXVALUE"
  skipAfter ["START"] do
    skip (keyword? "WITH")
    skip numberValue
  skipAfter ["CACHE"] numberValue
  skip (keyword? "NO")
  skip (keyword? "CYCLE")

/-! ## Options of columns -/

/-- Reads what happens to rows whose key changes or goes. -/
def referentialAction : TokenParser Unit := do
  if (← oneOf? ["RESTRICT", "CASCADE"]).isSome then return
  else if ← phrase? ["NO", "ACTION"] then return
  else
    keyword "SET"
    skip (oneOf ["NULL", "DEFAULT"])

/-- Reads what happens to rows where their key goes and where it changes, in either order. -/
def referentialActions : TokenParser Unit := do
  let on (event : String) : TokenParser Bool := do
    if ← phrase? ["ON", event] then found referentialAction else return false
  if ← on "DELETE" then skip (on "UPDATE")
  else if ← on "UPDATE" then skip (on "DELETE")

/-- Reads how the numbers of an identity are made. -/
def identity : TokenParser Unit := do
  if (← peekSign) = "(" then parenthesized sequenceOptions

/-- Reads how the values of a column are made, if it is told. -/
def generated (g : Grammar) : TokenParser Bool := do
  if ← phrase? ["ALWAYS", "AS", "IDENTITY"] then found identity
  else if ← phrase? ["BY", "DEFAULT", "AS", "IDENTITY"] then found identity
  else if ← phrase? ["ALWAYS", "AS"] then
    if (← peekSign) = "(" then found do
      skip (parenthesized g.expr)
      skip (oneOf? ["STORED", "VIRTUAL"])
    else return false
  else return false

/-- Reads an option of a column, if one is next. -/
def columnOption? (g : Grammar) : TokenParser Bool := do
  if ← phrase? ["CHARACTER", "SET"] then found dottedName
  else if ← phrase? ["NOT", "NULL"] then return true
  else if ← phrase? ["PRIMARY", "KEY"] then return true
  else if ← phrase? ["ON", "UPDATE"] then found g.expr
  else match ← oneOf? ["NULL", "UNIQUE", "AUTO_INCREMENT", "AUTOINCREMENT", "COMMENT", "DEFAULT",
      "CHECK", "REFERENCES", "GENERATED"] with
    | some "COMMENT" => found singleQuoted
    | some "DEFAULT" => found g.expr
    | some "CHECK" => found (parenthesized g.expr)
    | some "REFERENCES" => found do
      skip dottedName
      skip nameList?
      referentialActions
    | some "GENERATED" => g.generated
    | some _ => return true
    | none => return false

/-- Reads the definition of a column. -/
def columnDefinition (g : Grammar) : TokenParser Unit := do
  skip name
  skip DataType.any
  skipAfter ["COLLATE"] dottedName
  skipMany do
    if ← keyword? "CONSTRAINT" then
      skip name
      require (← g.columnOption?)
      return true
    else g.columnOption?

/-! ## Constraints -/

/-- Reads a constraint on a table, if one is next. -/
def tableConstraint? (g : Grammar) : TokenParser Bool := do
  let label ← after? ["CONSTRAINT"] name
  match ← oneOf? ["PRIMARY", "UNIQUE", "FOREIGN", "CHECK", "INDEX", "KEY", "FULLTEXT",
      "SPATIAL"] with
  | some "CHECK" => found (parenthesized g.expr)
  | some "FOREIGN" => found do
    keyword "KEY"
    skip nameList
    keyword "REFERENCES"
    skip dottedName
    skip nameList
    referentialActions
  | some "PRIMARY" | some "UNIQUE" => found do
    skip (keyword? "KEY")
    skip (attempt name)
    skip nameList
  | some "INDEX" | some "KEY" => found do
    if (← peekKey) ≠ "USING" then skip (attempt name)
    skipAfter ["USING"] (oneOf ["BTREE", "HASH"])
    skip nameList
  | some _ => found do
    require label.isNone
    skip (oneOf? ["KEY", "INDEX"])
    skip (attempt name)
    skip nameList
  | none =>
    require label.isNone
    return false

/-- Reads the definitions of columns and the constraints of a table, if a parenthesis is next. -/
def tableElements (g : Grammar) : TokenParser Unit := do
  if ← sign? "(" then
    if ¬ (← sign? ")") then skipClosed do
      if ¬ (← g.tableConstraint?) then
        match ← peek with
        | some (.word ..) => g.columnDefinition
        | _ => failure

end Grammar

end FlatQuery.Sql
