import FlatQuery.Sql.Grammar.Command.Basic

set_option autoImplicit false

/-! # Changes of rows

Commands that change the rows of tables, or copy rows between a table and a file. Rows that are
copied may stand in the text itself, behind the command and up to a backslash with a point behind
it. -/

namespace FlatQuery.Sql

namespace Grammar

open TokenParser

/-! ## Deletions and merges -/

/-- Reads a deletion. -/
def delete (g : Grammar) : TokenParser Unit := do
  if (← peekKey) ≠ "FROM" then dottedNames
  keyword "FROM"
  skip (commaSeparated g.source)
  skipAfter ["USING"] (commaSeparated g.source)
  g.conditionOf
  skip g.returning
  skip g.orderBy
  skipAfter ["LIMIT"] do
    if ← keyword? "ALL" then return else skip g.expr

/-- Reads what a merge does with one kind of rows. -/
def mergeClause (g : Grammar) : TokenParser Unit := do
  keyword "WHEN"
  let missing ← keyword? "NOT"
  keyword "MATCHED"
  skipAfter ["AND"] g.expr
  keyword "THEN"
  if missing then
    keyword "INSERT"
    skip nameList?
    keyword "VALUES"
    skip g.values
  else if ← keyword? "UPDATE" then
    keyword "SET"
    skip g.assignments
  else keyword "DELETE"

/-- Reads a merge of two tables. -/
def merge (g : Grammar) : TokenParser Unit := do
  skip (keyword? "INTO")
  skip g.factor
  keyword "USING"
  skip g.factor
  keyword "ON"
  skip g.expr
  skipMany do if (← peekKey) = "WHEN" then found g.mergeClause else return false
  require ((← peek).isNone ∨ (← peekSign) = ";")

/-- Reads the removal of all rows. -/
def truncate (g : Grammar) : TokenParser Unit := do
  skip (keyword? "TABLE")
  skip dottedName
  skipAfter ["PARTITION"] g.partition

/-! ## Copies -/

/-- Reads an option of a copy. -/
def copyOption : TokenParser Unit := do
  match ← oneOf ["FORMAT", "FREEZE", "HEADER", "DELIMITER", "QUOTE", "ESCAPE", "NULL", "ENCODING",
      "FORCE_QUOTE", "FORCE_NOT_NULL", "FORCE_NULL"] with
  | "FORMAT" => skip name
  | "FREEZE" | "HEADER" => skip (oneOf? ["TRUE", "FALSE"])
  | "DELIMITER" | "QUOTE" | "ESCAPE" => skip literalChar
  | "NULL" | "ENCODING" => skip literalText
  | _ => skip nameList

/-- Reads an option of a copy in the form of values with commas between them. -/
def csvOption : TokenParser Unit := do
  match ← oneOf ["HEADER", "QUOTE", "ESCAPE", "FORCE"] with
  | "HEADER" => return
  | "FORCE" =>
    if ¬ (← phrase? ["NOT", "NULL"]) then keyword "QUOTE"
    skip (commaSeparated name)
  | _ =>
    skip (keyword? "AS")
    skip literalChar

/-- Reads an option of a copy without parentheses around it. -/
def bareCopyOption : TokenParser Unit := do
  match ← oneOf ["BINARY", "DELIMITER", "NULL", "CSV"] with
  | "BINARY" => return
  | "DELIMITER" =>
    skip (keyword? "AS")
    skip literalChar
  | "NULL" =>
    skip (keyword? "AS")
    skip literalText
  | _ => skip (many (attempt csvOption))

/-- The tokens behind rows that stand in the text, which a backslash and a point end. A backslash in
front of another token takes it along. -/
def afterRows : List Token → List Token
  | .symbol "\\" :: .symbol "." :: rest => rest
  | .symbol "\\" :: _ :: rest => afterRows rest
  | _ :: rest => afterRows rest
  | [] => []

/-- Reads a copy of rows to a file or from one. The rows of a query can only go to a file. -/
def copy (g : Grammar) : TokenParser Unit := do
  let fromQuery ← sign? "("
  if fromQuery then
    skip g.query
    sign ")"
  else
    skip dottedName
    skip nameList?
  let direction ← oneOf ["FROM", "TO"]
  require (direction = "TO" ∨ ¬ fromQuery)
  let file ← oneOf? ["STDIN", "STDOUT", "PROGRAM"]
  if file.isNone ∨ file = some "PROGRAM" then skip literalText
  skip (keyword? "WITH")
  if (← peekSign) = "(" then skip (parenthesized (commaSeparated copyOption))
  skip (many (attempt bareCopyOption))
  if file = some "STDIN" then
    sign ";"
    modify afterRows

end Grammar

end FlatQuery.Sql
