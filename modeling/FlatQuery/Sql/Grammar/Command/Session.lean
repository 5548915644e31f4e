import FlatQuery.Sql.Grammar.Command.Basic

set_option autoImplicit false

/-! # Commands of a session

Transactions, privileges, settings, requests for information, prepared statements and cursors. -/

namespace FlatQuery.Sql

namespace Grammar

open TokenParser

/-! ## Transactions -/

/-- Reads a mode of a transaction, if one is next. -/
def transactionMode? : TokenParser Bool := do
  if ← phrase? ["ISOLATION", "LEVEL"] then
    if ← phrase? ["READ", "UNCOMMITTED"] then return true
    else if ← phrase? ["READ", "COMMITTED"] then return true
    else if ← phrase? ["REPEATABLE", "READ"] then return true
    else found (keyword "SERIALIZABLE")
  else if ← phrase? ["READ", "ONLY"] then return true
  else phrase? ["READ", "WRITE"]

/-- Reads the modes of a transaction, with or without commas between them. -/
def transactionModes : TokenParser Unit := do
  if ← transactionMode? then
    skipMany do
      let required ← sign? ","
      let more ← transactionMode?
      require (more ∨ ¬ required)
      return more

/-- Reads the beginning of a transaction. -/
def begin : TokenParser Unit := do
  skip (oneOf? ["TRANSACTION", "WORK"])
  transactionModes

/-- Reads the end of a transaction. -/
def commit : TokenParser Unit := do
  skip (oneOf? ["TRANSACTION", "WORK"])
  skipAfter ["AND"] do
    skip (keyword? "NO")
    keyword "CHAIN"

/-- Reads the withdrawal of a transaction. -/
def rollback : TokenParser Unit := do
  commit
  skipAfter ["TO"] do
    skip (keyword? "SAVEPOINT")
    skip name

/-! ## Privileges -/

/-- Reads privileges and the objects that they are for. -/
def privileges : TokenParser Unit := do
  if ← keyword? "ALL" then skip (keyword? "PRIVILEGES")
  else
    skip (commaSeparated do
      if (← oneOf? ["INSERT", "REFERENCES", "SELECT", "UPDATE"]).isSome then skip nameList?
      else skip (oneOf [
        "CONNECT", "CREATE", "DELETE", "EXECUTE", "TEMPORARY", "TRIGGER", "TRUNCATE", "USAGE"]))
  keyword "ON"
  if ← phrase? ["ALL", "TABLES", "IN", "SCHEMA"] then dottedNames
  else if ← phrase? ["ALL", "SEQUENCES", "IN", "SCHEMA"] then dottedNames
  else
    skip (oneOf? ["SEQUENCE", "SCHEMA", "TABLE"])
    dottedNames

/-- Reads the granting of privileges. -/
def grant : TokenParser Unit := do
  privileges
  keyword "TO"
  skip (commaSeparated name)
  skip (phrase? ["WITH", "GRANT", "OPTION"])
  skipAfter ["GRANTED", "BY"] name

/-- Reads the withdrawal of privileges. -/
def revoke : TokenParser Unit := do
  privileges
  keyword "FROM"
  skip (commaSeparated name)
  skipAfter ["GRANTED", "BY"] name
  let cascade ← keyword? "CASCADE"
  let restrict ← keyword? "RESTRICT"
  require (¬ (cascade ∧ restrict))

/-! ## Settings -/

/-- Reads the name of a variable. -/
def variableName : TokenParser String := do
  if ← phrase? ["TIME", "ZONE"] then return "TIMEZONE" else return dotted (← dottedName)

/-- Reads what a variable is set to. Some variables need no sign in front of it. -/
def variableValue (g : Grammar) (modifier : Option String) (variable_ : String) :
    TokenParser Unit := do
  if variable_.toUpper = "NAMES" then
    if ← keyword? "DEFAULT" then return
    else
      skip literalText
      skipAfter ["COLLATE"] literalText
  else if ← sign? "=" then skip g.exprTexts
  else if ← keyword? "TO" then skip g.exprTexts
  else if variable_.toUpper = "TIMEZONE" then skip g.expr
  else if variable_ = "CHARACTERISTICS" then
    phrase ["AS", "TRANSACTION"]
    transactionModes
  else
    require (variable_ = "TRANSACTION" ∧ modifier.isNone)
    if ← keyword? "SNAPSHOT" then skip literal else transactionModes

/-- Reads the setting of a variable or of a role. -/
def setVariable (g : Grammar) : TokenParser Unit := do
  let modifier ← oneOf? ["SESSION", "LOCAL", "HIVEVAR"]
  if modifier = some "HIVEVAR" then
    sign ":"
    g.variableValue modifier (← variableName)
  else if ← keyword? "ROLE" then skip name
  else g.variableValue modifier (← variableName)

/-! ## Information -/

/-- Skips all tokens up to an equals sign. -/
def skipToEquals : TokenParser Unit := modify (·.dropWhile (· ≠ .symbol "="))

/-- Reads a condition on what is shown, if one is next. -/
def showFilter (g : Grammar) : TokenParser Unit := do
  match ← oneOf? ["LIKE", "ILIKE", "WHERE"] with
  | some "WHERE" => skip g.expr
  | some _ => skip literalText
  | none => return

/-- Reads where something is looked for, if it is told. -/
def showPlace : TokenParser Unit := do
  if (← oneOf? ["FROM", "IN"]).isSome then skip name

/-- Reads a request for information. -/
def «show» (g : Grammar) : TokenParser Unit := do
  let extended ← keyword? "EXTENDED"
  let full ← keyword? "FULL"
  skip (keyword? "SESSION")
  skip (keyword? "GLOBAL")
  match ← oneOf? ["COLUMNS", "FIELDS", "TABLES", "FUNCTIONS"] with
  | some "FUNCTIONS" => g.showFilter
  | some "TABLES" =>
    showPlace
    g.showFilter
  | some _ =>
    skip (oneOf ["FROM", "IN"])
    skip dottedName
    showPlace
    g.showFilter
  | none =>
    require (¬ (extended ∨ full))
    match ← oneOf? ["CREATE", "COLLATION", "VARIABLES"] with
    | some "CREATE" =>
      skip (oneOf ["TABLE", "TRIGGER", "FUNCTION", "PROCEDURE", "EVENT", "VIEW"])
      skip dottedName
    | some _ => g.showFilter
    | none => skipToEquals

/-- Reads the request for an analysis of a table. -/
def analyze (g : Grammar) : TokenParser Unit := do
  keyword "TABLE"
  skip dottedName
  skipMany do
    match ← oneOf? ["PARTITION", "NOSCAN", "FOR", "CACHE", "COMPUTE"] with
    | some "PARTITION" => found g.partition
    | some "FOR" => found do
      keyword "COLUMNS"
      skip (attempt (commaSeparated name))
    | some "CACHE" => found (keyword "METADATA")
    | some "COMPUTE" => found (keyword "STATISTICS")
    | some _ => return true
    | none => return false

/-- Reads the request for a check of the partitions of a table. -/
def checkPartitions : TokenParser Unit := do
  skip (keyword? "REPAIR")
  keyword "TABLE"
  skip dottedName
  skip (attempt do
    skip (oneOf? ["ADD", "DROP", "SYNC"])
    keyword "PARTITIONS")

/-- Reads the request to keep a table at hand, or the rows of a query as a table. -/
def cache (g : Grammar) : TokenParser Unit := do
  if (← peekKey) ≠ "TABLE" then skip dottedName
  keyword "TABLE"
  skip dottedName
  options "OPTIONS"
  match ← peek with
  | none => return
  | some (.word ..) =>
    skip (keyword? "AS")
    skip g.query
  | some _ => failure

/-- Reads the request to keep a table at hand no longer. Nothing may follow it. -/
def uncache : TokenParser Unit := do
  keyword "TABLE"
  ifExists
  skip dottedName
  require (← peek).isNone

/-- Reads a request to the engine itself, with or without a value. -/
def pragma : TokenParser Unit := do
  skip dottedName
  if (← peekSign) = "(" then skip (parenthesized numberValue)
  else if ← sign? "=" then skip numberValue

/-! ## Prepared statements and cursors -/

/-- Reads the execution of a prepared statement. -/
def execute (g : Grammar) : TokenParser Unit := do
  skip name
  if (← peekSign) = "(" then skip (parenthesized g.exprTexts)

/-- Reads the preparation of a statement, given a parser for it. -/
def prepare (statement : TokenParser Unit) : TokenParser Unit := do
  skip name
  if (← peekSign) = "(" then skip (parenthesized (commaSeparated DataType.any))
  keyword "AS"
  statement

/-- Reads the declaration of a cursor. -/
def declare (g : Grammar) : TokenParser Unit := do
  skip name
  skip (keyword? "BINARY")
  skip (oneOf? ["ASENSITIVE", "INSENSITIVE"])
  if ← keyword? "NO" then keyword "SCROLL" else skip (keyword? "SCROLL")
  keyword "CURSOR"
  if (← oneOf? ["WITH", "WITHOUT"]).isSome then keyword "HOLD"
  keyword "FOR"
  skip g.query

/-- Reads which rows are fetched from a cursor. -/
def fetchDirection : TokenParser Unit := do
  match ← oneOf? ["NEXT", "PRIOR", "FIRST", "LAST", "ALL", "ABSOLUTE", "RELATIVE", "FORWARD",
      "BACKWARD"] with
  | some "FORWARD" | some "BACKWARD" => if ¬ (← keyword? "ALL") then skip numberValue
  | some "ABSOLUTE" | some "RELATIVE" | none => skip numberValue
  | some _ => return

/-- Reads the fetching of rows from a cursor. -/
def fetchRows : TokenParser Unit := do
  fetchDirection
  skip (oneOf ["FROM", "IN"])
  skip name
  skipAfter ["INTO"] dottedName

end Grammar

end FlatQuery.Sql
