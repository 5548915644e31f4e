import FlatQuery.Sql.Grammar.Command.Column

set_option autoImplicit false

/-! # Definitions

Commands that define tables, views, indexes and other things, and the one that removes them. -/

namespace FlatQuery.Sql

namespace Grammar

open TokenParser

/-! ## Tables -/

/-- Reads the columns that a table is partitioned by, if they are next. -/
def partitioning (g : Grammar) : TokenParser Unit :=
  skipAfter ["PARTITIONED", "BY"] (parenthesized (commaSeparated g.columnDefinition))

/-- Reads in which form and where the rows of a table are kept, as far as it is told. -/
def storage (g : Grammar) : TokenParser Unit := skipMany do
  match ← oneOf? ["ROW", "STORED", "LOCATION"] with
  | some "ROW" => found do
    keyword "FORMAT"
    if ← keyword? "SERDE" then skip literalText else skip (keyword? "DELIMITED")
  | some "STORED" => found do
    keyword "AS"
    if ← keyword? "INPUTFORMAT" then
      skip g.expr
      keyword "OUTPUTFORMAT"
      skip g.expr
    else skip (oneOf fileFormats)
  | some _ => found literalText
  | none => return false

/-- Reads the columns that the rows of a table are ordered by. -/
def rowOrder : TokenParser Unit := do
  if ← sign? "(" then
    if (← peekSign) ≠ ")" then skip (commaSeparated name)
    sign ")"
  else skip name

/-- Reads what becomes of the rows of a table when a transaction ends, if it is told. -/
def onCommit : TokenParser Unit := do
  if ← phrase? ["ON", "COMMIT", "DELETE", "ROWS"] then return
  else if ← phrase? ["ON", "COMMIT", "PRESERVE", "ROWS"] then return
  else skip (phrase? ["ON", "COMMIT", "DROP"])

/-- Reads the definition of a table. -/
def createTable (g : Grammar) : TokenParser Unit := do
  ifNotExists
  skip dottedName
  skipAfter ["ON", "CLUSTER"] name
  if (← oneOf? ["LIKE", "ILIKE"]).isSome then looseName
  skipAfter ["CLONE"] looseName
  g.tableElements
  skip (phrase? ["WITHOUT", "ROWID"])
  g.partitioning
  g.storage
  options "WITH"
  options "TBLPROPERTIES"
  skipAfter ["ENGINE"] assignedWord
  skipAfter ["COMMENT"] do
    skip (sign? "=")
    skip singleQuoted
  skipAfter ["ORDER", "BY"] rowOrder
  skipAfter ["AS"] g.query
  skipAfter ["DEFAULT", "CHARSET"] assignedWord
  skipAfter ["COLLATE"] assignedWord
  onCommit
  skip (keyword? "STRICT")

/-- Reads the definition of a table whose rows are kept elsewhere. -/
def createExternalTable (g : Grammar) : TokenParser Unit := do
  ifNotExists
  skip dottedName
  g.tableElements
  g.partitioning
  g.storage
  options "TBLPROPERTIES"

/-- Reads the definition of a table that a module provides. -/
def createVirtualTable : TokenParser Unit := do
  ifNotExists
  skip dottedName
  keyword "USING"
  skip name
  skip nameList?

/-! ## Views and indexes -/

/-- Reads the definition of a view. -/
def createView (g : Grammar) : TokenParser Unit := do
  ifNotExists
  skip dottedName
  skip nameList?
  options "WITH"
  skipAfter ["CLUSTER", "BY"] nameList?
  keyword "AS"
  skip g.query
  skip (phrase? ["WITH", "NO", "SCHEMA", "BINDING"])

/-- Reads the definition of an index. Its name may be missing, but not behind IF NOT EXISTS. -/
def createIndex (g : Grammar) : TokenParser Unit := do
  skip (keyword? "CONCURRENTLY")
  if ← phrase? ["IF", "NOT", "EXISTS"] then skip dottedName
  else if (← peekKey) ≠ "ON" then skip dottedName
  keyword "ON"
  skip dottedName
  skipAfter ["USING"] name
  skip (parenthesized (commaSeparated g.sortTerm))
  skipAfter ["INCLUDE"] nameList
  skipAfter ["NULLS"] do
    skip (keyword? "NOT")
    keyword "DISTINCT"
  g.conditionOf

/-! ## Other things -/

/-- Reads the definition of a name for a term or a query with parameters. -/
def createTemplate (g : Grammar) : TokenParser Unit := do
  let parameter : TokenParser Unit := do
    skip name
    if ← sign? ":=" then skip g.expr
    else if ← sign? "=>" then skip g.expr
  skip dottedName
  sign "("
  if (← peekSign) ≠ ")" then skip (commaSeparated parameter)
  sign ")"
  keyword "AS"
  if ← keyword? "TABLE" then skip g.query else skip g.expr

/-- Reads the definition of a schema. -/
def createSchema : TokenParser Unit := do
  ifNotExists
  if (← peekKey) ≠ "AUTHORIZATION" then skip dottedName
  skipAfter ["AUTHORIZATION"] name

/-- Reads the definition of a database. -/
def createDatabase : TokenParser Unit := do
  ifNotExists
  skip dottedName
  skipMany do
    if (← oneOf? ["LOCATION", "MANAGEDLOCATION"]).isSome then found literalText else return false

/-- Reads the definition of roles. -/
def createRole : TokenParser Unit := do
  ifNotExists
  dottedNames
  skip (keyword? "WITH")

/-- Reads the definition of a sequence. -/
def createSequence : TokenParser Unit := do
  ifNotExists
  skip dottedName
  skipAfter ["AS"] DataType.any
  sequenceOptions
  skipAfter ["OWNED", "BY"] dottedName

/-- Reads the definition of a type with attributes. -/
def createType : TokenParser Unit := do
  skip dottedName
  keyword "AS"
  if ← sign? "(" then
    if ¬ (← sign? ")") then skipClosed do
      skip name
      skip DataType.any
      skipAfter ["COLLATE"] dottedName

/-- Reads the definition of a procedure, given a parser for the statements in it. -/
def createProcedure (statements : TokenParser Unit) : TokenParser Unit := do
  let parameter : TokenParser Unit := do
    match ← peek with
    | some (.word ..) =>
      skip name
      skip DataType.any
    | _ => return
  skip dottedName
  if ← sign? "(" then
    if ¬ (← sign? ")") then skipClosed parameter
  phrase ["AS", "BEGIN"]
  statements
  keyword "END"

/-! ## Creation and removal -/

/-- The things whose definition may replace one that is there already. -/
def replaceable : List String := ["TABLE", "VIEW", "MATERIALIZED", "EXTERNAL", "MACRO"]

/-- Reads a definition, given a parser for statements in it. -/
def create (g : Grammar) (statements : TokenParser Unit) : TokenParser Unit := do
  let replaced ← phrase? ["OR", "REPLACE"]
  skip (phrase? ["OR", "ALTER"])
  skip (keyword? "LOCAL")
  skip (keyword? "GLOBAL")
  skip (keyword? "TRANSIENT")
  skip (oneOf? ["TEMP", "TEMPORARY"])
  let kind ← oneOf (replaceable ++ [
    "INDEX", "UNIQUE", "VIRTUAL", "SCHEMA", "DATABASE", "ROLE", "SEQUENCE", "TYPE", "PROCEDURE"])
  require (¬ replaced ∨ replaceable.contains kind)
  match kind with
  | "TABLE" => g.createTable
  | "VIEW" => g.createView
  | "MATERIALIZED" =>
    keyword "VIEW"
    g.createView
  | "EXTERNAL" =>
    keyword "TABLE"
    g.createExternalTable
  | "MACRO" => g.createTemplate
  | "INDEX" => g.createIndex
  | "UNIQUE" =>
    keyword "INDEX"
    g.createIndex
  | "VIRTUAL" =>
    keyword "TABLE"
    createVirtualTable
  | "SCHEMA" => createSchema
  | "DATABASE" => createDatabase
  | "ROLE" => createRole
  | "SEQUENCE" => createSequence
  | "TYPE" => createType
  | _ => createProcedure statements

/-- Reads a parameter of a function: a type, behind the name of the parameter if there is one. -/
def functionParameter (g : Grammar) : TokenParser Unit := do
  skip (oneOf? ["IN", "OUT", "INOUT"])
  let type ← DataType.any
  if type.custom then skip DataType.any
  if ← keyword? "DEFAULT" then skip g.expr
  else if ← sign? "=" then skip g.expr

/-- Reads the removal of functions. -/
def dropFunctions (g : Grammar) : TokenParser Unit := do
  ifExists
  skip (commaSeparated do
    skip dottedName
    if ← sign? "(" then
      if (← peekSign) ≠ ")" then skip (commaSeparated g.functionParameter)
      sign ")")
  skip (oneOf? ["CASCADE", "RESTRICT"])

/-- Reads the removal of definitions. -/
def drop (g : Grammar) : TokenParser Unit := do
  skip (keyword? "TEMPORARY")
  let kind ← oneOf ["TABLE", "VIEW", "INDEX", "ROLE", "SCHEMA", "SEQUENCE", "STAGE", "FUNCTION"]
  if kind = "FUNCTION" then g.dropFunctions
  else
    ifExists
    dottedNames
    let cascade ← keyword? "CASCADE"
    let restrict ← keyword? "RESTRICT"
    let purge ← keyword? "PURGE"
    require (¬ (cascade ∧ restrict))
    require (kind ≠ "ROLE" ∨ ¬ (cascade ∨ restrict ∨ purge))

end Grammar

end FlatQuery.Sql
