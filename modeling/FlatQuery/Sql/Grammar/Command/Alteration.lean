import FlatQuery.Sql.Grammar.Command.Column

set_option autoImplicit false

/-! # Changes of definitions

Commands that change the definition of a table, a view or an index. -/

namespace FlatQuery.Sql

namespace Grammar

open TokenParser

/-- Reads a change of the definition of one column. -/
def alterColumn (g : Grammar) : TokenParser Unit := do
  skip (keyword? "COLUMN")
  skip name
  if ← phrase? ["SET", "NOT", "NULL"] then return
  else if ← phrase? ["DROP", "NOT", "NULL"] then return
  else if ← phrase? ["SET", "DEFAULT"] then skip g.expr
  else if ← phrase? ["DROP", "DEFAULT"] then return
  else
    phrase ["SET", "DATA", "TYPE"]
    skip DataType.any

/-- Reads what is added to a table: a constraint, partitions or a column. -/
def addElement (g : Grammar) : TokenParser Unit := do
  if ¬ (← g.tableConstraint?) then
    ifNotExists
    let partitions ← many (after? ["PARTITION"] g.partition)
    if partitions.isEmpty then
      skip (keyword? "COLUMN")
      ifNotExists
      g.columnDefinition

/-- Reads what is taken from a table: partitions, a constraint, its key or a column. -/
def dropElement (g : Grammar) : TokenParser Unit := do
  if ← phrase? ["IF", "EXISTS", "PARTITION"] then g.partition
  else if ← keyword? "PARTITION" then g.partition
  else if ← phrase? ["PRIMARY", "KEY"] then return
  else
    skip (oneOf? ["COLUMN", "CONSTRAINT"])
    ifExists
    skip name
    skip (keyword? "CASCADE")

/-- Reads a change of a table. -/
def alteration (g : Grammar) : TokenParser Unit := do
  match ← oneOf ["ADD", "RENAME", "DROP", "PARTITION", "CHANGE", "ALTER", "SWAP"] with
  | "ADD" => g.addElement
  | "RENAME" =>
    if ← keyword? "TO" then skip dottedName
    else
      skip (keyword? "COLUMN")
      skip name
      keyword "TO"
      skip name
  | "DROP" => g.dropElement
  | "PARTITION" =>
    g.partition
    phrase ["RENAME", "TO", "PARTITION"]
    g.partition
  | "CHANGE" =>
    skip (keyword? "COLUMN")
    skip name
    skip name
    skip DataType.any
    skipMany g.columnOption?
  | "ALTER" => g.alterColumn
  | _ =>
    keyword "WITH"
    skip dottedName

/-- Reads a change of a definition. -/
def alter (g : Grammar) : TokenParser Unit := do
  match ← oneOf ["TABLE", "VIEW", "INDEX"] with
  | "TABLE" =>
    ifExists
    skip (keyword? "ONLY")
    skip dottedName
    skip (commaSeparated g.alteration)
  | "VIEW" =>
    skip dottedName
    skip nameList?
    options "WITH"
    keyword "AS"
    skip g.query
  | _ =>
    skip dottedName
    phrase ["RENAME", "TO"]
    skip dottedName

end Grammar

end FlatQuery.Sql
