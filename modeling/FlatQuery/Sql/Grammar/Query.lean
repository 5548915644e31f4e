import FlatQuery.Sql.Grammar.Term

set_option autoImplicit false

/-! # Queries

SELECT blocks with their FROM lists, the set operators between them, and what stands around the body
of a query. A parenthesis in a FROM list opens a derived table if a query follows it, and otherwise
joins or a single entry. -/

namespace FlatQuery.Sql

namespace Grammar

open TokenParser

/-! ## SELECT lists -/

/-- Reads one name, or names in parentheses. -/
def nameOrList : TokenParser String := do
  if (← peekSign) = "(" then return inParentheses ((← nameList).map Name.normal)
  else return (← name).normal

/-- Reads one new name, or new names in parentheses. -/
def newNames : TokenParser String := do
  let one : TokenParser String := do
    let old ← name
    keyword "AS"
    return old.normal ++ " AS " ++ (← name).normal
  if (← peekSign) = "(" then return inParentheses (← parenthesized (commaSeparated one)) else one

/-- Reads a term that takes the place of a column. -/
def replacement (g : Grammar) : TokenParser String := do
  let term ← g.exprText
  let marked ← keyword? "AS"
  return term ++ textIf marked " AS" ++ " " ++ (← name).normal

/-- Reads the options behind a wildcard. -/
def wildcardOptions (g : Grammar) : TokenParser String := do
  let excluded ← after? ["EXCLUDE"] nameOrList
  let excepted ← after? ["EXCEPT"] do
    if (← peekSign) = "(" then nameOrList else return inParentheses [(← name).normal]
  let renamed ← after? ["RENAME"] newNames
  let replaced ← after? ["REPLACE"] (inParentheses <$> parenthesized (commaSeparated g.replacement))
  return behind " EXCLUDE " excluded ++ behind " EXCEPT " excepted ++ behind " RENAME " renamed
    ++ behind " REPLACE " replaced

/-- Reads an item of a SELECT list. -/
def item (g : Grammar) : TokenParser Item := do
  match ← wildcard? with
  | some [] => return .wildcard (← g.wildcardOptions)
  | some qualifier => return .qualifiedWildcard qualifier (← g.wildcardOptions)
  | none =>
    let t ← g.expr
    match ← alias? reservedAfterItem with
    | some name => return .aliased t name
    | none => return .term t

/-! ## FROM lists -/

/-- Reads the rest of a rotation of a table, and yields the rotated table. -/
def rotation (g : Grammar) (table : Factor) (word : String) : TokenParser Factor := do
  let rest ← parenthesized do
    let value ←
      if word = "PIVOT" then
        match ← next with
        | .word text _ => pure (← g.call [⟨text, none⟩]).normal
        | _ => failure
      else pure (← name).normal
    keyword "FOR"
    let column ← if word = "PIVOT" then dotted <$> dottedName else Name.normal <$> name
    keyword "IN"
    let members ←
      if word = "PIVOT" then parenthesized (commaSeparated (Literal.normal <$> literal))
      else List.map Name.normal <$> nameList
    return value ++ " FOR " ++ column ++ " IN " ++ inParentheses members
  return .other (table.normal ++ " " ++ word ++ "(" ++ rest ++ ")") (← tableAlias?) ""

/-- Reads at most `bound` rotations of a table. -/
def rotations (g : Grammar) (bound : Nat) (table : Factor) : TokenParser Factor :=
  match bound with
  | 0 => return table
  | bound + 1 => do
    match ← oneOf? ["PIVOT", "UNPIVOT"] with
    | some word => rotations g bound (← g.rotation table word)
    | none => return table

/-- Reads a derived table behind its opening parenthesis. -/
def derived (g : Grammar) (lateral : Bool) : TokenParser Factor := do
  let query ← g.query
  sign ")"
  return .derived lateral query (← tableAlias?)

/-- Reads what follows LATERAL. -/
def lateral (g : Grammar) : TokenParser Factor := do
  if ← sign? "(" then g.derived true
  else
    let function ← dottedName
    sign "("
    let arguments ← g.arguments
    return .other ("LATERAL " ++ dotted function ++ inParentheses arguments) (← tableAlias?) ""

/-- Reads what follows UNNEST. -/
def unnest (g : Grammar) : TokenParser Factor := do
  let arrays ← parenthesized g.exprTexts
  let alias_ ← tableAlias?
  let offset ← if ← keyword? "WITH" then keyword? "OFFSET" else pure false
  let offsetName ← if offset then alias? reservedAfterItem else pure none
  return .other ("UNNEST" ++ inParentheses arrays) alias_
    (textIf offset " WITH OFFSET" ++ behind " AS " (offsetName.map Name.normal))

/-- Reads an entry that begins with a name. -/
def namedFactor (g : Grammar) : TokenParser Factor := do
  let table ← dottedName
  let partitions ← after? ["PARTITION"] nameList
  let arguments ← if ← sign? "(" then some <$> g.arguments else pure none
  let alias_ ← tableAlias?
  let hints ← attempt do
    keyword "WITH"
    sign "("
  let hints ←
    if hints.isSome then
      let terms ← g.exprTexts
      sign ")"
      pure terms
    else pure []
  g.rotations (← get).length (.table table (partitions.getD []) arguments alias_ hints)

/-- The alias of an entry of a FROM list. -/
def aliasOf : Factor → Option TableAlias
  | .table _ _ _ alias_ _ | .derived _ _ alias_ | .joined _ alias_ | .other _ alias_ _ => alias_

/-- An entry of a FROM list with another alias. -/
def withAlias (alias_ : TableAlias) : Factor → Factor
  | .table name partitions arguments _ hints => .table name partitions arguments (some alias_) hints
  | .derived lateral query _ => .derived lateral query (some alias_)
  | .joined inner _ => .joined inner (some alias_)
  | .other before _ after => .other before (some alias_) after

/-- Reads the condition of a join. -/
def joinCondition (g : Grammar) (natural : Bool) : TokenParser JoinCondition := do
  if natural then return .natural
  else if ← keyword? "ON" then return .on (← g.expr)
  else if ← keyword? "USING" then return .shared (← nameList)
  else return .none

/-- Reads the words of a join that may have a condition, up to JOIN. -/
def joinKind : TokenParser JoinKind := do
  match ← oneOf ["JOIN", "INNER", "FULL", "LEFT", "RIGHT"] with
  | "JOIN" => return .inner
  | "INNER" =>
    keyword "JOIN"
    return .inner
  | "FULL" =>
    let _ ← keyword? "OUTER"
    keyword "JOIN"
    return .full
  | side =>
    let word ← oneOf? ["OUTER", "SEMI", "ANTI"]
    keyword "JOIN"
    match side, word with
    | "LEFT", some "SEMI" => return .leftSemi
    | "LEFT", some "ANTI" => return .leftAnti
    | "LEFT", _ => return .left
    | _, some "SEMI" => return .rightSemi
    | _, some "ANTI" => return .rightAnti
    | _, _ => return .right

/-- Reads a join, if one is next. -/
def join? (g : Grammar) : TokenParser (Option Join) := do
  if ← keyword? "CROSS" then
    let operator := if (← oneOf ["JOIN", "APPLY"]) = "JOIN" then JoinOperator.cross else .crossApply
    return some ⟨operator, ← g.factor⟩
  else if ← keyword? "OUTER" then
    keyword "APPLY"
    return some ⟨.outerApply, ← g.factor⟩
  else
    let natural ← keyword? "NATURAL"
    if natural ∨ ["INNER", "JOIN", "LEFT", "RIGHT", "FULL"].contains (← peekKey) then
      let kind ← joinKind
      let factor ← g.factor
      return some ⟨.conditional kind (← g.joinCondition natural), factor⟩
    else return none

/-- Reads an element of a FROM list. -/
def source (g : Grammar) : TokenParser Source := do
  let factor ← g.factor
  return ⟨factor, ← many g.join?⟩

/-- Reads what follows an opening parenthesis in a FROM list: a derived table, joins, or an entry
whose alias may stand inside or behind the parentheses. -/
def parenthesizedFactor (g : Grammar) : TokenParser Factor := do
  match ← attempt (g.derived false) with
  | some table => g.rotations (← get).length table
  | none =>
    let inner ← g.source
    sign ")"
    let alias_ ← tableAlias?
    match inner, alias_ with
    | ⟨.joined .., []⟩, _ | ⟨_, _ :: _⟩, _ => return .joined inner.normal alias_
    | ⟨factor, []⟩, none => return factor
    | ⟨factor, []⟩, some alias_ =>
      require (aliasOf factor).isNone
      return withAlias alias_ factor

/-- Reads an entry of a FROM list. -/
def readFactor (g : Grammar) : TokenParser Factor := do
  if ← keyword? "LATERAL" then g.lateral
  else if ← keyword? "TABLE" then
    let term ← parenthesized g.exprText
    return .other ("TABLE(" ++ term ++ ")") (← tableAlias?) ""
  else if ← sign? "(" then g.parenthesizedFactor
  else if ← keyword? "UNNEST" then g.unnest
  else g.namedFactor

/-! ## SELECT blocks -/

/-- Reads what follows TOP. -/
def top (g : Grammar) : TokenParser String := do
  let quantity ←
    if ← sign? "(" then
      let term ← g.exprText
      sign ")"
      pure term
    else pure (← numberValue).normal
  let percent ← keyword? "PERCENT"
  let ties ← phrase? ["WITH", "TIES"]
  return "TOP (" ++ quantity ++ ")" ++ textIf percent " PERCENT" ++ textIf ties " WITH TIES"

/-- Reads what follows INTO. -/
def into : TokenParser String := do
  let temporary ← oneOf? ["TEMP", "TEMPORARY"]
  let unlogged ← keyword? "UNLOGGED"
  let table ← keyword? "TABLE"
  return "INTO " ++ textIf temporary.isSome "TEMPORARY " ++ textIf unlogged "UNLOGGED "
    ++ textIf table "TABLE " ++ dotted (← dottedName)

/-- Reads a lateral view, if one is next. -/
def lateralView? (g : Grammar) : TokenParser (Option String) := after? ["LATERAL", "VIEW"] do
  let outer ← keyword? "OUTER"
  let term ← g.exprText
  let name := dotted (← dottedName)
  let columns ← commaSeparated (alias? ["WHERE", "GROUP", "CLUSTER", "HAVING", "LATERAL"])
  return " LATERAL VIEW" ++ textIf outer " OUTER" ++ " " ++ term ++ " " ++ name
    ++ listBehind " AS " (columns.flatMap fun c => (c.map Name.normal).toList)

/-- Reads grouping terms in parentheses, of which there may be none. -/
def groupingSet (g : Grammar) : TokenParser (List String) := parenthesized do
  if (← peekSign) = ")" then return [] else g.exprTexts

/-- Reads grouping terms in parentheses, or a single one without them. -/
def groupingElement (g : Grammar) : TokenParser String := do
  if (← peekSign) ≠ "(" then g.exprText
  else match ← g.groupingSet with
    | [term] => return term
    | terms => return inParentheses terms

/-- Reads an element of a GROUP BY list. -/
def grouping (g : Grammar) : TokenParser String := do
  if ← phrase? ["GROUPING", "SETS"] then
    let sets ← parenthesized (commaSeparated g.groupingSet)
    return "GROUPING SETS " ++ inParentheses (sets.map inParentheses)
  else
    match ← oneOf? ["CUBE", "ROLLUP"] with
    | some word =>
      let elements ← parenthesized (commaSeparated g.groupingElement)
      return word ++ " " ++ inParentheses elements
    | none => g.exprText

/-- Reads the definition of a window. -/
def windowDefinition (g : Grammar) : TokenParser String := do
  let name ← name
  keyword "AS"
  return name.normal ++ " AS " ++ (← g.window)

/-- Reads a SELECT block behind its first word. -/
def block (g : Grammar) : TokenParser Block := do
  let distinct ← g.distinct?
  let top ← after? ["TOP"] g.top
  let items ← commaSeparated g.item
  let into ← after? ["INTO"] into
  let sources := (← after? ["FROM"] (commaSeparated g.source)).getD []
  let lateralViews ← many g.lateralView?
  let condition ← after? ["WHERE"] g.expr
  let groupBy ← after? ["GROUP", "BY"] do
    if ← keyword? "ALL" then return "ALL" else return commas (← commaSeparated g.grouping)
  let clusterBy ← after? ["CLUSTER", "BY"] (commas <$> g.exprTexts)
  let distributeBy ← after? ["DISTRIBUTE", "BY"] (commas <$> g.exprTexts)
  let sortBy ← after? ["SORT", "BY"] (commas <$> g.exprTexts)
  let having ← after? ["HAVING"] g.exprText
  let windows ← after? ["WINDOW"] (commas <$> commaSeparated g.windowDefinition)
  let qualify ← after? ["QUALIFY"] g.exprText
  return ⟨distinct, top, items, into, sources, lateralViews, condition, groupBy, clusterBy,
    distributeBy, sortBy, having, windows, qualify⟩

/-! ## Bodies -/

/-- Reads a row of values. -/
def row (g : Grammar) : TokenParser String := inParentheses <$> parenthesized g.exprTexts

/-- Reads the rows behind VALUES. If one of them is marked by ROW, all of them are. -/
def values (g : Grammar) : TokenParser String := do
  let rows ← commaSeparated do
    let marked ← keyword? "ROW"
    return (marked, ← g.row)
  let mark := textIf (rows.any Prod.fst) "ROW"
  return "VALUES " ++ commas (rows.map fun r => mark ++ r.2)

/-- Reads the name of a table behind TABLE. It takes three tokens, of which the last two count only
where they are a point and a name. -/
def wholeTable : TokenParser String := do
  let tokens ← get
  set (tokens.drop 3)
  match tokens.take 3 with
  | [.word schema _, .symbol ".", .word table _] => return "TABLE " ++ schema ++ "." ++ table
  | _ :: .symbol "." :: _ => failure
  | .word table _ :: _ => return "TABLE " ++ table
  | _ => failure

/-- The set operators, and how tightly they bind. -/
def setOperators : List (String × SetOperator × Nat) := [
  ("UNION", .union, 10), ("EXCEPT", .except, 10), ("INTERSECT", .intersect, 20)]

/-- Reads what follows a set operator about duplicates and about the order of columns, which only
unions match by name. -/
def setQuantifier (op : SetOperator) : TokenParser SetQuantifier := do
  let byName : TokenParser Bool := if op = .union then phrase? ["BY", "NAME"] else return false
  match ← oneOf? ["ALL", "DISTINCT"] with
  | some "ALL" => return if ← byName then .allByName else .all
  | some _ => return if ← byName then .distinctByName else .distinct
  | none => return if ← byName then .byName else .none

/-- Extends a body by at most `bound` set operators behind it that bind more tightly than `low`. -/
def extendBody (g : Grammar) (low : Nat) (bound : Nat) (left : Body) : TokenParser Body :=
  match bound with
  | 0 => return left
  | bound + 1 => do
    match setOperators.lookup (← peekKey) with
    | none => return left
    | some (op, s) =>
      if s ≤ low then return left
      else
        let _ ← next
        let quantifier ← setQuantifier op
        extendBody g low bound (.setOperation op quantifier left (← g.body s))

/-- Reads a body without set operators around it. -/
def simpleBody (g : Grammar) : TokenParser Body := do
  if ← keyword? "SELECT" then Body.block <$> g.block
  else if ← keyword? "VALUES" then Body.values <$> g.values
  else if ← keyword? "TABLE" then Body.other <$> wholeTable
  else Body.query <$> parenthesized g.query

/-- Reads the body of a query whose set operators bind more tightly than a bound. -/
def readBody (g : Grammar) (low : Nat) : TokenParser Body := do
  let first ← g.simpleBody
  g.extendBody low (← get).length first

/-! ## Changes of tables

A query may stand for a change of a table. -/

/-- Reads an assignment to a column. All words in front of the sign are parts of its name. -/
def assignment (g : Grammar) : TokenParser String := do
  let tokens ← get
  let target := tokens.takeWhile (· ≠ .symbol "=")
  set (tokens.drop target.length)
  sign "="
  let parts := target.filterMap fun
    | .word text quote => some (Name.normal ⟨text, quote⟩)
    | _ => none
  return ".".intercalate parts ++ " = " ++ (← g.exprText)

/-- Reads assignments to columns. -/
def assignments (g : Grammar) : TokenParser String := commas <$> commaSeparated g.assignment

/-- Reads the items behind RETURNING, if it is next. -/
def returning (g : Grammar) : TokenParser String := do
  return behind " RETURNING "
    (← after? ["RETURNING"] (do return commas ((← commaSeparated g.item).map Item.normal)))

/-- Reads what tells that a row is there already, if it is next. -/
def conflictTarget : TokenParser String := do
  if ← phrase? ["ON", "CONSTRAINT"] then return " ON CONSTRAINT " ++ dotted (← dottedName)
  else if (← peekSign) = "(" then return inParentheses ((← nameList).map Name.normal)
  else return ""

/-- Reads what is done about rows that are there already. -/
def conflict (g : Grammar) : TokenParser String := do
  if ← keyword? "CONFLICT" then
    let target ← conflictTarget
    keyword "DO"
    if ← keyword? "NOTHING" then return " ON CONFLICT" ++ target ++ " DO NOTHING"
    else
      phrase ["UPDATE", "SET"]
      let changes ← g.assignments
      return " ON CONFLICT" ++ target ++ " DO UPDATE SET " ++ changes
        ++ behind " WHERE " (← after? ["WHERE"] g.exprText)
  else
    phrase ["DUPLICATE", "KEY", "UPDATE"]
    return " ON DUPLICATE KEY UPDATE " ++ (← g.assignments)

/-- Reads the rows that are inserted: columns and a query, or default values. -/
def insertedRows (g : Grammar) : TokenParser String := do
  if ← phrase? ["DEFAULT", "VALUES"] then return "DEFAULT VALUES"
  else
    let list (names : List Name) : String :=
      if names.isEmpty then "" else inParentheses (names.map Name.normal) ++ " "
    let columns ← nameList?
    let partition ← after? ["PARTITION"] (inParentheses <$> parenthesized g.exprTexts)
    let others ← nameList?
    return list columns ++ behind "" (partition.map fun p => "PARTITION " ++ p ++ " ")
      ++ list others ++ (← g.queryText)

/-- The words for the formats of files. -/
def fileFormats : List String := [
  "AVRO", "JSONFILE", "ORC", "PARQUET", "RCFILE", "SEQUENCEFILE", "TEXTFILE"]

/-- Reads an insertion behind its first word. -/
def insert (g : Grammar) : TokenParser String := do
  let ignored ← keyword? "IGNORE"
  let action ← oneOf? ["INTO", "OVERWRITE"]
  let here ← keyword? "LOCAL"
  if ← keyword? "DIRECTORY" then
    let path ← literalText
    let format ← after? ["STORED", "AS"] (oneOf fileFormats)
    return "INSERT" ++ textIf (action = some "OVERWRITE") " OVERWRITE" ++ textIf here " LOCAL"
      ++ " DIRECTORY '" ++ path ++ "'"
      ++ behind " STORED AS " format ++ " " ++ (← g.queryText)
  else
    let table ← keyword? "TABLE"
    let target := dotted (← dottedName)
    let rows ← g.insertedRows
    let conflict := (← after? ["ON"] g.conflict).getD ""
    return "INSERT" ++ textIf ignored " IGNORE" ++ behind " " action ++ textIf table " TABLE"
      ++ " " ++ target ++ " " ++ rows ++ conflict ++ (← g.returning)

/-- Reads an update behind its first word. -/
def update (g : Grammar) : TokenParser String := do
  let target := (← g.source).normal
  keyword "SET"
  let changes ← g.assignments
  let origin ← after? ["FROM"] (Source.normal <$> g.source)
  let condition ← after? ["WHERE"] g.exprText
  return "UPDATE " ++ target ++ " SET " ++ changes ++ behind " FROM " origin
    ++ behind " WHERE " condition ++ (← g.returning)

/-! ## Queries -/

/-- Reads a named query of a WITH list. -/
def cte (g : Grammar) : TokenParser String := do
  let name ← name
  let columns ← if (← peekSign) = "(" then some <$> nameList else pure none
  keyword "AS"
  let query ← parenthesized g.queryText
  let origin ← after? ["FROM"] TokenParser.name
  return name.normal ++ behind " " (columns.map fun names => inParentheses (names.map Name.normal))
    ++ " AS (" ++ query ++ ")" ++ behind " FROM " (origin.map Name.normal)

/-- Reads the queries behind WITH. -/
def ctes (g : Grammar) : TokenParser String := do
  let recursive ← keyword? "RECURSIVE"
  return "WITH " ++ textIf recursive "RECURSIVE " ++ commas (← commaSeparated g.cte)

/-- Reads what is left of a limit and an offset, in either order, where some of them is known. -/
def bounds (g : Grammar) (known : Option String × Option String) :
    TokenParser (Option String × Option String) := do
  let limit ← match known.1 with
    | some limit => pure (some limit)
    | none =>
      if ¬ (← keyword? "LIMIT") then pure none
      else if ← keyword? "ALL" then pure none
      else some <$> g.exprText
  let offset ← match known.2 with
    | some offset => pure (some offset)
    | none => after? ["OFFSET"] do
      let term ← g.exprText
      return "OFFSET " ++ term ++ behind " " (← oneOf? ["ROW", "ROWS"])
  match limit, offset with
  | some first, none =>
    if ← sign? "," then return (← some <$> g.exprText, some ("OFFSET " ++ first))
    else return (limit, offset)
  | _, _ => return (limit, offset)

/-- Reads what follows FETCH. -/
def fetch : TokenParser String := do
  let _ ← oneOf ["FIRST", "NEXT"]
  let quantity ←
    if (← oneOf? ["ROW", "ROWS"]).isSome then pure ""
    else
      let number := (← literal).normal
      let percent ← keyword? "PERCENT"
      let _ ← oneOf ["ROW", "ROWS"]
      pure (" " ++ number ++ textIf percent " PERCENT")
  let ties ← if ← keyword? "ONLY" then pure false else do
    phrase ["WITH", "TIES"]
    pure true
  return "FETCH FIRST" ++ quantity ++ " ROWS " ++ (if ties then "WITH TIES" else "ONLY")

/-- Reads what happens at rows that are locked already, if it is next. -/
def blocked : TokenParser String := do
  if ← keyword? "NOWAIT" then return " NOWAIT"
  else if ← phrase? ["SKIP", "LOCKED"] then return " SKIP LOCKED"
  else return ""

/-- Reads the lock behind FOR. -/
def lock : TokenParser String := do
  let kind ← oneOf ["UPDATE", "SHARE"]
  let table ← after? ["OF"] (dotted <$> dottedName)
  return "FOR " ++ kind ++ behind " OF " table ++ (← blocked)

/-- Reads an option of a result form, and nothing where none of the words for them is next. Yields
the word and the normal form. -/
def resultOption? (words : List String) : TokenParser (Option (String × String)) := do
  match ← oneOf? words with
  | some "ROOT" => return some ("ROOT", "ROOT('" ++ (← parenthesized literalText) ++ "')")
  | some "BINARY" =>
    keyword "BASE64"
    return some ("BINARY", "BINARY BASE64")
  | some word => return some (word, word)
  | none => return none

/-- Reads the options of a result form, each behind a comma. They are shown in the order of their
words, and of several with one word the last counts. -/
def resultOptions (words : List String) : TokenParser String := do
  let found ← many do if ← sign? "," then some <$> resultOption? words else return none
  let lastFirst := (found.filterMap id).reverse
  return String.join (words.filterMap fun word => (lastFirst.lookup word).map (", " ++ ·))

/-- Reads the form of a result behind FOR, if it is next. -/
def resultForm? : TokenParser (Option String) := do
  match ← oneOf? ["XML", "JSON", "BROWSE"] with
  | some "XML" =>
    let shape ← oneOf ["RAW", "AUTO", "EXPLICIT", "PATH"]
    let label ←
      if ["RAW", "PATH"].contains shape ∧ (← peekSign) = "(" then some <$> parenthesized literalText
      else pure none
    return some ("FOR XML " ++ shape ++ behind "" (label.map fun l => "('" ++ l ++ "')")
      ++ (← resultOptions ["BINARY", "TYPE", "ROOT", "ELEMENTS"]))
  | some "JSON" =>
    let shape ← oneOf ["AUTO", "PATH"]
    return some ("FOR JSON " ++ shape
      ++ (← resultOptions ["ROOT", "INCLUDE_NULL_VALUES", "WITHOUT_ARRAY_WRAPPER"]))
  | some word => return some ("FOR " ++ word)
  | none => return none

/-- Reads at most `bound` locks, and the form of the result, which ends them. -/
def locks : Nat → TokenParser (List String × Option String)
  | 0 => return ([], none)
  | bound + 1 => do
    if ← keyword? "FOR" then
      match ← resultForm? with
      | some form => return ([], some form)
      | none =>
        let first ← lock
        let (others, form) ← locks bound
        return (first :: others, form)
    else return ([], none)

/-- Reads a query, one level deeper. -/
def readQuery (g : Grammar) : TokenParser Query := deeper do
  let ctes ← after? ["WITH"] g.ctes
  if ← keyword? "INSERT" then
    return ⟨ctes, .other (← g.insert), [], none, none, none, none, [], none⟩
  else if ← keyword? "UPDATE" then
    return ⟨ctes, .other (← g.update), [], none, none, none, none, [], none⟩
  else
    let body ← g.body 0
    let orderBy ← g.orderBy
    let (limit, offset) ← g.bounds (← g.bounds (none, none))
    let limitBy ← after? ["BY"] (commas <$> g.exprTexts)
    let fetch ← after? ["FETCH"] fetch
    let (locks, resultForm) ← locks (← get).length
    return ⟨ctes, body, orderBy, limit, offset, limitBy, fetch, locks, resultForm⟩

end Grammar

end FlatQuery.Sql
