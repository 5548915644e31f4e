import FlatQuery.Sql.Grammar.Operation

set_option autoImplicit false

/-! # Terms

A term is an operand and the operators behind it. Operands are literals, names, calls, and the
constructs that begin with words of their own. -/

namespace FlatQuery.Sql

namespace Grammar

open TokenParser

/-! ## Calls -/

/-- Reads an argument of a function. -/
def argument (g : Grammar) : TokenParser String := do
  let label ← attempt do
    let label ← name
    sign "=>"
    return label.normal ++ " => "
  let value ← match ← wildcard? with
    | some qualifier => pure (String.join (qualifier.map (·.normal ++ ".")) ++ "*")
    | none => g.exprText
  return behind "" label ++ value

/-- Reads the arguments of a function behind their opening parenthesis. -/
def arguments (g : Grammar) : TokenParser (List String) := do
  if ← sign? ")" then return []
  else
    let texts ← commaSeparated g.argument
    sign ")"
    return texts

/-- Reads the arguments of a function, and the order in which it meets them, behind their opening
parenthesis. -/
def orderedArguments (g : Grammar) : TokenParser String := do
  if ← sign? ")" then return ""
  else
    let texts ← commaSeparated g.argument
    let order ← g.orderByText
    sign ")"
    return commas texts ++ order

/-- Reads how far a bound of a window frame lies from the current row. A text in quotes is an
interval. -/
def frameDistance (g : Grammar) : TokenParser String := do
  if ← keyword? "UNBOUNDED" then return "UNBOUNDED"
  else match ← peek with
    | some (.string _) => return (← g.interval).normal
    | _ => g.exprText

/-- Reads a bound of a window frame. -/
def frameBound (g : Grammar) : TokenParser String := do
  if ← phrase? ["CURRENT", "ROW"] then return "CURRENT ROW"
  else
    let rows ← g.frameDistance
    return rows ++ " " ++ (← oneOf ["PRECEDING", "FOLLOWING"])

/-- Reads the frame of a window. -/
def frame (g : Grammar) : TokenParser String := do
  let unit ← oneOf ["ROWS", "RANGE", "GROUPS"]
  if ← keyword? "BETWEEN" then
    let first ← g.frameBound
    keyword "AND"
    return unit ++ " BETWEEN " ++ first ++ " AND " ++ (← g.frameBound)
  else return unit ++ " " ++ (← g.frameBound)

/-- Reads the description of a window in parentheses. -/
def window (g : Grammar) : TokenParser String := parenthesized do
  let partition ← after? ["PARTITION", "BY"] g.exprTexts
  let order ← g.orderBy
  let frame ← if (← peekSign) = ")" then pure none else some <$> g.frame
  let parts := (partition.map fun ts => "PARTITION BY " ++ commas ts).toList
    ++ (if order.isEmpty then [] else ["ORDER BY " ++ commas (order.map SortTerm.normal)])
    ++ frame.toList
  return "(" ++ " ".intercalate parts ++ ")"

/-- Reads the arguments of a call of a function. -/
def call (g : Grammar) (function : List Name) : TokenParser Term := do
  sign "("
  let distinct ← g.distinct?
  let arguments ← g.orderedArguments
  let nulls ← oneOf? ["RESPECT", "IGNORE"]
  if nulls.isSome then keyword "NULLS"
  let window ←
    if ← keyword? "OVER" then
      if (← peekSign) = "(" then some <$> g.window else pure (some (← name).normal)
    else pure none
  return .call function (dotted function ++ "(" ++ textIf distinct.isSome "DISTINCT "
    ++ arguments ++ ")" ++ behind " " (nulls.map (· ++ " NULLS"))
    ++ behind " OVER " window)

/-- Reads what follows the first part of a name: more parts, and arguments if it names a function.
-/
def named (g : Grammar) (first : Name) : TokenParser Term := do
  let others ← many do if ← sign? "." then some <$> name else return none
  let parts := first :: others
  if (← peekSign) = "(" then g.call parts
  else match others, first.text.startsWith "_", ← peek with
    | [], true, some (.string _) | [], true, some (.hex _) =>
      return .other (first.text ++ " " ++ (← literal).normal)
    | _, _, _ => return .name parts

/-! ## Operands with words of their own -/

/-- Yields the value of the session that a word names. -/
def sessionValue (word : Name) : TokenParser Term := return .call [word] word.normal

/-- Reads the arguments of a function that needs none. -/
def clock (g : Grammar) (word : Name) : TokenParser Term := do
  if ← sign? "(" then return .call [word] (word.normal ++ "(" ++ (← g.orderedArguments) ++ ")")
  else return .call [word] word.normal

/-- Reads the rest of a CASE term. -/
def caseTerm (g : Grammar) : TokenParser Term := do
  let subject ← if (← peekKey) = "WHEN" then pure none else some <$> g.exprText
  let branch : TokenParser String := do
    let condition ← g.exprText
    keyword "THEN"
    return " WHEN " ++ condition ++ " THEN " ++ (← g.exprText)
  keyword "WHEN"
  let first ← branch
  let others ← many (after? ["WHEN"] branch)
  let otherwise ← after? ["ELSE"] g.exprText
  keyword "END"
  return .other ("CASE" ++ behind " " subject ++ String.join (first :: others)
    ++ behind " ELSE " otherwise ++ " END")

/-- Reads the rest of a cast. -/
def cast (g : Grammar) (word : String) : TokenParser Term := parenthesized do
  let term ← g.exprText
  keyword "AS"
  let type ← DataType.any
  let format ← after? ["FORMAT"] (Literal.normal <$> literal)
  let zone ←
    if format.isSome then after? ["AT", "TIME", "ZONE"] (Literal.normal <$> literal) else pure none
  return .other (word ++ "(" ++ term ++ " AS " ++ type.normal ++ behind " FORMAT " format
    ++ behind " AT TIME ZONE " zone ++ ")")

/-- Reads the rest of a conversion. -/
def convert (g : Grammar) : TokenParser Term := parenthesized do
  let term ← g.exprText
  if ← keyword? "USING" then
    return .other ("CONVERT(" ++ term ++ " USING " ++ dotted (← dottedName) ++ ")")
  else
    sign ","
    let type ← DataType.any
    let charset ← after? ["CHARACTER", "SET"] (return dotted (← dottedName))
    return .other ("CONVERT(" ++ term ++ ", " ++ type.normal ++ behind " CHARACTER SET " charset
      ++ ")")

/-- Reads the rest of a test for rows. -/
def existsTerm (g : Grammar) (negated : Bool) : TokenParser Term := do
  let query ← parenthesized g.queryText
  return .subquery (textIf negated "NOT " ++ "EXISTS (" ++ query ++ ")")

/-- Reads the rest of an extraction from a time. -/
def extract (g : Grammar) : TokenParser Term := parenthesized do
  let unit ← oneOf timeUnits
  keyword "FROM"
  return .other ("EXTRACT(" ++ unit ++ " FROM " ++ (← g.exprText) ++ ")")

/-- Reads the rest of a rounding. -/
def rounding (g : Grammar) (word : String) : TokenParser Term := parenthesized do
  let term ← g.exprText
  let unit ← after? ["TO"] (oneOf timeUnits)
  return .other (word ++ "(" ++ term ++ behind " TO " unit ++ ")")

/-- Reads the rest of a search for a text in another, or of a name. -/
def position (g : Grammar) (word : Name) : TokenParser Term := do
  if (← peekSign) ≠ "(" then g.named word
  else parenthesized do
    let term ← g.term betweenStrength
    keyword "IN"
    return .other ("POSITION(" ++ term.normal ++ " IN " ++ (← g.exprText) ++ ")")

/-- Reads the rest of a cut from a text. -/
def substring (g : Grammar) : TokenParser Term := parenthesized do
  let part (word : String) : TokenParser (Option String) := do
    if ← keyword? word then some <$> g.exprText
    else if ← sign? "," then some <$> g.exprText
    else return none
  let term ← g.exprText
  let start ← part "FROM"
  let length ← part "FOR"
  return .other ("SUBSTRING(" ++ term ++ behind " FROM " start ++ behind " FOR " length ++ ")")

/-- Reads the rest of a replacement in a text. -/
def overlay (g : Grammar) : TokenParser Term := parenthesized do
  let term ← g.exprText
  keyword "PLACING"
  let new ← g.exprText
  keyword "FROM"
  let start ← g.exprText
  let length ← after? ["FOR"] g.exprText
  return .other ("OVERLAY(" ++ term ++ " PLACING " ++ new ++ " FROM " ++ start
    ++ behind " FOR " length ++ ")")

/-- Reads the rest of a trimming. Behind a comma, the side does not count. -/
def trim (g : Grammar) : TokenParser Term := parenthesized do
  let side := ((← oneOf? ["BOTH", "LEADING", "TRAILING"]).map (· ++ " ")).getD ""
  let term ← g.exprText
  if ← keyword? "FROM" then
    return .other ("TRIM(" ++ side ++ term ++ " FROM " ++ (← g.exprText) ++ ")")
  else if ← sign? "," then
    return .other ("TRIM(" ++ term ++ ", " ++ commas (← g.exprTexts) ++ ")")
  else return .other ("TRIM(" ++ side ++ term ++ ")")

/-- Reads the elements of an array behind their opening bracket. -/
def elements (g : Grammar) (word : String) : TokenParser Term := do
  let terms ← if (← peekSign) = "]" then pure [] else g.exprTexts
  sign "]"
  return .other (word ++ "[" ++ commas terms ++ "]")

/-- Reads what follows the word ARRAY. -/
def array (g : Grammar) (word : Name) : TokenParser Term := do
  if ← sign? "[" then g.elements "ARRAY"
  else if (← peekSign) = "(" then return .other ("ARRAY(" ++ (← parenthesized g.queryText) ++ ")")
  else g.named word

/-- Reads the rest of an aggregation into an array. -/
def arrayAggregate (g : Grammar) : TokenParser Term := parenthesized do
  let distinct ← keyword? "DISTINCT"
  let term ← g.exprText
  let order ← g.orderByText
  let limit ←
    if ← keyword? "LIMIT" then
      if ← keyword? "ALL" then pure none else some <$> g.exprText
    else pure none
  return .other ("ARRAY_AGG(" ++ textIf distinct "DISTINCT " ++ term ++ order
    ++ behind " LIMIT " limit ++ ")")

/-- Whether a token begins the text that takes the place of what is cut off: a text in single quotes
of any kind but bytes and raw texts. -/
def beginsFiller : Option Token → Bool
  | some (.string _) | some (.escaped _) | some (.hex _) => true
  | some (.literal normal) => normal.startsWith "N"
  | _ => false

/-- Reads what an aggregation into a text does where the text becomes too long. -/
def overflow (g : Grammar) : TokenParser String := do
  if ← keyword? "ERROR" then return "ERROR"
  else
    keyword "TRUNCATE"
    let filler ← if beginsFiller (← peek) then some <$> g.exprText else pure none
    let count ← oneOf ["WITH", "WITHOUT"]
    keyword "COUNT"
    return "TRUNCATE" ++ behind " " filler ++ " " ++ count ++ " COUNT"

/-- Reads the rest of an aggregation into a text. -/
def listAggregate (g : Grammar) : TokenParser Term := do
  let inner ← parenthesized do
    let distinct ← g.distinct?
    let term ← g.exprText
    let separator ← if ← sign? "," then some <$> g.exprText else pure none
    let overflow ← after? ["ON", "OVERFLOW"] g.overflow
    return textIf distinct.isSome "DISTINCT " ++ term ++ behind ", " separator
      ++ behind " ON OVERFLOW " overflow
  let order ← after? ["WITHIN", "GROUP"] (parenthesized do
    phrase ["ORDER", "BY"]
    return commas ((← commaSeparated g.sortTerm).map SortTerm.normal))
  return .other ("LISTAGG(" ++ inner ++ ")"
    ++ behind "" (order.map fun terms => " WITHIN GROUP (ORDER BY " ++ terms ++ ")"))

/-- Reads the rest of a search for a text in several columns. -/
def matchAgainst : TokenParser Term := do
  let columns ← nameList
  keyword "AGAINST"
  let searched ← parenthesized do
    let text := (← literal).normal
    let modes := [
      ["IN", "NATURAL", "LANGUAGE", "MODE", "WITH", "QUERY", "EXPANSION"],
      ["IN", "NATURAL", "LANGUAGE", "MODE"], ["IN", "BOOLEAN", "MODE"],
      ["WITH", "QUERY", "EXPANSION"]]
    let mode ← modes.findSomeM? fun words => do
      return if ← phrase? words then some (" ".intercalate words) else none
    return text ++ behind " " mode
  return .other ("MATCH " ++ inParentheses (columns.map Name.normal)
    ++ " AGAINST (" ++ searched ++ ")")

/-- Reads the type of a field of a structure, behind the name of the field unless a keyword is next
in its place, and tells whether its last sign closes the list of fields as well. -/
def structureField : TokenParser (String × Bool) := do
  let anonymous := match ← peek with
    | some (.word text _) => isKeyword text
    | _ => false
  let label ← if anonymous then pure none else some <$> name
  let (type, closes) ← DataType.inner
  return (behind "" (label.map (·.normal ++ " ")) ++ type.normal, closes)

/-- Reads the fields of a structure between angle brackets, if one is next. -/
def structureFields : TokenParser (List String) := do
  if ¬ (← sign? "<") then return []
  else
    let fields ← commaSeparated structureField
    require (fields.dropLast.all fun field => ¬ field.2)
    let closed := (fields.getLast?.map Prod.snd).getD false
    unless closed do sign ">"
    return fields.map Prod.fst

/-- Reads the rest of a structure. Its values are named only where its fields are not described. -/
def structure_ (g : Grammar) : TokenParser Term := do
  let fields ← structureFields
  let value : TokenParser String := do
    let term ← g.exprText
    let label ← after? ["AS"] name
    require (fields.isEmpty ∨ label.isNone)
    return term ++ behind " AS " (label.map Name.normal)
  let values ← parenthesized (commaSeparated value)
  let described := if fields.isEmpty then "" else "<" ++ commas fields ++ ">"
  return .other ("STRUCT" ++ described ++ inParentheses values)

/-- Reads the rest of a negation. -/
def negation (g : Grammar) : TokenParser Term := do
  if ← keyword? "EXISTS" then g.existsTerm true
  else return .unary .not (← g.term notStrength)

/-! ## Operands -/

/-- The operands that begin with a keyword, and the parsers of what follows it. -/
def keywordOperands (g : Grammar) : List (String × (Name → TokenParser Term)) := [
  ("TRUE", fun _ => return .literal (.spelled "true")),
  ("FALSE", fun _ => return .literal (.spelled "false")),
  ("NULL", fun _ => return .literal (.spelled "NULL")),
  ("CURRENT_CATALOG", sessionValue), ("CURRENT_USER", sessionValue),
  ("SESSION_USER", sessionValue), ("USER", sessionValue),
  ("CURRENT_TIMESTAMP", g.clock), ("CURRENT_TIME", g.clock), ("CURRENT_DATE", g.clock),
  ("LOCALTIME", g.clock), ("LOCALTIMESTAMP", g.clock),
  ("CASE", fun _ => g.caseTerm), ("CONVERT", fun _ => g.convert),
  ("CAST", fun _ => g.cast "CAST"), ("TRY_CAST", fun _ => g.cast "TRY_CAST"),
  ("SAFE_CAST", fun _ => g.cast "SAFE_CAST"), ("EXISTS", fun _ => g.existsTerm false),
  ("EXTRACT", fun _ => g.extract), ("CEIL", fun _ => g.rounding "CEIL"),
  ("FLOOR", fun _ => g.rounding "FLOOR"), ("POSITION", g.position),
  ("SUBSTRING", fun _ => g.substring), ("OVERLAY", fun _ => g.overlay), ("TRIM", fun _ => g.trim),
  ("INTERVAL", fun _ => g.interval), ("ARRAY", g.array),
  ("ARRAY_AGG", fun _ => g.arrayAggregate), ("LISTAGG", fun _ => g.listAggregate),
  ("NOT", fun _ => g.negation), ("MATCH", fun _ => matchAgainst),
  ("STRUCT", fun _ => g.structure_)]

/-- Reads what follows an opening parenthesis in front of an operand. -/
def inner (g : Grammar) : TokenParser Term := do
  let term ←
    if ["SELECT", "WITH"].contains (← peekKey) then
      pure (Term.subquery ("(" ++ (← g.queryText) ++ ")"))
    else
      match ← commaSeparated g.expr with
      | [term] => pure (.nested term)
      | terms => pure (.other (inParentheses (terms.map Term.normal)))
  sign ")"
  if ← sign? "." then
    match ← next with
    | .word text quote => return .other (term.normal ++ "." ++ Name.normal ⟨text, quote⟩)
    | _ => failure
  else return term

/-- Reads a type that is none of the user's and a literal of that type. -/
def typedLiteral (g : Grammar) : TokenParser Term := do
  let type ← DataType.any
  require (¬ type.custom)
  if type.normal = "INTERVAL" then g.interval
  else return .other (type.normal ++ " " ++ quoted '\'' (← literalText))

/-- Reads an operand without what may stand behind it. -/
def bareOperand (g : Grammar) : TokenParser Term := do
  match ← peek with
  | some (.word text quote) =>
    let t ← next
    match g.keywordOperands.lookup t.key with
    | some rest => rest ⟨text, quote⟩
    | none => g.named ⟨text, quote⟩
  | some (.symbol "-") =>
    let _ ← next
    return .unary .minus (← g.term signStrength)
  | some (.symbol "+") =>
    let _ ← next
    return .unary .plus (← g.term signStrength)
  | some (.symbol "(") =>
    let _ ← next
    g.inner
  | some (.symbol "[") =>
    let _ ← next
    g.elements ""
  | _ => return .literal (← literal)

/-- Reads an operand. -/
def readOperand (g : Grammar) : TokenParser Term := do
  match ← attempt g.typedLiteral with
  | some term => return term
  | none =>
    let term ← g.bareOperand
    match ← after? ["COLLATE"] dottedName with
    | some collation => return .other (term.normal ++ " COLLATE " ++ dotted collation)
    | none => return term

/-- Reads a term whose operators bind more tightly than a bound. -/
def readTerm (g : Grammar) (low : Nat) : TokenParser Term := do
  let first ← g.readOperand
  extend g.operation strength low ((← get).length + 1) first

end Grammar

end FlatQuery.Sql
