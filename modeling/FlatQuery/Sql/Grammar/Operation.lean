import FlatQuery.Sql.Grammar.Basic
import FlatQuery.Sql.Grammar.DataType

set_option autoImplicit false

/-! # Operations

An operator stands behind a term and goes on with it as long as it binds more tightly than the
operator before that term, so operators of one strength group to the left. -/

namespace FlatQuery.Sql

/-! ## Operators -/

/-- The signs that stand between two operands, and the operators that they are. -/
def signOperators : List (String × InfixOperator) := [
  ("=", .binary (.compare .eq)), ("==", .binary (.compare .eq)), ("!=", .binary (.compare .ne)),
  ("<>", .binary (.compare .ne)), ("<", .binary (.compare .lt)), ("<=", .binary (.compare .le)),
  (">", .binary (.compare .gt)), (">=", .binary (.compare .ge)), ("+", .binary (.arithmetic .add)),
  ("-", .binary (.arithmetic .sub)), ("*", .binary (.arithmetic .mul)),
  ("/", .binary (.arithmetic .div)), ("<=>", .other "<=>"), ("~", .other "~"), ("~*", .other "~*"),
  ("!~", .other "!~"), ("!~*", .other "!~*"), ("|", .other "|"), ("^", .other "^"),
  ("<<", .other "<<"), (">>", .other ">>"), ("&", .other "&"), ("//", .other "//"),
  ("%", .other "%"), ("||", .other "||"), ("&&", .other "&&")]

/-- The words that stand between two operands, and the operators that they are. -/
def wordOperators : List (String × InfixOperator) := [
  ("AND", .binary .and), ("OR", .or), ("XOR", .other "XOR")]

/-- How tightly signs bind that stand behind an operand. -/
def signStrengths : List (String × Nat) := [
  ("=", 20), ("==", 20), ("!=", 20), ("<>", 20), ("<", 20), ("<=", 20), (">", 20), (">=", 20),
  ("<=>", 20), ("~", 20), ("~*", 20), ("!~", 20), ("!~*", 20), ("|", 21), ("^", 22), ("#", 22),
  ("<<", 22), (">>", 22), ("&", 23), ("+", 30), ("-", 30), ("*", 40), ("/", 40), ("//", 40),
  ("%", 40), ("||", 40), ("::", 50), (":", 50), ("!", 50), ("[", 50), ("->", 50), ("->>", 50),
  ("#>", 50), ("#>>", 50), ("@>", 50), ("<@", 50), ("#-", 50), ("@?", 50), ("@@", 50), ("&&", 50)]

/-- How tightly words bind that stand behind an operand. -/
def wordStrengths : List (String × Nat) := [
  ("OR", 5), ("AND", 10), ("IS", 17), ("LIKE", 19), ("ILIKE", 19), ("SIMILAR", 19), ("REGEXP", 19),
  ("RLIKE", 19), ("IN", 20), ("BETWEEN", 20), ("OPERATOR", 20), ("XOR", 24), ("DIV", 40)]

/-- How tightly NOT binds behind an operand, by the word that follows it. -/
def negatedStrengths : List (String × Nat) := [
  ("LIKE", 19), ("ILIKE", 19), ("SIMILAR", 19), ("REGEXP", 19), ("RLIKE", 19), ("IN", 20),
  ("BETWEEN", 20)]

/-- How tightly the operator at the front of some tokens binds; 0 where there is none. -/
def strength : List Token → Nat
  | [] => 0
  | t :: rest =>
    if t.key = "NOT" then (rest.head?.bind fun u => negatedStrengths.lookup u.key).getD 0
    else if t.key = "AT" then if (rest.take 2).map Token.key = ["TIME", "ZONE"] then 20 else 0
    else (wordStrengths.lookup t.key <|> signStrengths.lookup t.sign).getD 0

/-- The strength of operators behind the text of an interval, where the logical ones end it. -/
def intervalStrength (tokens : List Token) : Nat :=
  if ["AND", "OR", "XOR"].contains ((tokens.head?.map Token.key).getD "") then 0
  else strength tokens

/-- The strength below which NOT takes its operand. -/
def notStrength : Nat := 15

/-- The strength below which LIKE takes its pattern. -/
def likeStrength : Nat := 19

/-- The strength below which BETWEEN takes its bounds. -/
def betweenStrength : Nat := 20

/-- The strength below which a sign in front takes its operand. -/
def signStrength : Nat := 40

/-- The units of time in which an interval may be given. -/
def intervalUnits : List String := [
  "YEAR", "MONTH", "WEEK", "DAY", "HOUR", "MINUTE", "SECOND", "CENTURY", "DECADE", "DOY", "DOW",
  "EPOCH", "ISODOW", "ISOYEAR", "JULIAN", "MICROSECOND", "MICROSECONDS", "MILLENIUM", "MILLENNIUM",
  "MILLISECOND", "MILLISECONDS", "NANOSECOND", "NANOSECONDS", "QUARTER", "TIMEZONE",
  "TIMEZONE_HOUR", "TIMEZONE_MINUTE"]

/-- The units of time, and the parts of a time that have no length. -/
def timeUnits : List String :=
  intervalUnits ++ ["DATE", "DAYOFWEEK", "DAYOFYEAR", "ISOWEEK", "TIME"]

namespace Grammar

open TokenParser

/-- Extends a term by the operators behind it that bind more tightly than `low`, of which there are
fewer than `bound`, by means of a parser for one of them. -/
def extend (operation : Term → Nat → TokenParser Term) (strengthOf : List Token → Nat) (low : Nat)
    (bound : Nat) (t : Term) : TokenParser Term :=
  match bound with
  | 0 => failure
  | bound + 1 => do
    let s := strengthOf (← get)
    if s ≤ low then return t
    else extend operation strengthOf low bound (← operation t s)

/-! ## Operators behind an operand -/

/-- Reads the name of a custom operator. Its parts are tokens of any kind. -/
def customOperator : TokenParser InfixOperator := parenthesized do
  return .other ("OPERATOR(" ++ ".".intercalate (← separated "." (Token.shown <$> next)) ++ ")")

/-- Reads the operator that a token begins, if it stands between two operands. -/
def infixOperator? (t : Token) : TokenParser (Option InfixOperator) := do
  if t.key = "OPERATOR" then some <$> customOperator
  else return wordOperators.lookup t.key <|> signOperators.lookup t.sign

/-- Whether an operator can compare a term with all rows of a list. -/
def comparesAll : InfixOperator → Bool
  | .binary (.compare _) => true
  | _ => false

/-- Reads the right operand of an operator. -/
def rightOperand (g : Grammar) (left : Term) (op : InfixOperator) (s : Nat) : TokenParser Term := do
  match ← oneOf? ["ANY", "ALL"] with
  | none => return .operation op left (← g.term s)
  | some quantifier =>
    let right ← parenthesized (g.term s)
    require (comparesAll op)
    return .other (left.normal ++ " " ++ op.symbol ++ " " ++ quantifier
      ++ "(" ++ right.normal ++ ")")

/-- Reads what follows IS. -/
def isTest (g : Grammar) (left : Term) : TokenParser Term := do
  let negated ← keyword? "NOT"
  let start := left.normal ++ " IS " ++ textIf negated "NOT "
  match ← oneOf? ["NULL", "TRUE", "FALSE", "UNKNOWN"] with
  | some word => return .other (start ++ word)
  | none =>
    phrase ["DISTINCT", "FROM"]
    return .other (start ++ "DISTINCT FROM " ++ (← g.exprText))

/-- Reads what follows IN, given what stands before it. -/
def membership (g : Grammar) (start : String) : TokenParser Term := do
  if ← keyword? "UNNEST" then
    return .other (start ++ "IN UNNEST(" ++ (← parenthesized g.exprText) ++ ")")
  else parenthesized do
    if ["SELECT", "WITH"].contains (← peekKey) then
      return .subquery (start ++ "IN (" ++ (← g.queryText) ++ ")")
    else return .other (start ++ "IN " ++ inParentheses (← g.exprTexts))

/-- Reads what follows a word for likeness, given what stands before it. -/
def likeness (g : Grammar) (start : String) : TokenParser Term := do
  let pattern := (← g.term likeStrength).normal
  let escape ← after? ["ESCAPE"] literalChar
  return .other (start ++ pattern ++ behind "" (escape.map fun c => " ESCAPE '" ++ c ++ "'"))

/-- Reads a test of a term for a property that may be negated, from the word for it on. -/
def property (g : Grammar) (left : Term) (negated : Bool) : TokenParser Term := do
  let start := left.normal ++ " " ++ textIf negated "NOT "
  match ← oneOf ["REGEXP", "RLIKE", "IN", "BETWEEN", "LIKE", "ILIKE", "SIMILAR"] with
  | "IN" => g.membership start
  | "BETWEEN" =>
    let low ← g.term betweenStrength
    keyword "AND"
    let high ← g.term betweenStrength
    return .other (start ++ "BETWEEN " ++ low.normal ++ " AND " ++ high.normal)
  | "SIMILAR" =>
    keyword "TO"
    g.likeness (start ++ "SIMILAR TO ")
  | "LIKE" => g.likeness (start ++ "LIKE ")
  | "ILIKE" => g.likeness (start ++ "ILIKE ")
  | word =>
    if word = "REGEXP" then
      let _ ← keyword? "RLIKE"
    return .other (start ++ word ++ " " ++ (← g.term likeStrength).normal)

/-- Reads the name of a time zone behind AT. -/
def atTimeZone (left : Term) : TokenParser Term := do
  phrase ["TIME", "ZONE"]
  return .other (left.normal ++ " AT TIME ZONE '" ++ (← singleQuoted) ++ "'")

/-- Reads what follows a sign behind an operand. -/
def afterSign (g : Grammar) (left : Term) (text : String) : TokenParser Term := do
  match text with
  | "::" => return .other ("CAST(" ++ left.normal ++ " AS " ++ (← DataType.any).normal ++ ")")
  | "!" => return .unary .factorial left
  | ":" => return .other (left.normal ++ ":" ++ (← literal).normal)
  | "[" =>
    let index : TokenParser String := do
      let term ← g.exprText
      sign "]"
      return "[" ++ term ++ "]"
    let first ← index
    let others ← many do if ← sign? "[" then some <$> index else return none
    return .other (left.normal ++ String.join (first :: others))
  | _ =>
    require (["->", "->>", "#>", "#>>", "@>", "<@", "#-", "@?", "@@"].contains text)
    return .other (left.normal ++ " " ++ text ++ " " ++ (← g.exprText))

/-- Reads an operator of a certain strength behind a term, with all that belongs to it. -/
def operation (g : Grammar) (left : Term) (s : Nat) : TokenParser Term := do
  let t ← next
  match ← infixOperator? t with
  | some op => g.rightOperand left op s
  | none =>
    match t.key with
    | "" => g.afterSign left t.sign
    | "IS" => g.isTest left
    | "AT" => atTimeZone left
    | "NOT" => g.property left true
    | "DIV" => failure
    | _ =>
      modify (t :: ·)
      g.property left false

/-! ## Intervals -/

/-- Reads the rest of an interval. -/
def interval (g : Grammar) : TokenParser Term := do
  let first ← g.operand
  let value ← extend g.operation intervalStrength 0 ((← get).length + 1) first
  match ← oneOf? intervalUnits with
  | some "SECOND" => return .other ("INTERVAL " ++ value.normal ++ " SECOND" ++ (← precision))
  | unit =>
    let length ← length?
    if ← keyword? "TO" then
      let last ← oneOf timeUnits
      let lastLength ← if last = "SECOND" then length? else pure ""
      return .other ("INTERVAL " ++ value.normal ++ behind " " unit ++ length ++ " TO " ++ last
        ++ lastLength)
    else return .other ("INTERVAL " ++ value.normal ++ behind " " unit ++ length)
where
  length? : TokenParser String := do
    let length ← DataType.length?
    return textIf (length ≠ "") " " ++ length
  precision : TokenParser String := do
    if ¬ (← sign? "(") then return ""
    else
      let first ← natural
      let second ← if ← sign? "," then some <$> natural else pure none
      sign ")"
      return " (" ++ toString first ++ behind ", " (second.map toString) ++ ")"

end Grammar

end FlatQuery.Sql
