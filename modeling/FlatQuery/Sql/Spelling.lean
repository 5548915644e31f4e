import FlatQuery.Sql.Token
import FlatQuery.Sql.Tree

set_option autoImplicit false

/-! # Normal forms

The text of a tree in normal form: keywords in upper case, one blank around operators, a comma and a
blank between the members of a list, and names with their own quotation marks. Messages show it. -/

namespace FlatQuery.Sql

/-! ## Quotations -/

/-- The text between two quotation marks: a mark is doubled, but not one behind a backslash, and of
two marks side by side neither is. -/
def doubleMarks (mark : Char) (escaped : Bool) : List Char → List Char
  | [] => []
  | [c] => if c = mark ∧ ¬ escaped then [c, c] else [c]
  | c :: d :: rest =>
    if c ≠ mark then c :: doubleMarks mark (c == '\\') (d :: rest)
    else if escaped then c :: doubleMarks mark true (d :: rest)
    else if d = mark then c :: c :: doubleMarks mark false rest
    else c :: c :: doubleMarks mark false (d :: rest)

/-- A text in quotation marks. -/
def quoted (mark : Char) (text : String) : String :=
  String.ofList (mark :: doubleMarks mark false text.toList ++ [mark])

/-- A character in a quotation behind the letter `E`. -/
def escapeChar (c : Char) : List Char :=
  if c = '\'' then ['\\', '\'']
  else if c = '\\' then ['\\', '\\']
  else if c = '\n' then ['\\', 'n']
  else if c = '\t' then ['\\', 't']
  else if c = '\r' then ['\\', 'r']
  else [c]

/-- The normal form of a text in single quotes behind the letter `E`. -/
def escapedText (text : String) : String :=
  "E'" ++ String.ofList (text.toList.flatMap escapeChar) ++ "'"

/-! ## Lists and options -/

/-- The members of a list with commas between them. -/
def commas (texts : List String) : String := ", ".intercalate texts

/-- The members of a list in parentheses. -/
def inParentheses (texts : List String) : String := "(" ++ commas texts ++ ")"

/-- A text behind a mark, and nothing for no text. -/
def behind (mark : String) : Option String → String
  | some text => mark ++ text
  | none => ""

/-- A list of texts behind a mark, and nothing for an empty list. -/
def listBehind (mark : String) (texts : List String) : String :=
  if texts.isEmpty then "" else mark ++ commas texts

/-- A text if a condition holds. -/
def textIf (c : Bool) (text : String) : String := if c then text else ""

/-! ## Names, literals and terms -/

/-- The text of a token, whose quotation marks are not doubled. -/
def Token.shown : Token → String
  | word text none => text
  | word text (some mark) => mark.toString ++ text ++ mark.toString
  | number digits long => digits ++ textIf long "L"
  | string value => "'" ++ value ++ "'"
  | escaped value => "E'" ++ value ++ "'"
  | hex digits => "X'" ++ digits ++ "'"
  | literal normal => normal
  | placeholder text => text
  | symbol "!=" => "<>"
  | symbol text => text

/-- The normal form of a name. -/
def Name.normal (n : Name) : String :=
  match n.quote with
  | some mark => quoted mark n.text
  | none => n.text

/-- The normal form of a name of several parts. -/
def dotted (parts : List Name) : String := ".".intercalate (parts.map Name.normal)

/-- The normal form of a literal. -/
def Literal.normal : Literal → String
  | number digits long => digits ++ textIf long "L"
  | spelled normal => normal

/-- The symbol of an operator. -/
def InfixOperator.symbol : InfixOperator → String
  | binary op => op.symbol
  | or => "OR"
  | other symbol => symbol

/-- The normal form of a term. -/
def Term.normal : Term → String
  | name parts => dotted parts
  | literal value => value.normal
  | nested inner => "(" ++ inner.normal ++ ")"
  | unary .minus operand => "-" ++ operand.normal
  | unary .plus operand => "+" ++ operand.normal
  | unary .not operand => "NOT " ++ operand.normal
  | unary .factorial operand => operand.normal ++ "!"
  | operation op left right => left.normal ++ " " ++ op.symbol ++ " " ++ right.normal
  | call _ normal => normal
  | subquery normal => normal
  | other normal => normal

/-- The normal form of a term that rows are ordered by. -/
def SortTerm.normal (s : SortTerm) : String :=
  s.term.normal
    ++ (match s.ascending with | some true => " ASC" | some false => " DESC" | none => "")
    ++ (match s.nullsFirst with
      | some true => " NULLS FIRST" | some false => " NULLS LAST" | none => "")

/-! ## Queries -/

/-- The normal form of an alias. -/
def TableAlias.normal (a : TableAlias) : String :=
  a.name.normal
    ++ (if a.columns.isEmpty then "" else " " ++ inParentheses (a.columns.map Name.normal))

/-- The alias behind an entry of a FROM list. -/
def aliasBehind (a : Option TableAlias) : String := behind " AS " (a.map TableAlias.normal)

/-- The normal form of an item of a SELECT list. -/
def Item.normal : Item → String
  | wildcard options => "*" ++ options
  | qualifiedWildcard qualifier options => dotted qualifier ++ ".*" ++ options
  | term t => t.normal
  | aliased t name => t.normal ++ " AS " ++ name.normal

/-- The normal form of a treatment of duplicates. -/
def Distinct.normal : Distinct → String
  | rows => "DISTINCT"
  | on normal => "DISTINCT ON (" ++ normal ++ ")"

/-- The words in front of JOIN. -/
def JoinKind.words : JoinKind → String
  | inner => ""
  | left => "LEFT "
  | right => "RIGHT "
  | full => "FULL "
  | leftSemi => "LEFT SEMI "
  | rightSemi => "RIGHT SEMI "
  | leftAnti => "LEFT ANTI "
  | rightAnti => "RIGHT ANTI "

/-- The condition behind a joined entry. -/
def JoinCondition.normal : JoinCondition → String
  | on term => " ON " ++ term.normal
  | shared columns => " USING" ++ inParentheses (columns.map Name.normal)
  | none | natural => ""

/-- A join, with the normal form of the joined entry. -/
def JoinOperator.normal (entry : String) : JoinOperator → String
  | cross => " CROSS JOIN " ++ entry
  | conditional kind condition =>
    textIf (condition = .natural) " NATURAL" ++ " " ++ kind.words ++ "JOIN " ++ entry
      ++ condition.normal
  | crossApply => " CROSS APPLY " ++ entry
  | outerApply => " OUTER APPLY " ++ entry

/-- The words behind a set operator. -/
def SetQuantifier.words : SetQuantifier → String
  | none => ""
  | all => " ALL"
  | distinct => " DISTINCT"
  | byName => " BY NAME"
  | allByName => " ALL BY NAME"
  | distinctByName => " DISTINCT BY NAME"

mutual

/-- The normal form of an entry of a FROM list. -/
def Factor.normal : Factor → String
  | .table name partitions arguments alias_ hints =>
    dotted name
      ++ (if partitions.isEmpty then ""
        else "PARTITION " ++ inParentheses (partitions.map Name.normal))
      ++ behind "" (arguments.map inParentheses) ++ aliasBehind alias_
      ++ (if hints.isEmpty then "" else " WITH " ++ inParentheses hints)
  | .derived lateral query alias_ =>
    textIf lateral "LATERAL " ++ "(" ++ query.normal ++ ")" ++ aliasBehind alias_
  | .joined inner alias_ => "(" ++ inner ++ ")" ++ aliasBehind alias_
  | .other before alias_ after => before ++ aliasBehind alias_ ++ after

/-- The normal form of a join. -/
def Join.normal : Join → String
  | ⟨operator, factor⟩ => operator.normal factor.normal

/-- The normal forms of joins one after another. -/
def Join.normals : List Join → String
  | [] => ""
  | j :: js => j.normal ++ Join.normals js

/-- The normal form of an element of a FROM list. -/
def Source.normal : Source → String
  | ⟨factor, joins⟩ => factor.normal ++ Join.normals joins

/-- The normal forms of the elements of a FROM list. -/
def Source.normals : List Source → List String
  | [] => []
  | s :: ss => s.normal :: Source.normals ss

/-- The normal form of a SELECT block. -/
def Block.normal : Block → String
  | b@{ sources, .. } =>
    "SELECT" ++ behind " " (b.distinct.map Distinct.normal) ++ behind " " b.top
      ++ " " ++ commas (b.items.map Item.normal) ++ behind " " b.into
      ++ listBehind " FROM " (Source.normals sources) ++ String.join b.lateralViews
      ++ behind " WHERE " (b.condition.map Term.normal) ++ behind " GROUP BY " b.groupBy
      ++ behind " CLUSTER BY " b.clusterBy ++ behind " DISTRIBUTE BY " b.distributeBy
      ++ behind " SORT BY " b.sortBy ++ behind " HAVING " b.having ++ behind " WINDOW " b.windows
      ++ behind " QUALIFY " b.qualify

/-- The normal form of the body of a query. -/
def Body.normal : Body → String
  | .block block => block.normal
  | .query query => "(" ++ query.normal ++ ")"
  | .setOperation op quantifier left right =>
    left.normal ++ " " ++ op.keyword ++ quantifier.words ++ " " ++ right.normal
  | .values normal => normal
  | .other normal => normal

/-- The normal form of a query. -/
def Query.normal : Query → String
  | q@{ body, .. } =>
    behind "" (q.ctes.map (· ++ " ")) ++ body.normal
      ++ listBehind " ORDER BY " (q.orderBy.map SortTerm.normal) ++ behind " LIMIT " q.limit
      ++ behind " " q.offset ++ behind " BY " q.limitBy ++ behind " " q.fetch
      ++ String.join (q.locks.map (" " ++ ·)) ++ behind " " q.resultForm

end

end FlatQuery.Sql
