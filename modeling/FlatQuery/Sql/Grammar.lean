import FlatQuery.Sql.Grammar.Command

set_option autoImplicit false

/-! # The grammar

The parsers of the constructs that contain one another, tied together: a construct of some height is
read by parsers for constructs that are less high. -/

namespace FlatQuery.Sql

namespace Grammar

/-- The grammar whose constructs contain those of another grammar. -/
def above (g : Grammar) : Grammar where
  operand := g.readOperand
  term := g.readTerm
  query := g.readQuery
  body := g.readBody
  factor := g.readFactor

/-- The grammar of constructs up to a height. -/
def ofHeight : Nat → Grammar
  | 0 => empty
  | height + 1 => (ofHeight height).above

/-- How deep queries and terms may be nested in one another. -/
def maxLevels : Nat := 50

/-- The statements that a sequence of tokens says. A construct takes a token at least every four
steps down to the constructs in it, so none is higher than four times the number of tokens. -/
def read (tokens : List Token) : Option (List Sentence) :=
  let g := ofHeight (4 * (tokens.length + 1))
  (g.sentences.run maxLevels tokens).map Prod.fst

end Grammar

end FlatQuery.Sql
