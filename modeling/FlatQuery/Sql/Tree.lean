import FlatQuery.Statement

set_option autoImplicit false

/-! # Query trees

What a query text says before it is checked against what the engine runs. A construct that the
engine may run is kept in its parts. Of any other construct the tree keeps its text in normal form,
which is what messages show of it, or records that it is there. -/

namespace FlatQuery.Sql

/-- A name with the quotation mark around it if there is one. -/
structure Name where
  text : String
  quote : Option Char
  deriving DecidableEq, Repr, Inhabited

/-! ## Terms -/

/-- A literal: a number, with or without the letter `L` behind it, or another literal in normal
form. -/
inductive Literal
  | number (digits : String) (long : Bool)
  | spelled (normal : String)
  deriving DecidableEq, Repr

/-- The operators with one operand. The last one stands behind its operand. -/
inductive UnaryOperator
  | minus | plus | not | factorial
  deriving DecidableEq, Repr

/-- The operators between two operands. -/
inductive InfixOperator
  /-- An operator that expressions have. -/
  | binary (op : BinaryOp)
  | or
  | other (symbol : String)
  deriving DecidableEq, Repr

/-- A term. -/
inductive Term
  /-- A column, as the parts of its name. -/
  | name (parts : List Name)
  | literal (value : Literal)
  | nested (inner : Term)
  | unary (op : UnaryOperator) (operand : Term)
  | operation (op : InfixOperator) (left right : Term)
  /-- A call of a function. -/
  | call (function : List Name) (normal : String)
  /-- A term whose outermost construct is a query. -/
  | subquery (normal : String)
  | other (normal : String)
  deriving DecidableEq, Repr

/-- A term that rows are ordered by. -/
structure SortTerm where
  term : Term
  ascending : Option Bool
  nullsFirst : Option Bool
  deriving DecidableEq, Repr

/-! ## Queries -/

/-- The alias of a table, with names for its columns. -/
structure TableAlias where
  name : Name
  columns : List Name
  deriving DecidableEq, Repr

/-- An item of a SELECT list. A wildcard comes with its options, each with a blank before it. -/
inductive Item
  | wildcard (options : String)
  | qualifiedWildcard (qualifier : List Name) (options : String)
  | term (t : Term)
  | aliased (t : Term) («alias» : Name)
  deriving DecidableEq, Repr

/-- How duplicates in a SELECT list are treated. -/
inductive Distinct
  | rows
  /-- Rows that agree on some terms. -/
  | on (normal : String)
  deriving DecidableEq, Repr

/-- The joins that may have a condition. -/
inductive JoinKind
  | inner | left | right | full | leftSemi | rightSemi | leftAnti | rightAnti
  deriving DecidableEq, Repr

/-- The condition of a join. -/
inductive JoinCondition
  | none
  | on (term : Term)
  /-- The columns of a name are equal. -/
  | shared (columns : List Name)
  | natural
  deriving DecidableEq, Repr

/-- The operators between two tables of a FROM list. -/
inductive JoinOperator
  | cross
  | conditional (kind : JoinKind) (condition : JoinCondition)
  | crossApply
  | outerApply
  deriving DecidableEq, Repr

/-- What the quantifier behind a set operator says of duplicates. -/
inductive SetQuantifier
  | none | all | distinct | byName | allByName | distinctByName
  deriving DecidableEq, Repr

mutual

/-- An entry of a FROM list. -/
inductive Factor
  /-- A table, or with arguments a function that yields one. -/
  | table (name : List Name) (partitions : List Name) (arguments : Option (List String))
    («alias» : Option TableAlias) (hints : List String)
  /-- A table derived from a query. -/
  | derived (lateral : Bool) (query : Query) («alias» : Option TableAlias)
  /-- Joins in parentheses. -/
  | joined (inner : String) («alias» : Option TableAlias)
  /-- Any other entry, with the text on both sides of its alias. -/
  | other (before : String) («alias» : Option TableAlias) (after : String)

/-- An entry that is joined to those on its left. -/
structure Join where
  operator : JoinOperator
  factor : Factor

/-- An element of a FROM list: an entry and those joined to it. -/
structure Source where
  factor : Factor
  joins : List Join

/-- A SELECT block. -/
structure Block where
  distinct : Option Distinct
  top : Option String
  items : List Item
  into : Option String
  sources : List Source
  lateralViews : List String
  /-- The WHERE condition. -/
  condition : Option Term
  groupBy : Option String
  clusterBy : Option String
  distributeBy : Option String
  sortBy : Option String
  having : Option String
  windows : Option String
  qualify : Option String

/-- The body of a query: its blocks and what combines them. -/
inductive Body
  | block (block : Block)
  | query (query : Query)
  | setOperation (op : SetOperator) (quantifier : SetQuantifier) (left right : Body)
  | values (normal : String)
  | other (normal : String)

/-- A query. -/
structure Query where
  /-- The queries named by WITH. -/
  ctes : Option String
  body : Body
  orderBy : List SortTerm
  limit : Option String
  offset : Option String
  limitBy : Option String
  fetch : Option String
  locks : List String
  /-- The form of the result that FOR asks for. -/
  resultForm : Option String

end

/-- A statement of a query text: a query, or a command that begins with a word. -/
inductive Sentence
  | query (query : Query)
  | command (word : String)

end FlatQuery.Sql
