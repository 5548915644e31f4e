import FlatQuery.Error
import FlatQuery.Sql.Spelling
import FlatQuery.Text.Decimal

set_option autoImplicit false

/-! # From query trees to statements

A query tree becomes a statement that the engine can plan, or is refused for the first construct
that the engine does not run. Set operations and derived tables are kept, so that the planner can
refuse them. Prefix signs go into the expressions: a minus in front of a number belongs to the
literal, and any other one subtracts from zero. -/

namespace FlatQuery.Sql

/-! ## Terms -/

/-- The literal that a number stands for, with or without a minus in front. -/
def lowerNumber (negative : Bool) (digits : String) : Except Error Expr :=
  let text := textIf negative "-" ++ digits
  match Value.read? text.toList with
  | some value => .ok (.literal value)
  | none => .error (.unsupported ("non-integer literal " ++ text))

/-- The literal that a literal of the tree stands for, with or without a minus in front. -/
def Literal.lower (negative : Bool) : Literal → Except Error Expr
  | number digits _ => lowerNumber negative digits
  | spelled normal => .error (.unsupported ("literal " ++ normal))

/-- The column that a name stands for. -/
def lowerName : List Name → Except Error Expr
  | [column] => .ok (.column ⟨none, column.text⟩)
  | [table, column] => .ok (.column ⟨some table.text, column.text⟩)
  | parts => .error (.unsupported ("column reference " ++ dotted parts))

/-- The expression that a term stands for. -/
def Term.lower : Term → Except Error Expr
  | name parts => lowerName parts
  | literal value => value.lower false
  | nested inner => return .nested (← inner.lower)
  | unary .minus (literal value) => value.lower true
  | unary .minus operand => return .binary (.arithmetic .sub) (.literal 0) (← operand.lower)
  | unary .plus operand => operand.lower
  | unary .not _ => .error (.unsupported "NOT")
  | unary .factorial _ => .error (.unsupported "unary operator !")
  | operation (.binary op) left right => return .binary op (← left.lower) (← right.lower)
  | operation .or _ _ => .error (.unsupported "OR")
  | operation (.other symbol) _ _ => .error (.unsupported ("operator " ++ symbol))
  | call function _ => .error (.unsupported ("function " ++ dotted function))
  | subquery _ => .error (.unsupported "subquery in expression")
  | other normal => .error (.unsupported ("expression " ++ normal))

/-- The column that rows are ordered by. -/
def SortTerm.lower (s : SortTerm) : Except Error ColumnRef :=
  if s.ascending = some false then .error (.unsupported "ORDER BY ... DESC")
  else if s.nullsFirst.isSome then .error (.unsupported "NULLS FIRST/LAST")
  else do
    match ← s.term.lower with
    | .column ref => return ref
    | e => throw (.unsupported ("ORDER BY expression " ++ e.text))

/-! ## Queries -/

/-- The item of a statement that an item of a SELECT list stands for. -/
def Item.lower : Item → Except Error SelectItem
  | wildcard _ => .ok .wildcard
  | term t => return .expr (← t.lower)
  | aliased _ _ => .error (.unsupported "column alias in SELECT list")
  | qualifiedWildcard qualifier _ =>
    .error (.unsupported ("qualified wildcard " ++ dotted qualifier ++ ".*"))

/-- The table that a name in a FROM list stands for. -/
def lowerTable (table : List Name) (alias_ : Option TableAlias) : Except Error TableRef :=
  match table with
  | [name] =>
    match alias_ with
    | none => .ok ⟨name.text, none⟩
    | some ⟨label, []⟩ => .ok ⟨name.text, some label.text⟩
    | some ⟨_, _ :: _⟩ => .error (.unsupported "column aliases in FROM")
  | parts => .error (.unsupported ("qualified table name " ++ dotted parts))

/-- The condition that a join has. -/
def JoinOperator.lower : JoinOperator → Except Error (Option Expr)
  | cross => .ok none
  | conditional .inner .none => .ok none
  | conditional .inner (.on term) => some <$> term.lower
  | conditional .inner (.shared _) => .error (.unsupported "JOIN ... USING")
  | conditional .inner .natural => .error (.unsupported "NATURAL JOIN")
  | conditional .left _ | conditional .right _ | conditional .full _ =>
    .error (.unsupported "outer join")
  | _ => .error (.unsupported "join type")

/-- What a block asks for that is refused before its FROM list is looked at. -/
def Block.refusal? (b : Block) : Option Error :=
  if let some (.on _) := b.distinct then some (.unsupported "DISTINCT ON")
  else if b.top.isSome then some (.unsupported "TOP")
  else if b.into.isSome then some (.unsupported "SELECT INTO")
  else if b.groupBy.isSome then some (.unsupported "GROUP BY")
  else if b.having.isSome then some (.unsupported "HAVING")
  else none

/-- What a query asks for that is refused before its body is looked at. -/
def Query.refusal? (q : Query) : Option Error :=
  if q.ctes.isSome then some (.unsupported "WITH")
  else if q.limit.isSome then some (.unsupported "LIMIT")
  else if q.offset.isSome then some (.unsupported "OFFSET")
  else if q.fetch.isSome then some (.unsupported "FETCH")
  else if ¬ q.locks.isEmpty then some (.unsupported "locking clause")
  else none

/-- A statement whose rows are ordered. An empty list leaves the order as it is. -/
def orderRows (s : Statement) (terms : List SortTerm) : Except Error Statement :=
  match terms, s with
  | [], s => .ok s
  | terms, .select block => return .select { block with orderBy := ← terms.mapM SortTerm.lower }
  | _, .setOperation .. => .error (.unsupported "ORDER BY on a set operation")

/-- The rest of a block, once its FROM list is lowered. -/
def Block.lowerOver (b : Block) (entries : List JoinItem) : Except Error Select :=
  match entries with
  | [] => .error (.unsupported "SELECT without FROM")
  | first :: joins => do
    let items ← b.items.mapM Item.lower
    let condition ← b.condition.mapM Term.lower
    return ⟨b.distinct.isSome, items, first.right, joins, condition, []⟩

mutual

/-- The entry that an entry of a FROM list stands for. -/
def Factor.lower : Factor → Except Error FromItem
  | .table name _ arguments alias_ _ =>
    if arguments.isSome then .error (.unsupported "table-valued function")
    else return .table (← lowerTable name alias_)
  | .derived _ query alias_ => return .subquery (← query.lower) (alias_.map (·.name.text))
  | .joined inner alias_ =>
    .error (.unsupported ("FROM item: " ++ (Factor.joined inner alias_).normal))
  | .other before alias_ after =>
    .error (.unsupported ("FROM item: " ++ (Factor.other before alias_ after).normal))

/-- The joined entry that a join stands for. -/
def Join.lower : Join → Except Error JoinItem
  | ⟨operator, factor⟩ => do
    let right ← factor.lower
    return ⟨right, ← operator.lower⟩

/-- The joined entries that joins stand for. -/
def Join.lowerAll : List Join → Except Error (List JoinItem)
  | [] => .ok []
  | j :: js => return (← j.lower) :: (← Join.lowerAll js)

/-- The entries that an element of a FROM list stands for. -/
def Source.lower : Source → Except Error (List JoinItem)
  | ⟨factor, joins⟩ => do
    let first ← factor.lower
    return ⟨first, none⟩ :: (← Join.lowerAll joins)

/-- The entries that a FROM list stands for. -/
def Source.lowerAll : List Source → Except Error (List JoinItem)
  | [] => .ok []
  | s :: ss => return (← s.lower) ++ (← Source.lowerAll ss)

/-- The block that a SELECT block stands for. -/
def Block.lower : Block → Except Error Select
  | b@{ sources, .. } =>
    match b.refusal? with
    | some e => .error e
    | none => do b.lowerOver (← Source.lowerAll sources)

/-- The statement that the body of a query stands for. -/
def Body.lower : Body → Except Error Statement
  | .block b => return .select (← b.lower)
  | .query q => q.lower
  | .setOperation op _ left right => return .setOperation op (← left.lower) (← right.lower)
  | .values _ => .error (.unsupported "VALUES")
  | .other normal => .error (.unsupported ("query body: " ++ normal))

/-- The statement that a query stands for. -/
def Query.lower : Query → Except Error Statement
  | q@{ body, .. } =>
    match q.refusal? with
    | some e => .error e
    | none => do orderRows (← body.lower) q.orderBy

end

/-- The statement that a sentence stands for. A command is refused. -/
def Sentence.lower : Sentence → Except Error Statement
  | query q => q.lower
  | command word => .error (.unsupported ("statement: " ++ word))

end FlatQuery.Sql
