import FlatQuery.Sql.Grammar.Command.Alteration
import FlatQuery.Sql.Grammar.Command.Definition
import FlatQuery.Sql.Grammar.Command.Rows
import FlatQuery.Sql.Grammar.Command.Session

set_option autoImplicit false

/-! # Statements

A statement is a query or a command, which its first word tells. Some commands hold other
statements. Of a command only the word by which messages name it is kept. -/

namespace FlatQuery.Sql

namespace Grammar

open TokenParser

/-! ## Commands that hold statements -/

/-- Reads a request for the plan of a statement, or for the columns of a table. A request is not
explained itself. -/
def explain (statement : TokenParser Sentence) : TokenParser Unit := do
  skip (keyword? "ANALYZE")
  skip (keyword? "VERBOSE")
  skipAfter ["FORMAT"] (oneOf ["TEXT", "JSON", "GRAPHVIZ"])
  match ← attempt statement with
  | some (.command word) => require (¬ ["EXPLAIN", "DESCRIBE"].contains word)
  | some (.query _) => return
  | none => skip dottedName

/-- Reads at most `bound` statements with semicolons between them. All tokens are read, unless the
word END follows a statement without a semicolon. -/
def upToStatements (statement : TokenParser Sentence) : Nat → TokenParser (List Sentence)
  | 0 => return []
  | bound + 1 => do
    modify (·.dropWhile (· = .symbol ";"))
    if (← peek).isNone then return []
    else
      let first ← statement
      if ← sign? ";" then return first :: (← upToStatements statement bound)
      else
        require ((← peek).isNone ∨ (← peekKey) = "END")
        return [first]

/-- Reads statements with semicolons between them. Each takes a token at least. -/
def inSequence (statement : TokenParser Sentence) : TokenParser (List Sentence) := do
  upToStatements statement ((← get).length + 1)

/-! ## Statements -/

/-- The words that begin a command, the words by which messages name it, and parsers of the rest. -/
def commands (g : Grammar) (statement : TokenParser Sentence) :
    List (String × String × TokenParser Unit) := [
  ("CREATE", "CREATE", g.create (skip (inSequence statement))), ("DROP", "DROP", g.drop),
  ("ALTER", "ALTER", g.alter), ("DELETE", "DELETE", g.delete), ("INSERT", "INSERT", skip g.insert),
  ("UPDATE", "UPDATE", skip g.update), ("MERGE", "MERGE", g.merge), ("COPY", "COPY", g.copy),
  ("TRUNCATE", "TRUNCATE", g.truncate), ("EXPLAIN", "EXPLAIN", explain statement),
  ("DESCRIBE", "DESCRIBE", explain statement), ("ANALYZE", "ANALYZE", g.analyze),
  ("BEGIN", "BEGIN", begin), ("START", "START", do keyword "TRANSACTION"; transactionModes),
  ("COMMIT", "COMMIT", commit), ("END", "COMMIT", commit), ("ROLLBACK", "ROLLBACK", rollback),
  ("SAVEPOINT", "SAVEPOINT", skip name),
  ("RELEASE", "RELEASE", do skip (keyword? "SAVEPOINT"); skip name),
  ("GRANT", "GRANT", grant), ("REVOKE", "REVOKE", revoke), ("SET", "SET", g.setVariable),
  ("SHOW", "SHOW", g.show), ("USE", "USE", skip name), ("CLOSE", "CLOSE", skip name),
  ("DISCARD", "DISCARD", skip (oneOf ["ALL", "PLANS", "SEQUENCES", "TEMP", "TEMPORARY"])),
  ("DEALLOCATE", "DEALLOCATE", do skip (keyword? "PREPARE"); skip name),
  ("EXECUTE", "EXECUTE", g.execute), ("PREPARE", "PREPARE", prepare (skip statement)),
  ("DECLARE", "DECLARE", g.declare), ("FETCH", "FETCH", fetchRows),
  ("ASSERT", "ASSERT", do skip g.expr; skipAfter ["AS"] g.expr),
  ("KILL", "KILL", do skip (oneOf? ["CONNECTION", "QUERY", "MUTATION"]); skip natural),
  ("ATTACH", "ATTACH", do skip (keyword? "DATABASE"); skip g.expr; keyword "AS"; skip name),
  ("MSCK", "MSCK", checkPartitions), ("CACHE", "CACHE", g.cache), ("UNCACHE", "UNCACHE", uncache),
  ("PRAGMA", "PRAGMA", pragma)]

/-- Reads a statement, given a parser for one inside it. -/
def sentenceWith (g : Grammar) (statement : TokenParser Sentence) : TokenParser Sentence := do
  let key ← peekKey
  if ["SELECT", "WITH", "VALUES"].contains key ∨ (← peekSign) = "(" then return .query (← g.query)
  else
    let _ ← next
    match (g.commands statement).lookup key with
    | some (word, rest) =>
      rest
      return .command word
    | none => failure

/-- Reads a statement that holds at most `bound` statements in one another. -/
def sentence (g : Grammar) : Nat → TokenParser Sentence
  | 0 => failure
  | bound + 1 => deeper (g.sentenceWith (g.sentence bound))

/-- Reads statements with semicolons between them. -/
def sentences (g : Grammar) : TokenParser (List Sentence) := do
  inSequence (g.sentence (← read))

end Grammar

end FlatQuery.Sql
