import FlatQuery.Proofs.Operands
import FlatQuery.Sql.Reading

set_option autoImplicit false

/-! # Reading what was printed

A canonical expression with plain names is read back from its text as it stands (`read_text`). The
parser of terms is followed along the operators on the left spine of the expression, which it meets
one after another; the operands in between are terms of their own. -/

namespace FlatQuery

open Sql (Token Term Grammar TokenParser)

/-! ## Terms of expressions -/

/-- The term that a literal is written as. -/
def Value.term (v : Value) : Term :=
  if 0 ≤ v.toInt then .literal (.number (toString v.toInt.natAbs) false)
  else .unary .minus (.literal (.number (toString v.toInt.natAbs) false))

/-- The term that an expression is written as. -/
def Expr.term : Expr → Term
  | column ref => .name ref.names
  | literal value => value.term
  | binary op left right => .operation (.binary op) left.term right.term
  | nested inner => .nested inner.term

theorem lowerNumber_eq {negative : Bool} {digits : String} {v : Value}
    (h : Value.read? (Sql.textIf negative "-" ++ digits).toList = some v) :
    Sql.lowerNumber negative digits = .ok (.literal v) := by
  simp only [Sql.lowerNumber, h]

theorem Value.lower_term (v : Value) : v.term.lower = .ok (.literal v) := by
  have hread := read?_text v
  rw [v.toList_text] at hread
  unfold Value.term
  by_cases hv : 0 ≤ v.toInt
  · rw [if_pos hv] at hread ⊢
    refine lowerNumber_eq ?_
    rw [String.toList_append]
    exact hread
  · rw [if_neg hv] at hread ⊢
    refine lowerNumber_eq ?_
    rw [String.toList_append]
    exact hread

/-- **An expression is what its term stands for.** -/
theorem Expr.lower_term (e : Expr) : e.term.lower = .ok e := by
  induction e with
  | column ref =>
    obtain ⟨table, column⟩ := ref
    cases table <;> rfl
  | literal value => exact value.lower_term
  | binary op left right ihl ihr => rw [term, Sql.Term.lower, ihl, ihr]; rfl
  | nested inner ih => rw [term, Sql.Term.lower, ih]; rfl

namespace Expr

/-- The number of operators on the left spine, outside of parentheses. -/
def chain : Expr → Nat
  | binary _ left _ => left.chain + 1
  | _ => 0

end Expr

namespace Sql

section Reading

variable {g : Grammar} {e : Expr} {levels k low : Nat} {rest : List Token}

/-- No word with a meaning of its own begins an expression with plain names. -/
theorem nextKey_tokens (h : e.Plain) : nextKey (e.tokens ++ rest) ∉ operandWords := by
  have hempty : "" ∉ operandWords := by decide
  induction e generalizing rest with
  | column ref =>
    have hplain := h ref (List.mem_singleton_self _)
    obtain ⟨table, column⟩ := ref
    cases table with
    | none => exact hplain.free
    | some t => exact hplain.1.free
  | literal v =>
    rw [Expr.tokens, Value.tokens]
    by_cases hv : 0 ≤ v.toInt
    · rw [if_pos hv]
      exact hempty
    · rw [if_neg hv]
      exact hempty
  | binary op left right ihl ihr =>
    rw [Expr.tokens, List.append_assoc]
    exact ihl fun c hc => h c (List.mem_append_left _ hc)
  | nested inner ih => exact hempty

/-- Whether a parser of terms reads an expression, in front of some tokens, as a first operand that
is extended to the whole of it. -/
def ReadsChain (g : Grammar) (levels : Nat) (e : Expr) (rest : List Token) : Prop :=
  ∃ first behind, g.readOperand levels (e.tokens ++ rest) = some (first, behind) ∧
    e.chain + rest.length ≤ behind.length ∧
    ∀ low bound, (∀ s ∈ e.strength?, low < s) →
      Grammar.extend g.operation strength low (bound + e.chain) first levels behind =
        Grammar.extend g.operation strength low bound e.term levels rest

theorem ReadsChain.readTerm (h : ReadsChain g levels e rest) (hlow : ∀ s ∈ e.strength?, low < s)
    (hrest : strength rest ≤ low) :
    g.readTerm low levels (e.tokens ++ rest) = some (e.term, rest) := by
  obtain ⟨first, behind, hfirst, hlength, hextend⟩ := h
  obtain ⟨n, hn⟩ := Nat.exists_eq_add_of_le hlength
  have hbound : behind.length + 1 = (rest.length + n + 1) + e.chain := by omega
  rw [Grammar.readTerm, TokenParser.bind_apply, hfirst, Option.bind_some, TokenParser.bind_apply,
    TokenParser.get_apply, Option.bind_some, hbound, hextend low _ hlow]
  exact extend_of_le hrest

theorem ReadsChain.of_operand (hchain : e.chain = 0)
    (h : g.readOperand levels (e.tokens ++ rest) = some (e.term, rest)) :
    ReadsChain g levels e rest :=
  ⟨e.term, rest, h, by rw [hchain, Nat.zero_add], fun low bound _ => by rw [hchain, Nat.add_zero]⟩

theorem closing_token (op : BinaryOp) (ts : List Token) : Closing (op.token :: ts) := by
  rintro t ⟨⟩
  exact .inr ⟨op, rfl⟩

theorem closing_parenthesis (ts : List Token) : Closing (.symbol ")" :: ts) := by
  rintro t ⟨⟩
  exact .inl rfl

/-- No operator binds more tightly than a sign in front of a number. -/
theorem strength_le_of_closing (h : Closing rest) : strength rest ≤ signStrength := by
  cases rest with
  | nil => decide
  | cons t ts =>
    rcases h t rfl with rfl | ⟨op, rfl⟩
    · exact Nat.zero_le _
    · rw [strength_token]
      rcases op with op | _ | op
      · cases op <;> decide
      · decide
      · cases op <;> decide

theorem strength_pos : ∀ s ∈ e.strength?, 0 < s := by
  cases e with
  | binary op left right =>
    rintro s ⟨⟩
    rcases op with op | _ | op
    · exact Nat.succ_pos 19
    · decide
    · cases op <;> decide
  | _ => rintro s ⟨⟩

theorem readTerm_of_operand {t : Term} {ts : List Token}
    (h : g.readOperand levels ts = some (t, rest)) (hrest : strength rest ≤ low) :
    g.readTerm low levels ts = some (t, rest) := by
  rw [Grammar.readTerm, TokenParser.bind_apply, h, Option.bind_some, TokenParser.bind_apply,
    TokenParser.get_apply, Option.bind_some]
  exact extend_of_le hrest

/-- **An expression in front of tokens that end it is read along its left spine**, if the operators
stand as they bind. -/
theorem readsChain (hplain : e.Plain) (hcanonical : e.Canonical) (hrest : Closing rest)
    (hstrength : ∀ s ∈ e.strength?, strength rest ≤ s) (hheight : e.tokens.length ≤ k)
    (hdepth : e.depth ≤ levels) : ReadsChain (Grammar.ofHeight k) levels e rest := by
  induction e generalizing rest k levels with
  | column ref =>
    exact .of_operand rfl (readOperand_columnRef (hplain ref (List.mem_singleton_self _)) hrest)
  | literal v =>
    refine .of_operand rfl ?_
    rw [Expr.tokens, Value.tokens] at *
    rw [Expr.term, Value.term]
    by_cases hv : 0 ≤ v.toInt
    · rw [if_pos hv, if_pos hv]
      exact readOperand_number hrest
    · rw [if_neg hv] at hheight
      rw [if_neg hv, if_neg hv]
      obtain ⟨k, rfl⟩ := Nat.exists_eq_add_of_le' (Nat.le_trans (by decide : 1 ≤ 2) hheight)
      exact readOperand_minus (readTerm_of_operand (readOperand_number hrest)
        (strength_le_of_closing hrest)) hrest
  | binary op left right ihl ihr =>
    obtain ⟨hleft, hright, hl, hr⟩ := hcanonical
    obtain ⟨hpl, hpr⟩ := List.forall_mem_append.1 hplain
    have hlength : left.tokens.length + (right.tokens.length + 1) ≤ k := by
      rw [Expr.tokens, List.length_append, List.length_cons] at hheight
      exact hheight
    obtain ⟨hdl, hdr⟩ := Nat.max_le.1 hdepth
    have hop : strength rest ≤ op.strength := hstrength _ rfl
    obtain ⟨k, rfl⟩ := Nat.exists_eq_add_of_le' (by omega : 1 ≤ k)
    -- the right operand is a term of its own, which ends where the whole expression ends
    have hterm : (Grammar.ofHeight k).readTerm op.strength levels (right.tokens ++ rest) =
        some (right.term, rest) :=
      (ihr hpr hright hrest (fun s hs => hop.trans (Nat.le_of_lt (hr s hs))) (by omega)
        hdr).readTerm hr hop
    have hkey : nextKey (right.tokens ++ rest) ∉ ["ANY", "ALL"] := fun hmem =>
      nextKey_tokens hpr ((by decide : ["ANY", "ALL"] ⊆ operandWords) hmem)
    -- the left operand is met first, and the operator extends it
    obtain ⟨first, behind, hfirst, hbehind, hextend⟩ :=
      ihl (k := k + 1) hpl hleft (closing_token op (right.tokens ++ rest))
        (fun s hs => (strength_token op _).le.trans (hl s hs)) (by omega) hdl
    refine ⟨first, behind, ?_, ?_, fun low bound hlow => ?_⟩
    · rw [Expr.tokens, List.append_assoc]
      exact hfirst
    · rw [List.length_cons, List.length_append] at hbehind
      rw [Expr.chain]
      omega
    · have hlt : low < op.strength := hlow _ rfl
      rw [Expr.chain, ← Nat.add_assoc, Nat.add_right_comm,
        hextend low (bound + 1) fun s hs => hlt.trans_le (hl s hs)]
      exact extend_of_lt ((strength_token op _).symm ▸ hlt)
        (operation_token hkey ((strength_token op _).symm ▸ hterm))
  | nested inner ih =>
    refine .of_operand rfl ?_
    have hlength : inner.tokens.length + 1 + 1 ≤ k := by
      rw [Expr.tokens, List.cons_append, List.length_cons, List.length_append] at hheight
      exact hheight
    obtain ⟨k, rfl⟩ := Nat.exists_eq_add_of_le' (by omega : 1 ≤ k)
    obtain ⟨levels, rfl⟩ := Nat.exists_eq_add_of_le' (Nat.le_of_add_left_le hdepth : 1 ≤ levels)
    have hinner : inner.depth ≤ levels := Nat.le_of_succ_le_succ hdepth
    have hterm : (Grammar.ofHeight k).readTerm 0 levels (inner.tokens ++ .symbol ")" :: rest) =
        some (inner.term, .symbol ")" :: rest) :=
      (ih hplain hcanonical (closing_parenthesis rest) (fun _ _ => Nat.zero_le _) (by omega)
        hinner).readTerm strength_pos (Nat.le_refl _)
    have htokens : (Expr.nested inner).tokens ++ rest =
        .symbol "(" :: (inner.tokens ++ .symbol ")" :: rest) := by
      simp [Expr.tokens]
    have hkey : nextKey (inner.tokens ++ .symbol ")" :: rest) ∉ ["SELECT", "WITH"] := fun hmem =>
      nextKey_tokens (e := inner) hplain ((by decide : ["SELECT", "WITH"] ⊆ operandWords) hmem)
    rw [htokens]
    exact readOperand_nested hkey hterm hrest

end Reading

/-! ## A query around an expression -/

/-- The text of a query with a certain condition. -/
def queryText (condition : String) : String := "SELECT * FROM T WHERE " ++ condition

/-- The statement that such a query is. -/
def queryOf (condition : Expr) : Statement :=
  .select ⟨false, [.wildcard], .table ⟨"T", none⟩, [], some condition, []⟩

/-- The tokens in front of the condition. -/
def queryTokens : List Token :=
  [.word "SELECT" none, .symbol "*", .word "FROM" none, .word "T" none, .word "WHERE" none]

/-- The block of such a query. -/
def queryBlock (condition : Term) : Block where
  distinct := none
  top := none
  items := [.wildcard ""]
  into := none
  sources := [⟨.table [⟨"T", none⟩] [] none none [], []⟩]
  lateralViews := []
  condition := some condition
  groupBy := none
  clusterBy := none
  distributeBy := none
  sortBy := none
  having := none
  windows := none
  qualify := none

/-- The tree of such a query. -/
def queryTree (condition : Term) : Query where
  ctes := none
  body := .block (queryBlock condition)
  orderBy := []
  limit := none
  offset := none
  limitBy := none
  fetch := none
  locks := []
  resultForm := none

theorem toList_queryText (condition : String) : (queryText condition).toList =
    "SELECT".toList ++ ' ' :: '*' :: ' ' :: ("FROM".toList ++ ' ' :: ("T".toList ++ ' ' ::
      ("WHERE".toList ++ ' ' :: condition.toList))) := by
  have htext : "SELECT * FROM T WHERE ".toList = "SELECT".toList ++ ' ' :: (['*'] ++ ' ' ::
      ("FROM".toList ++ ' ' :: ("T".toList ++ ' ' :: ("WHERE".toList ++ [' '])))) := by
    decide
  have hassoc (s f t w cs : List Char) :
      s ++ ' ' :: (['*'] ++ ' ' :: (f ++ ' ' :: (t ++ ' ' :: (w ++ [' '])))) ++ cs =
        s ++ ' ' :: '*' :: ' ' :: (f ++ ' ' :: (t ++ ' ' :: (w ++ ' ' :: cs))) := by
    simp
  exact String.toList_append.trans ((congrArg (· ++ condition.toList) htext).trans (hassoc ..))

theorem scans_queryText {condition : String} {ts : List Token}
    (h : Token.Scans condition.toList ts) :
    Token.Scans (queryText condition).toList (queryTokens ++ ts) := by
  have hword (text : String) (htext : Token.isWord text = true) {cs : List Char} {ts : List Token}
      (h : Token.Scans cs ts) : Token.Scans (text.toList ++ ' ' :: cs) (.word text none :: ts) :=
    Token.Scans.word htext Token.endsOperand_blank.endsWord h.blank
  have hwhere := hword "WHERE" (by decide) h
  have hfrom := hword "FROM" (by decide) (hword "T" (by decide +kernel) hwhere)
  have hstar : Token.Scans ('*' :: ' ' :: _) (.symbol "*" :: _) :=
    Token.Scans.operator (.arithmetic .mul) hfrom
  rw [toList_queryText]
  exact hword "SELECT" (by decide) hstar

theorem lower_queryTree {t : Term} {e : Expr} (h : t.lower = .ok e) :
    (queryTree t).lower = .ok (queryOf e) := by
  have hcondition : (some t).mapM Term.lower = .ok (some e) := by rw [Option.mapM_some, h]; rfl
  simp only [queryTree, queryBlock, Query.lower, Body.lower, Block.lower, Block.lowerOver,
    Source.lowerAll, Source.lower, Factor.lower, Join.lowerAll, hcondition]
  rfl

section Query

open TokenParser

variable {g : Grammar} {t : Term} {ts : List Token} {levels : Nat}

theorem item_star (h : nextKey ts ∉ ["EXCLUDE", "EXCEPT", "RENAME", "REPLACE"]) :
    g.item levels (.symbol "*" :: ts) = some (.wildcard "", ts) := by
  simp only [List.mem_cons, List.not_mem_nil, or_false, not_or] at h
  have hoptions : g.wildcardOptions levels ts = some ("", ts) := by
    simp [Grammar.wildcardOptions, after?_of_ne h.1, after?_of_ne h.2.1, after?_of_ne h.2.2.1,
      after?_of_ne h.2.2.2, behind]
  have hwildcard : wildcard? levels (.symbol "*" :: ts) = some (some [], ts) := by
    refine attempt_of_some ?_
    rw [bind_apply, many_none (attempt_of_none rfl)]
    simp [sign_symbol]
  simp [Grammar.item, hwildcard, hoptions]

theorem key_select : (Token.word "SELECT" none).key = "SELECT" := by decide

theorem key_where : (Token.word "WHERE" none).key = "WHERE" := by decide

theorem factor_queryTokens :
    g.readFactor levels (.word "T" none :: .word "WHERE" none :: ts) =
      some (.table [⟨"T", none⟩] [] none none [], .word "WHERE" none :: ts) := by
  have hT : (Token.word "T" none).key = "T" := by decide
  have hsign (text : String) (ts : List Token) : sign? "(" levels (.word text none :: ts) =
      some (false, .word text none :: ts) := sign?_of_ne (by simp)
  have hname : dottedName levels (.word "T" none :: .word "WHERE" none :: ts) =
      some ([⟨"T", none⟩], .word "WHERE" none :: ts) :=
    separated_one name_word (by simp)
  have halias : tableAlias? levels (.word "WHERE" none :: ts) =
      some (none, .word "WHERE" none :: ts) := by
    simp [tableAlias?, alias?, keyword?_of_ne, key_where, reservedAfterTable]
  have hhints : attempt (do keyword "WITH"; sign "(") levels (.word "WHERE" none :: ts) =
      some (none, .word "WHERE" none :: ts) := by
    refine attempt_of_none ?_
    simp [keyword, keyword?_of_ne, key_where]
  have hnamed : g.namedFactor levels (.word "T" none :: .word "WHERE" none :: ts) =
      some (.table [⟨"T", none⟩] [] none none [], .word "WHERE" none :: ts) := by
    rw [Grammar.namedFactor, bind_apply, hname]
    simp [after?_of_ne, key_where, hsign, halias, hhints, Grammar.rotations, oneOf?_of_not_mem]
  simp [Grammar.readFactor, hT, keyword?_of_ne, hsign, hnamed]

theorem source_queryTokens :
    g.above.source levels (.word "T" none :: .word "WHERE" none :: ts) =
      some (⟨.table [⟨"T", none⟩] [] none none [], []⟩, .word "WHERE" none :: ts) := by
  have hfactor : g.above.factor levels (.word "T" none :: .word "WHERE" none :: ts) = _ :=
    factor_queryTokens
  have hjoin : g.above.join? levels (.word "WHERE" none :: ts) =
      some (none, .word "WHERE" none :: ts) := by
    simp [Grammar.join?, keyword?_of_ne, key_where]
  rw [Grammar.source, bind_apply, hfactor, Option.bind_some, bind_apply, many_none hjoin]
  rfl

theorem block_queryTokens (hterm : g.above.expr levels ts = some (t, [])) :
    g.above.block levels (.symbol "*" :: .word "FROM" none :: .word "T" none ::
      .word "WHERE" none :: ts) = some (queryBlock t, []) := by
  have hfrom : (Token.word "FROM" none).key = "FROM" := by decide
  have hstar (word : String) (hword : "" ≠ word) (ts : List Token) :
      nextKey (.symbol "*" :: ts) ≠ word := hword
  have hdistinct (ts : List Token) :
      g.above.distinct? levels (.symbol "*" :: ts) = some (none, .symbol "*" :: ts) := by
    rw [Grammar.distinct?, bind_of_eq (keyword?_of_ne (hstar "ALL" (by decide) ts)),
      bind_of_eq (keyword?_of_ne (hstar "DISTINCT" (by decide) ts))]
    rfl
  have hitems : commaSeparated g.above.item levels
      (.symbol "*" :: .word "FROM" none :: .word "T" none :: .word "WHERE" none :: ts) =
        some ([.wildcard ""], .word "FROM" none :: .word "T" none :: .word "WHERE" none :: ts) := by
    refine separated_one (item_star ?_) (by simp)
    simp [hfrom]
  have hsources : commaSeparated g.above.source levels
      (.word "T" none :: .word "WHERE" none :: ts) =
        some ([⟨.table [⟨"T", none⟩] [] none none [], []⟩], .word "WHERE" none :: ts) :=
    separated_one source_queryTokens (by simp)
  have hviews : many g.above.lateralView? levels (.word "WHERE" none :: ts) =
      some ([], .word "WHERE" none :: ts) :=
    many_none (after?_of_ne (by simp [key_where]))
  rw [Grammar.block, bind_of_eq (hdistinct _),
    bind_of_eq (after?_of_ne (hstar "TOP" (by decide) _)), bind_of_eq hitems,
    bind_of_eq (after?_of_ne (by simp [hfrom])), bind_of_eq (after?_of_eq hfrom hsources),
    bind_of_eq hviews, bind_of_eq (after?_of_eq key_where hterm)]
  rfl

theorem body_queryTokens (hterm : g.above.expr levels ts = some (t, [])) :
    g.above.readBody 0 levels (queryTokens ++ ts) = some (.block (queryBlock t), []) := by
  have hsimple : g.above.simpleBody levels (queryTokens ++ ts) =
      some (.block (queryBlock t), []) := by
    change g.above.simpleBody levels (.word "SELECT" none :: _) = _
    rw [Grammar.simpleBody, bind_of_eq (keyword?_of_eq key_select), if_pos rfl, map_apply]
    exact congrArg (Option.map _) (block_queryTokens hterm)
  rw [Grammar.readBody, bind_of_eq hsimple]
  rfl

theorem query_queryTokens (hterm : g.above.expr levels ts = some (t, [])) :
    g.above.above.readQuery (levels + 1) (queryTokens ++ ts) = some (queryTree t, []) := by
  have hkey (word : String) (hword : "SELECT" ≠ word) : nextKey (queryTokens ++ ts) ≠ word :=
    key_select.trans_ne hword
  have hbody : g.above.above.body 0 levels (queryTokens ++ ts) = some (.block (queryBlock t), []) :=
    body_queryTokens hterm
  rw [Grammar.readQuery, deeper_apply, bind_of_eq (after?_of_ne (hkey "WITH" (by decide))),
    bind_of_eq (keyword?_of_ne (hkey "INSERT" (by decide))), if_neg Bool.false_ne_true,
    bind_of_eq (keyword?_of_ne (hkey "UPDATE" (by decide))), if_neg Bool.false_ne_true,
    bind_of_eq hbody]
  rfl

theorem sentences_queryTokens (hterm : g.above.expr levels ts = some (t, [])) :
    g.above.above.above.sentences (levels + 2) (queryTokens ++ ts) =
      some ([.query (queryTree t)], []) := by
  have hselect : nextKey (queryTokens ++ ts) = "SELECT" := key_select
  have hquery : g.above.above.above.query (levels + 1) (queryTokens ++ ts) =
      some (queryTree t, []) := query_queryTokens hterm
  have hsentence : g.above.above.above.sentence (levels + 2) (levels + 2) (queryTokens ++ ts) =
      some (.query (queryTree t), []) := by
    rw [Grammar.sentence, deeper_apply, Grammar.sentenceWith]
    simp [hselect, hquery]
  have hdrop : (queryTokens ++ ts).dropWhile (· = .symbol ";") = queryTokens ++ ts := rfl
  rw [Grammar.sentences, bind_of_eq levels_apply, Grammar.inSequence, bind_of_eq get_apply,
    Grammar.upToStatements, bind_of_eq (modify_apply _), hdrop, bind_of_eq peek_apply,
    if_neg (by simp [queryTokens]), bind_of_eq hsentence]
  rfl

end Query

/-- A condition with the tokens of a canonical expression is that expression. -/
theorem read_queryText {condition : String} {e : Expr}
    (hscans : Token.Scans condition.toList e.tokens) (hplain : e.Plain) (hcanonical : e.Canonical)
    (hdepth : e.depth + 3 ≤ Grammar.maxLevels) : read (queryText condition) = .ok (queryOf e) := by
  have hscan : Token.scan (queryText condition) = some (queryTokens ++ e.tokens) :=
    (scans_queryText hscans).scan_eq
  obtain ⟨height, hheight⟩ : ∃ height, 4 * ((queryTokens ++ e.tokens).length + 1) = height + 3 :=
    Nat.exists_eq_add_of_le' (by omega)
  have hlength : e.tokens.length ≤ height := by
    rw [List.length_append] at hheight
    omega
  -- the statement, the query and the condition take one level each
  obtain ⟨spare, hlevels⟩ := Nat.exists_eq_add_of_le' hdepth
  have hterm : (Grammar.ofHeight height).above.expr (spare + e.depth + 1) e.tokens =
      some (e.term, []) := by
    have hchain : ReadsChain (Grammar.ofHeight height) (spare + e.depth) e [] :=
      readsChain hplain hcanonical (fun _ h => by cases h) (fun _ _ => Nat.zero_le _) hlength
        (Nat.le_add_left _ _)
    have hread := hchain.readTerm strength_pos (Nat.le_refl 0)
    rwa [List.append_nil] at hread
  have hsentences : Grammar.read (queryTokens ++ e.tokens) = some [.query (queryTree e.term)] := by
    have hrun := sentences_queryTokens hterm
    rw [Grammar.read, hheight, hlevels]
    exact congrArg (Option.map Prod.fst) hrun
  rw [read, hscan, Option.bind_some, hsentences]
  exact lower_queryTree e.lower_term

end Sql

theorem Expr.Plain.scans_text {e : Expr} (h : e.Plain) : Token.Scans e.text.toList e.tokens := by
  have hscans := Token.scans_text h.worded (fun _ ht => by cases ht) Token.Scans.nil
  rwa [List.append_nil, List.append_nil] at hscans

/-- **A canonical expression with plain names is read back from its text**, whatever its size, if
its parentheses are nested no deeper than the limit leaves room for in a condition. -/
theorem read_text {e : Expr} (hplain : e.Plain) (hcanonical : e.Canonical)
    (hdepth : e.depth + 3 ≤ Grammar.maxLevels) :
    Sql.read ("SELECT * FROM T WHERE " ++ e.text) =
      .ok (.select ⟨false, [.wildcard], .table ⟨"T", none⟩, [], some e, []⟩) :=
  Sql.read_queryText hplain.scans_text hplain hcanonical hdepth

/-- The condition `A + -1 < (T.B - -9223372036854775808) * DATE AND 2 <> C`. -/
def signedCondition : Expr :=
  .and
    (.binary (.compare .lt) (.binary (.arithmetic .add) (.column ⟨none, "A"⟩) (.literal (-1)))
      (.binary (.arithmetic .mul)
        (.nested (.binary (.arithmetic .sub) (.column ⟨some "T", "B"⟩) (.literal Int64.minValue)))
        (.column ⟨none, "DATE"⟩)))
    (.binary (.compare .ne) (.literal 2) (.column ⟨none, "C"⟩))

theorem read_text_signedCondition :
    signedCondition.Plain ∧ signedCondition.Canonical ∧
      signedCondition.depth + 3 ≤ Grammar.maxLevels ∧
      Sql.read
          "SELECT * FROM T WHERE A + -1 < (T.B - -9223372036854775808) * DATE AND 2 <> C" =
        .ok (.select
          ⟨false, [.wildcard], .table ⟨"T", none⟩, [], some signedCondition, []⟩) := by
  have hplain : signedCondition.Plain := by decide
  have hcanonical : signedCondition.Canonical := by decide
  have hdepth : signedCondition.depth + 3 ≤ Grammar.maxLevels := by decide
  have htext : "SELECT * FROM T WHERE " ++ signedCondition.text =
      "SELECT * FROM T WHERE A + -1 < (T.B - -9223372036854775808) * DATE AND 2 <> C" := by
    decide
  have hread := read_text hplain hcanonical hdepth
  rw [htext] at hread
  exact ⟨hplain, hcanonical, hdepth, hread⟩

end FlatQuery
