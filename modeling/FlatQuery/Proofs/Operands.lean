import FlatQuery.Proofs.Parsing
import FlatQuery.Proofs.Scanning

set_option autoImplicit false

/-! # Operands

What the parser of terms does with the tokens of an expression: it reads a plain name, a number, a
number with a minus in front, or a term in parentheses as one operand, if what follows ends it, and
then an operator with its right operand. -/

namespace FlatQuery

open Sql (Token Name)
open Sql.Token (isWord)

/-! ## Plain names -/

namespace Sql

/-- The words that do not name a column at the beginning of an operand. -/
def operandWords : List String := [
  "ALL", "ANY", "ARRAY", "ARRAY_AGG", "CASE", "CAST", "CEIL", "CONVERT", "CURRENT_CATALOG",
  "CURRENT_DATE", "CURRENT_TIME", "CURRENT_TIMESTAMP", "CURRENT_USER", "EXISTS", "EXTRACT", "FALSE",
  "FLOOR", "INTERVAL", "LISTAGG", "LOCALTIME", "LOCALTIMESTAMP", "MATCH", "NOT", "NULL", "OVERLAY",
  "POSITION", "SAFE_CAST", "SELECT", "SESSION_USER", "STRUCT", "SUBSTRING", "TRIM", "TRUE",
  "TRY_CAST", "USER", "WITH"]

/-- Whether a text can be written without quotes at the beginning of an operand. -/
structure PlainName (text : String) : Prop where
  word : isWord text = true
  free : keywordForm text ∉ operandWords

instance (text : String) : Decidable (PlainName text) :=
  decidable_of_iff (isWord text = true ∧ keywordForm text ∉ operandWords)
    ⟨fun h => ⟨h.1, h.2⟩, fun h => ⟨h.word, h.free⟩⟩

/-- Words that are no keywords are plain. -/
theorem plainName_of_not_isKeyword {text : String} (hword : isWord text = true)
    (h : isKeyword text = false) : PlainName text := by
  refine ⟨hword, fun hmem => ?_⟩
  have hkeywords : operandWords.Sublist keywords := by decide +kernel
  rw [isKeyword, List.contains_iff_mem.2 (hkeywords.subset hmem)] at h
  cases h

end Sql

/-- Whether a column reference can be written without quotes. -/
def ColumnRef.Plain (c : ColumnRef) : Prop :=
  match c.table with
  | some t => Sql.PlainName t ∧ isWord c.column = true
  | none => Sql.PlainName c.column

instance : (c : ColumnRef) → Decidable c.Plain
  | ⟨some t, column⟩ => inferInstanceAs (Decidable (Sql.PlainName t ∧ isWord column = true))
  | ⟨none, column⟩ => inferInstanceAs (Decidable (Sql.PlainName column))

/-- Whether the names of an expression can be written without quotes. -/
def Expr.Plain (e : Expr) : Prop := ∀ c ∈ e.columns, c.Plain

instance (e : Expr) : Decidable e.Plain := inferInstanceAs (Decidable (∀ c ∈ e.columns, c.Plain))

theorem Expr.Plain.worded {e : Expr} (h : e.Plain) : e.Worded := by
  intro c hc
  have hplain := h c hc
  obtain ⟨table, column⟩ := c
  cases table with
  | none => exact ⟨fun t ht => (by cases ht), hplain.word⟩
  | some t =>
    refine ⟨?_, hplain.2⟩
    rintro t' ⟨⟩
    exact hplain.1.word

/-- The name of a column. -/
def ColumnRef.names (c : ColumnRef) : List Name :=
  match c.table with
  | some t => [⟨t, none⟩, ⟨c.column, none⟩]
  | none => [⟨c.column, none⟩]

namespace Sql

/-! ## What stands behind an operand -/

/-- Tokens that go on with none of the constructs that a name may begin. -/
def quietTokens : List Token :=
  .word "AND" none :: ["=", "<>", "<", "<=", ">", ">=", "+", "-", "*", "/", ")", "."].map .symbol

/-- Whether one of them is next, or nothing. -/
def Quiet (ts : List Token) : Prop := ∀ t ∈ ts.head?, t ∈ quietTokens

/-- Whether an operand ends in front of some tokens. -/
def Closing (ts : List Token) : Prop :=
  ∀ t ∈ ts.head?, t = .symbol ")" ∨ ∃ op : BinaryOp, t = op.token

section Behind

variable {ts : List Token} {word text : String} {levels : Nat}

theorem Closing.quiet (h : Closing ts) : Quiet ts := by
  intro t ht
  rcases h t ht with rfl | ⟨op, rfl⟩
  · decide
  · rcases op with op | _ | op
    · cases op <;> decide
    · decide
    · cases op <;> decide

theorem Quiet.key_ne (h : Quiet ts) (hword : word ∉ ["", "AND"]) : nextKey ts ≠ word := by
  have hkeys : ∀ t ∈ quietTokens, t.key ∈ ["", "AND"] := by decide
  rintro rfl
  cases ts with
  | nil => exact hword (List.mem_cons_self ..)
  | cons t ts => exact hword (hkeys t (h t rfl))

theorem Quiet.sign_ne (h : Quiet ts) (htext : text ∉ "" :: quietTokens.map Token.sign) :
    nextSign ts ≠ text := by
  rintro rfl
  cases ts with
  | nil => exact htext (List.mem_cons_self ..)
  | cons t ts => exact htext (List.mem_cons_of_mem _ (List.mem_map_of_mem (h t rfl)))

theorem Closing.point_ne (h : Closing ts) : nextSign ts ≠ "." := by
  cases ts with
  | nil => decide
  | cons t ts =>
    rcases h t rfl with rfl | ⟨op, rfl⟩
    · simp [nextSign, Token.sign]
    · rcases op with op | _ | op
      · cases op <;> simp [nextSign, Token.sign, BinaryOp.token, BinaryOp.symbol, Comparison.symbol]
      · simp [nextSign, Token.sign, BinaryOp.token]
      · cases op <;> simp [nextSign, Token.sign, BinaryOp.token, BinaryOp.symbol, Arithmetic.symbol]

theorem length?_quiet (h : Quiet ts) : DataType.length? levels ts = some ("", ts) := by
  have hsign : nextSign ts ≠ "(" := h.sign_ne (by decide)
  simp [DataType.length?, hsign]

theorem textLength?_quiet (h : Quiet ts) : DataType.textLength? levels ts = some ("", ts) := by
  have hsign : nextSign ts ≠ "(" := h.sign_ne (by decide)
  simp [DataType.textLength?, TokenParser.sign?_of_ne hsign]

theorem precision?_quiet (h : Quiet ts) : DataType.precision? levels ts = some ("", ts) := by
  have hsign : nextSign ts ≠ "(" := h.sign_ne (by decide)
  simp [DataType.precision?, TokenParser.sign?_of_ne hsign]

theorem timeZone?_quiet (h : Quiet ts) : DataType.timeZone? levels ts = some ("", ts) := by
  have hwith : nextKey ts ≠ "WITH" := h.key_ne (by decide)
  have hwithout : nextKey ts ≠ "WITHOUT" := h.key_ne (by decide)
  simp [DataType.timeZone?, TokenParser.keyword?_of_ne hwith, TokenParser.keyword?_of_ne hwithout]

theorem members_quiet (h : Quiet ts) : DataType.members levels ts = none := by
  have hsign : nextSign ts ≠ "(" := h.sign_ne (by decide)
  simp [DataType.members, TokenParser.parenthesized, TokenParser.sign_of_ne hsign]

section Suffixes

variable {p q : TokenParser String} {flag : TokenParser Bool}

theorem append_of_empty (hp : p levels ts = some ("", ts)) :
    (do return word ++ (← p) : TokenParser String) levels ts = some (word, ts) := by
  simp [hp]

theorem append_of_empty₂ (hp : p levels ts = some ("", ts)) (hq : q levels ts = some ("", ts)) :
    (do let x ← p; return word ++ x ++ (← q) : TokenParser String) levels ts = some (word, ts) := by
  simp [hp, hq]

theorem else_of_false {r : TokenParser String} (hflag : flag levels ts = some (false, ts)) :
    (do if ← flag then r else q : TokenParser String) levels ts = q levels ts := by
  simp [hflag]

theorem append_of_false (hflag : flag levels ts = some (false, ts)) :
    (do return word ++ textIf (← flag) text : TokenParser String) levels ts = some (word, ts) := by
  simp [hflag, textIf]

end Suffixes

/-- The word for a type goes on with nothing. -/
theorem afterWord_quiet (h : Quiet ts) :
    DataType.afterWord word levels ts = some (word, ts) ∨
      DataType.afterWord word levels ts = none := by
  have hkeyword (w : String) (hw : w ∉ ["", "AND"]) :
      TokenParser.keyword? w levels ts = some (false, ts) :=
    TokenParser.keyword?_of_ne (h.key_ne hw)
  have hlength : DataType.length? levels ts = some ("", ts) := length?_quiet h
  have htext : DataType.textLength? levels ts = some ("", ts) := textLength?_quiet h
  have hzone : DataType.timeZone? levels ts = some ("", ts) := timeZone?_quiet h
  have hmembers : DataType.members levels ts = none := members_quiet h
  have hvarying := hkeyword "VARYING" (by decide)
  have hlarge : TokenParser.phrase? ["LARGE", "OBJECT"] levels ts = some (false, ts) :=
    TokenParser.phrase?_of_ne (h.key_ne (by decide))
  unfold DataType.afterWord
  split
  · exact .inl rfl
  · split
    · exact .inl (append_of_empty hlength)
    · split
      · have hunsigned := hkeyword "UNSIGNED" (by decide)
        exact .inl (by simp [hlength, hunsigned, textIf])
      · split
        · exact .inl (append_of_empty (precision?_quiet h))
        · split
          · exact .inl (append_of_false (hkeyword "PRECISION" (by decide)))
          · exact .inl (append_of_empty htext)
          · exact .inl ((else_of_false hvarying).trans
              ((else_of_false hlarge).trans (append_of_empty htext)))
          · exact .inl ((else_of_false hvarying).trans
              ((else_of_false hlarge).trans (append_of_empty htext)))
          · exact .inl (append_of_empty₂ hlength hzone)
          · exact .inl (append_of_empty₂ hlength hzone)
          · exact .inl (append_of_empty hlength)
          · exact .inl (append_of_empty hlength)
          · right; simp only [TokenParser.bind_apply, hmembers, Option.bind_none]
          · right; simp only [TokenParser.bind_apply, hmembers, Option.bind_none]
          · exact .inr rfl

/-- No literal begins behind an operand. -/
theorem literalText_quiet (h : Quiet ts) : TokenParser.literalText levels ts = none := by
  cases ts with
  | nil => rfl
  | cons t ts =>
    have hkeyword : isKeyword "AND" = true := by decide
    have ht := h t rfl
    simp only [quietTokens, List.mem_cons, List.mem_map, List.not_mem_nil, or_false] at ht
    rcases ht with rfl | ⟨text, -, rfl⟩
    · simp [TokenParser.literalText, hkeyword]
    · simp [TokenParser.literalText]

theorem brackets_apply {type : DataType} (h : nextSign ts ≠ "[") :
    DataType.brackets type levels ts = some (type, ts) := by
  have hmany : TokenParser.many (do
      if ← TokenParser.sign? "[" then
        TokenParser.sign "]"
        return some "[]"
      else return none) levels ts = some ([], ts) :=
    TokenParser.many_none (by simp [TokenParser.sign?_of_ne h])
  rw [DataType.brackets, TokenParser.bind_apply, hmany]
  simp [String.join]

/-- A type that begins with a word other than ARRAY is a simple one, if no brackets follow it. -/
theorem any_apply {t : Token} {rest : List Token} {type : DataType} (hkey : t.key ≠ "ARRAY")
    (hsimple : DataType.simple levels (t :: ts) = some (type, rest)) (hrest : nextSign rest ≠ "[") :
    DataType.any levels (t :: ts) = some (type, rest) := by
  have harray : TokenParser.keyword? "ARRAY" levels (t :: ts) = some (false, t :: ts) :=
    TokenParser.keyword?_of_ne hkey
  simp [DataType.any, DataType.inner, DataType.nested, harray, hsimple, brackets_apply hrest]

theorem any_of_none {t : Token} (hkey : t.key ≠ "ARRAY")
    (hsimple : DataType.simple levels (t :: ts) = none) :
    DataType.any levels (t :: ts) = none := by
  have harray : TokenParser.keyword? "ARRAY" levels (t :: ts) = some (false, t :: ts) :=
    TokenParser.keyword?_of_ne hkey
  simp [DataType.any, DataType.inner, DataType.nested, harray, hsimple]

variable {g : Grammar} {parts : List Name} {rest : List Token}

/-- No typed literal begins with a plain name. -/
theorem typedLiteral_name (hname : PlainName word) (hts : Quiet ts) (hrest : Quiet rest)
    (hparts : TokenParser.dottedName levels (.word word none :: ts) = some (parts, rest)) :
    g.typedLiteral levels (.word word none :: ts) = none := by
  have hfree (w : String) (hw : w ∈ operandWords) : (Token.word word none).key ≠ w := by
    rintro rfl
    exact hname.free hw
  have harray := hfree "ARRAY" (by decide)
  have hinterval := hfree "INTERVAL" (by decide)
  by_cases htype : (Token.word word none).key ∈ DataType.words
  · -- a word for a type is followed by no literal
    have hword : TokenParser.oneOf? DataType.words levels (.word word none :: ts) =
        some (some (Token.word word none).key, ts) := TokenParser.oneOf?_of_mem htype
    have hbracket : nextSign ts ≠ "[" := hts.sign_ne (by decide)
    rcases @afterWord_quiet ts (Token.word word none).key levels hts with hafter | hafter
    · have hsimple : DataType.simple levels (.word word none :: ts) =
          some (⟨(Token.word word none).key, false⟩, ts) := by
        simp [DataType.simple, hword, hafter]
      simp [Grammar.typedLiteral, any_apply harray hsimple hbracket, hinterval,
        literalText_quiet hts]
    · have hsimple : DataType.simple levels (.word word none :: ts) = none := by
        simp [DataType.simple, hword, hafter]
      simp [Grammar.typedLiteral, any_of_none harray hsimple]
  · -- any other name is that of a type of the user
    have hword : TokenParser.oneOf? DataType.words levels (.word word none :: ts) =
        some (none, .word word none :: ts) := TokenParser.oneOf?_of_not_mem htype
    have hbracket : nextSign rest ≠ "[" := hrest.sign_ne (by decide)
    have hparenthesis : nextSign rest ≠ "(" := hrest.sign_ne (by decide)
    have hsimple : DataType.simple levels (.word word none :: ts) =
        some (⟨dotted parts, true⟩, rest) := by
      simp [DataType.simple, DataType.named, hword, hparts, TokenParser.sign?_of_ne hparenthesis]
    simp [Grammar.typedLiteral, any_apply harray hsimple hbracket]

/-! ## Operands -/

theorem lookup_keywordOperands (h : word ∉ operandWords) :
    g.keywordOperands.lookup word = none := by
  have hkeys : g.keywordOperands.map Prod.fst ⊆ operandWords := by
    change ["TRUE", "FALSE", "NULL", "CURRENT_CATALOG", "CURRENT_USER", "SESSION_USER", "USER",
      "CURRENT_TIMESTAMP", "CURRENT_TIME", "CURRENT_DATE", "LOCALTIME", "LOCALTIMESTAMP", "CASE",
      "CONVERT", "CAST", "TRY_CAST", "SAFE_CAST", "EXISTS", "EXTRACT", "CEIL", "FLOOR", "POSITION",
      "SUBSTRING", "OVERLAY", "TRIM", "INTERVAL", "ARRAY", "ARRAY_AGG", "LISTAGG", "NOT", "MATCH",
      "STRUCT"] ⊆ operandWords
    decide
  rw [List.lookup_eq_none_iff]
  intro entry hentry
  rw [bne_iff_ne]
  rintro rfl
  exact h (hkeys (List.mem_map_of_mem hentry))

/-- An operand that begins no typed literal and is not followed by COLLATE. -/
theorem readOperand_apply {t : Term} (htyped : g.typedLiteral levels ts = none)
    (hbare : g.bareOperand levels ts = some (t, rest)) (hrest : nextKey rest ≠ "COLLATE") :
    g.readOperand levels ts = some (t, rest) := by
  simp [Grammar.readOperand, TokenParser.attempt_of_none htyped, hbare,
    TokenParser.after?_of_ne hrest]

/-- A name that ends an operand is that of a column. -/
theorem named_apply {first : Name} {others : List Name}
    (hothers : TokenParser.many (do
      if ← TokenParser.sign? "." then some <$> TokenParser.name else return none) levels ts =
        some (others, rest)) (hrest : Closing rest) :
    g.named first levels ts = some (.name (first :: others), rest) := by
  have hparenthesis : nextSign rest ≠ "(" := hrest.quiet.sign_ne (by decide)
  rw [Grammar.named, TokenParser.bind_apply, hothers, Option.bind_some]
  simp only [TokenParser.bind_apply, TokenParser.peekSign_apply, Option.bind_some,
    if_neg hparenthesis, TokenParser.peek_apply]
  -- neither a string nor hexadecimal digits are next
  have hnext : rest.head? = none ∨ (∃ text quote, rest.head? = some (.word text quote)) ∨
      ∃ text, rest.head? = some (.symbol text) := by
    cases hhead : rest.head? with
    | none => exact .inl rfl
    | some t =>
      have ht := hrest.quiet t hhead
      simp only [quietTokens, List.mem_cons, List.mem_map] at ht
      rcases ht with rfl | ⟨text, -, rfl⟩
      · exact .inr (.inl ⟨_, _, rfl⟩)
      · exact .inr (.inr ⟨_, rfl⟩)
  rcases hnext with hhead | ⟨_, _, hhead⟩ | ⟨_, hhead⟩ <;> rw [hhead] <;> cases others <;>
    cases first.text.startsWith "_" <;> rfl

theorem readOperand_name {others : List Name} (hname : PlainName word) (hts : Quiet ts)
    (hothers : TokenParser.many (do
      if ← TokenParser.sign? "." then some <$> TokenParser.name else return none) levels ts =
        some (others, rest)) (hrest : Closing rest) :
    g.readOperand levels (.word word none :: ts) =
      some (.name (⟨word, none⟩ :: others), rest) := by
  have hdotted : TokenParser.dottedName levels (.word word none :: ts) =
      some (⟨word, none⟩ :: others, rest) :=
    TokenParser.separated_apply TokenParser.name_word hothers
  have hlookup : g.keywordOperands.lookup (Token.word word none).key = none :=
    lookup_keywordOperands hname.free
  have hbare : g.bareOperand levels (.word word none :: ts) =
      some (.name (⟨word, none⟩ :: others), rest) := by
    rw [Grammar.bareOperand, TokenParser.bind_apply, TokenParser.peek_apply]
    simp only [Option.bind_some, List.head?_cons, TokenParser.bind_apply, TokenParser.next_cons,
      hlookup, named_apply hothers hrest]
  exact readOperand_apply (typedLiteral_name hname hts hrest.quiet hdotted) hbare
    (hrest.quiet.key_ne (by decide))

theorem readOperand_columnRef {c : ColumnRef} (hc : c.Plain) (hrest : Closing rest) :
    g.readOperand levels (c.tokens ++ rest) = some (.name c.names, rest) := by
  have hlast : TokenParser.many (do
      if ← TokenParser.sign? "." then some <$> TokenParser.name else return none) levels rest =
        some ([], rest) :=
    TokenParser.many_none (by simp [TokenParser.sign?_of_ne hrest.point_ne])
  obtain ⟨table, column⟩ := c
  cases table with
  | none => exact readOperand_name hc hrest.quiet hlast hrest
  | some t =>
    have hpoint : Quiet (.symbol "." :: .word column none :: rest) := by
      rintro t ⟨⟩
      decide
    have hone : (do
        if ← TokenParser.sign? "." then some <$> TokenParser.name else return none)
          levels (.symbol "." :: .word column none :: rest) = some (some ⟨column, none⟩, rest) := by
      simp [TokenParser.sign?_symbol, TokenParser.name_word]
    refine readOperand_name hc.1 hpoint (TokenParser.many_one hone ?_) hrest
    simp [TokenParser.sign?_of_ne hrest.point_ne]

/-- No typed literal begins with anything but a word. -/
theorem typedLiteral_of_not_word {t : Token} (hkey : t.key = "")
    (hword : ∀ text quote, t ≠ .word text quote) : g.typedLiteral levels (t :: ts) = none := by
  have hnone : t.key ∉ DataType.words := by rw [hkey]; decide
  have harray : t.key ≠ "ARRAY" := by rw [hkey]; decide
  have hsimple : DataType.simple levels (t :: ts) = none := by
    have hwords : TokenParser.oneOf? DataType.words levels (t :: ts) = some (none, t :: ts) :=
      TokenParser.oneOf?_of_not_mem hnone
    cases t with
    | word text quote => exact absurd rfl (hword text quote)
    | _ => simp [DataType.simple, DataType.named, hwords]
  simp [Grammar.typedLiteral, any_of_none harray hsimple]

theorem readOperand_number {digits : String} (hrest : Closing rest) :
    g.readOperand levels (.number digits false :: rest) =
      some (.literal (.number digits false), rest) := by
  refine readOperand_apply (typedLiteral_of_not_word rfl (fun _ _ h => by cases h)) ?_
    (hrest.quiet.key_ne (by decide))
  rfl

theorem readOperand_minus {t : Term} (hterm : g.term signStrength levels ts = some (t, rest))
    (hrest : Closing rest) :
    g.readOperand levels (.symbol "-" :: ts) = some (.unary .minus t, rest) := by
  refine readOperand_apply (typedLiteral_of_not_word rfl (fun _ _ h => by cases h)) ?_
    (hrest.quiet.key_ne (by decide))
  rw [Grammar.bareOperand, TokenParser.bind_apply, TokenParser.peek_apply]
  simp [hterm]

theorem readOperand_nested {t : Term} (hkey : nextKey ts ∉ ["SELECT", "WITH"])
    (hterm : g.expr levels ts = some (t, .symbol ")" :: rest)) (hrest : Closing rest) :
    g.readOperand levels (.symbol "(" :: ts) = some (.nested t, rest) := by
  have hinner : g.inner levels ts = some (.nested t, rest) := by
    have hcomma : nextSign (.symbol ")" :: rest) ≠ "," := by simp [nextSign, Token.sign]
    have hquery : ["SELECT", "WITH"].contains (nextKey ts) = false := by
      rw [← Bool.not_eq_true, List.contains_iff_mem]
      exact hkey
    have hone : TokenParser.commaSeparated g.expr levels ts = some ([t], .symbol ")" :: rest) :=
      TokenParser.separated_one hterm hcomma
    rw [Grammar.inner, TokenParser.bind_apply, TokenParser.peekKey_apply, Option.bind_some]
    simp only [hquery, Bool.false_eq_true, if_false, TokenParser.bind_apply, hone, Option.bind_some,
      TokenParser.pure_apply, TokenParser.sign_symbol, TokenParser.sign?_of_ne hrest.point_ne]
  refine readOperand_apply (typedLiteral_of_not_word rfl (fun _ _ h => by cases h)) ?_
    (hrest.quiet.key_ne (by decide))
  rw [Grammar.bareOperand, TokenParser.bind_apply, TokenParser.peek_apply]
  simp [hinner]

/-! ## Operators -/

theorem strength_token (op : BinaryOp) (ts : List Token) :
    strength (op.token :: ts) = op.strength := by
  have hkeys : op.token.key ≠ "NOT" ∧ op.token.key ≠ "AT" ∧
      (wordStrengths.lookup op.token.key <|> signStrengths.lookup op.token.sign) =
        some op.strength := by
    rcases op with op | _ | op
    · cases op <;> decide
    · decide
    · cases op <;> decide
  rw [strength, if_neg hkeys.1, if_neg hkeys.2.1, hkeys.2.2, Option.getD_some]

theorem infixOperator?_token (op : BinaryOp) :
    Grammar.infixOperator? op.token levels ts = some (some (.binary op), ts) := by
  have hkeys : op.token.key ≠ "OPERATOR" ∧
      (wordOperators.lookup op.token.key <|> signOperators.lookup op.token.sign) =
        some (.binary op) := by
    rcases op with op | _ | op
    · cases op <;> decide
    · decide
    · cases op <;> decide
  rw [Grammar.infixOperator?, if_neg hkeys.1, hkeys.2]
  rfl

theorem operation_token {op : BinaryOp} {left right : Term} {s : Nat}
    (hkey : nextKey ts ∉ ["ANY", "ALL"]) (hright : g.term s levels ts = some (right, rest)) :
    g.operation left s levels (op.token :: ts) =
      some (.operation (.binary op) left right, rest) := by
  have hquantifier : TokenParser.oneOf? ["ANY", "ALL"] levels ts = some (none, ts) :=
    TokenParser.oneOf?_of_not_mem hkey
  have hoperand : g.rightOperand left (.binary op) s levels ts =
      some (.operation (.binary op) left right, rest) := by
    rw [Grammar.rightOperand, TokenParser.bind_apply, hquantifier, Option.bind_some]
    simp only [TokenParser.bind_apply, hright, Option.bind_some, TokenParser.pure_apply]
  rw [Grammar.operation, TokenParser.bind_apply, TokenParser.next_cons, Option.bind_some,
    TokenParser.bind_apply, infixOperator?_token, Option.bind_some]
  exact hoperand

section Extensions

variable {f : Term → Nat → TokenParser Term} {low bound : Nat} {t t' : Term}

theorem extend_of_le (h : strength ts ≤ low) :
    Grammar.extend f strength low (bound + 1) t levels ts = some (t, ts) := by
  simp [Grammar.extend, h]

theorem extend_of_lt (h : low < strength ts)
    (hf : f t (strength ts) levels ts = some (t', rest)) :
    Grammar.extend f strength low (bound + 1) t levels ts =
      Grammar.extend f strength low bound t' levels rest := by
  simp [Grammar.extend, Nat.not_le_of_lt h, hf]

end Extensions

end Behind

end Sql

end FlatQuery
