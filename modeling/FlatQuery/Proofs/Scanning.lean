import FlatQuery.Proofs.Precedence
import FlatQuery.Proofs.Storage
import FlatQuery.Sql.Token

set_option autoImplicit false

/-! # Scanning of expressions

The text of an expression is cut into the tokens that one expects: a word for each name, a number
for each literal, with a minus in front if it is negative, and a token for each operator, point and
parenthesis (`scans_text`). -/

namespace FlatQuery.Sql

namespace Token

/-! ## Texts of certain tokens -/

/-- Whether a text is cut into certain tokens. -/
structure Scans (cs : List Char) (ts : List Token) : Prop where
  scanPieces_eq : ∀ n, cs.length ≤ n → scanPieces n cs = some ts

variable {c d : Char} {cs after : List Char} {t : Token} {ts : List Token}

theorem Scans.scan_eq {text : String} (h : Scans text.toList ts) : scan text = some ts :=
  h.scanPieces_eq text.toList.length (Nat.le_refl _)

theorem Scans.nil : Scans [] [] := ⟨fun n _ => by cases n <;> rfl⟩

/-- A piece in front of a text that is cut into certain tokens. -/
theorem Scans.piece (found : Option Token) (hpiece : scanPiece (c :: cs) = some (found, after))
    (hlength : after.length ≤ cs.length) (h : Scans after ts) :
    Scans (c :: cs) (found.toList ++ ts) := by
  refine ⟨fun n hn => ?_⟩
  cases n with
  | zero => exact absurd hn (Nat.not_succ_le_zero _)
  | succ n =>
    have hn : after.length ≤ n := hlength.trans (Nat.le_of_succ_le_succ hn)
    simp only [scanPieces, hpiece, Option.bind_eq_bind, Option.bind_some, h.scanPieces_eq n hn]
    rfl

theorem Scans.blank (h : Scans cs ts) : Scans (' ' :: cs) ts :=
  Scans.piece none rfl (Nat.le_refl _) h

/-- A token in front of a text, where no comment begins. -/
theorem Scans.token (hblank : Text.isBlank c = false)
    (hline : ¬ (c = '-' ∧ cs.head? = some '-')) (hblock : ¬ (c = '/' ∧ cs.head? = some '*'))
    (htoken : scanToken c cs = some (t, after)) (hlength : after.length ≤ cs.length)
    (h : Scans after ts) : Scans (c :: cs) (t :: ts) := by
  refine Scans.piece (some t) ?_ hlength h
  unfold scanPiece
  split
  · next heq => cases heq
  · next heq => cases heq; exact absurd ⟨rfl, rfl⟩ hline
  · next heq => cases heq; exact absurd ⟨rfl, rfl⟩ hblock
  · next heq =>
    cases heq
    rw [if_neg (by rw [hblank]; exact Bool.false_ne_true), htoken]
    rfl

/-! ## Signs -/

/-- The signs that stand second in groups that begin with a certain sign. -/
def secondSigns (c : Char) : List Char :=
  (signGroups.filter (·.toList.head? = some c)).filterMap (·.toList[1]?)

/-- A sign is a token of its own if no group goes on with what follows it. -/
theorem signFrom_eq_singleton (h : d ∉ secondSigns c) :
    signFrom c (d :: cs) = (symbol (String.singleton c), d :: cs) := by
  have hnone : signGroups.find? (·.toList.isPrefixOf (c :: d :: cs)) = none := by
    rw [List.find?_eq_none]
    intro group hgroup hprefix
    have htwo : 2 ≤ group.toList.length :=
      (by decide : ∀ group ∈ signGroups, 2 ≤ group.toList.length) group hgroup
    obtain ⟨more, hmore⟩ := List.isPrefixOf_iff_prefix.1 hprefix
    match hlist : group.toList, htwo with
    | a :: b :: _, _ =>
      rw [hlist] at hmore
      cases hmore
      refine h (List.mem_filterMap.2 ⟨group, List.mem_filter.2 ⟨hgroup, ?_⟩, ?_⟩)
      · rw [hlist]; exact decide_eq_true rfl
      · rw [hlist]; rfl
  rw [signFrom, hnone]

/-! ## Words -/

/-- Whether a text is one word without quotes. The marks `#`, `@` and `@@` may begin a word but are
none. -/
def isWord (text : String) : Bool :=
  match text.toList with
  | [] => false
  | c :: rest =>
    startsWord c && rest.all continuesWord && !([['#'], ['@'], ['@', '@']].contains (c :: rest))

/-- Whether a text goes on with what can stand behind a word: neither part of it nor a quotation. -/
def EndsWord (cs : List Char) : Prop :=
  ∀ c ∈ cs.head?, continuesWord c = false ∧ c ≠ '\'' ∧ c ≠ '"'

theorem continuesWord_of_startsWord (h : startsWord c = true) : continuesWord c = true := by
  simp only [startsWord, continuesWord, Bool.or_eq_true] at h ⊢
  tauto

/-- No digit starts a word. -/
theorem isDigit_of_startsWord (h : startsWord c = true) : c.isDigit = false := by
  rw [← Bool.not_eq_true]
  intro hdigit
  have hbound : c.toNat < 0x3a := by
    simp only [Char.isDigit, Bool.and_eq_true, decide_eq_true_eq] at hdigit
    exact Nat.lt_succ_of_le hdigit.2
  have hpoint : ∀ n < 0x3a, (Char.ofNat n).isDigit = true → startsWord (Char.ofNat n) = false := by
    decide
  rw [← Char.ofNat_toNat c] at h hdigit
  exact absurd h (by rw [hpoint _ hbound hdigit]; exact Bool.false_ne_true)

/-- No blank goes on with a word. -/
theorem isBlank_of_continuesWord (h : continuesWord c = true) : Text.isBlank c = false := by
  rw [← Bool.not_eq_true]
  intro hblank
  have hpoint : c.toNat ∈ List.range' 0x9 5 ++ [0x20, 0x85, 0xa0, 0x1680] ++
      List.range' 0x2000 11 ++ [0x2028, 0x2029, 0x202f, 0x205f, 0x3000] := by
    simp only [Text.isBlank, Bool.or_eq_true, Bool.and_eq_true, decide_eq_true_eq,
      beq_iff_eq] at hblank
    simp only [List.mem_append, List.mem_range'_1, List.mem_cons, List.not_mem_nil, or_false]
    omega
  have hblanks : ∀ n ∈ List.range' 0x9 5 ++ [0x20, 0x85, 0xa0, 0x1680] ++ List.range' 0x2000 11 ++
      [0x2028, 0x2029, 0x202f, 0x205f, 0x3000], continuesWord (Char.ofNat n) = false := by
    decide +kernel
  rw [← Char.ofNat_toNat c, hblanks _ hpoint] at h
  cases h

/-- A quotation behind a letter begins with a quotation mark. -/
theorem lettered_eq_none (h : ∀ q ∈ cs.head?, q ≠ '\'' ∧ q ≠ '"') : lettered c cs = none := by
  cases cs with
  | nil => rfl
  | cons q rest =>
    obtain ⟨hsingle, hdouble⟩ := h q rfl
    have hmarks : ((quotationLetters.lookup c).getD []).contains q = false := by
      have hall : ∀ entry ∈ quotationLetters, entry.2 ⊆ ['\'', '"'] := by decide
      cases hlookup : quotationLetters.lookup c with
      | none => rfl
      | some marks =>
        obtain ⟨before, behind, hletters, -⟩ := List.lookup_eq_some_iff.1 hlookup
        have hentry : (c, marks) ∈ quotationLetters :=
          hletters ▸ List.mem_append_right _ (List.mem_cons_self ..)
        rw [Option.getD_some, ← Bool.not_eq_true, List.contains_iff_mem]
        intro hq
        have hmark := hall _ hentry hq
        simp only [List.mem_cons, List.not_mem_nil, or_false] at hmark
        exact hmark.elim hsingle hdouble
    simp only [lettered, hsingle, and_false, if_false, hmarks, Bool.false_eq_true]

theorem wordFrom_eq {head rest : List Char} (hrest : ∀ d ∈ rest, continuesWord d = true)
    (hends : EndsWord after) :
    wordFrom head (rest ++ after) = (word (String.ofList (head ++ rest)) none, after) := by
  have htake : after.takeWhile continuesWord = [] := by
    cases after with
    | nil => rfl
    | cons d after => simp only [List.takeWhile_cons, (hends d rfl).1, Bool.false_eq_true, if_false]
  have hdrop : after.dropWhile continuesWord = after := by
    cases after with
    | nil => rfl
    | cons d after => simp only [List.dropWhile_cons, (hends d rfl).1, Bool.false_eq_true, if_false]
  rw [wordFrom, List.takeWhile_append_of_pos hrest, List.dropWhile_append_of_pos hrest, htake,
    hdrop, List.append_nil]

theorem ne_of_continuesWord (hc : continuesWord c = true) (hd : continuesWord d = false) :
    c ≠ d := by
  rintro rfl
  rw [hc] at hd
  cases hd

theorem not_quote_of_continuesWord (hc : continuesWord c = true) :
    ¬ (c = '"' ∨ c.toNat = 0x60) := by
  rintro (rfl | hpoint)
  · cases hc
  · rw [← Char.ofNat_toNat c, hpoint] at hc
    cases hc

/-- A mark goes on with a word, unless the two are a group of signs. -/
theorem hashOrAt_cons (hc : c = '#' ∨ c = '@') (hd : continuesWord d = true)
    (hcd : ¬ (c = '@' ∧ d = '@')) : hashOrAt c (d :: cs) = wordFrom [c, d] cs := by
  have hne (s : Char) (hs : continuesWord s = false) : d ≠ s := ne_of_continuesWord hd hs
  have hsecond : d ∉ secondSigns c := by
    rcases hc with rfl | rfl
    · have hsigns : secondSigns '#' = ['>', '>', '-'] := rfl
      simp [hsigns, hne '>' rfl, hne '-' rfl]
    · have hsigns : secondSigns '@' = ['>', '?', '@'] := rfl
      have hat : d ≠ '@' := fun h => hcd ⟨rfl, h⟩
      simp [hsigns, hne '>' rfl, hne '?' rfl, hat]
  have hblank : d ≠ ' ' := hne ' ' rfl
  unfold hashOrAt
  split
  · next heq => cases heq; exact absurd ⟨rfl, rfl⟩ hcd
  · next heq => cases heq; exact absurd ⟨rfl, rfl⟩ hcd
  · next heq => cases heq
  · next heq =>
    cases heq
    rw [signFrom_eq_singleton hsecond]
    exact if_pos ⟨String.length_singleton, hblank⟩

theorem hashOrAt_eq {rest : List Char} (hc : c = '#' ∨ c = '@')
    (hrest : ∀ d ∈ rest, continuesWord d = true)
    (hmore : c :: rest ∉ [['#'], ['@'], ['@', '@']]) (hends : EndsWord after) :
    hashOrAt c (rest ++ after) = (word (String.ofList (c :: rest)) none, after) := by
  match rest, hrest, hmore with
  | [], _, hmore =>
    rcases hc with rfl | rfl
    · exact absurd (List.mem_cons_self ..) hmore
    · exact absurd (List.mem_cons_of_mem _ (List.mem_cons_self ..)) hmore
  | d :: rest, hall, hmore =>
    obtain ⟨hd, hrest⟩ := List.forall_mem_cons.1 hall
    by_cases hcd : c = '@' ∧ d = '@'
    · obtain ⟨rfl, rfl⟩ := hcd
      cases rest with
      | nil => exact absurd (by decide) hmore
      | cons e rest =>
        obtain ⟨he, hrest⟩ := List.forall_mem_cons.1 hrest
        have hblank : e ≠ ' ' := ne_of_continuesWord he rfl
        simp only [List.cons_append, hashOrAt, if_neg hblank]
        exact wordFrom_eq hrest hends
    · rw [List.cons_append, hashOrAt_cons hc hd hcd]
      exact wordFrom_eq hrest hends

theorem lettered_append {rest : List Char} (hrest : ∀ d ∈ rest, continuesWord d = true)
    (hends : EndsWord after) : lettered c (rest ++ after) = none := by
  refine lettered_eq_none fun q hq => ?_
  cases rest with
  | nil => exact (hends q hq).2
  | cons d rest =>
    obtain rfl : d = q := Option.some.inj hq
    have hd := hrest d (List.mem_cons_self ..)
    exact ⟨ne_of_continuesWord hd rfl, ne_of_continuesWord hd rfl⟩

theorem scanToken_word {rest : List Char} (hstart : startsWord c = true)
    (hrest : ∀ d ∈ rest, continuesWord d = true)
    (hmore : c :: rest ∉ [['#'], ['@'], ['@', '@']]) (hends : EndsWord after) :
    scanToken c (rest ++ after) = some (word (String.ofList (c :: rest)) none, after) := by
  have hc := continuesWord_of_startsWord hstart
  have hlettered : lettered c (rest ++ after) = none := lettered_append hrest hends
  have hquote : ¬ (c = '"' ∨ c.toNat = 0x60) := not_quote_of_continuesWord hc
  have hnumber : ¬ (c.isDigit = true ∨ c = '.') := by
    rw [isDigit_of_startsWord hstart]
    rintro (hdigit | rfl)
    · cases hdigit
    · cases hc
  unfold scanToken
  rw [hlettered]
  simp only [if_neg (ne_of_continuesWord hc (d := '\'') rfl), if_neg hquote, if_neg hnumber]
  by_cases hmark : c = '#' ∨ c = '@'
  · rw [if_pos hmark, hashOrAt_eq hmark hrest hmore hends]
  · rw [if_neg hmark, if_neg (ne_of_continuesWord hc (d := '?') rfl), if_pos hstart,
      wordFrom_eq hrest hends]
    rfl

/-- A word is a token of its own where it ends. -/
theorem Scans.word {text : String} (htext : isWord text = true) (hends : EndsWord after)
    (h : Scans after ts) : Scans (text.toList ++ after) (word text none :: ts) := by
  unfold isWord at htext
  split at htext
  · cases htext
  · next c rest hlist =>
    rw [Bool.and_eq_true, Bool.and_eq_true, List.all_eq_true, Bool.not_eq_true'] at htext
    obtain ⟨⟨hstart, hrest⟩, hmore⟩ := htext
    have hc := continuesWord_of_startsWord hstart
    have htoken := scanToken_word hstart hrest
      (by rw [← List.contains_iff_mem, hmore]; exact Bool.false_ne_true) hends
    rw [← hlist, String.ofList_toList] at htoken
    rw [hlist, List.cons_append]
    exact Scans.token (isBlank_of_continuesWord hc) (fun h => ne_of_continuesWord hc rfl h.1)
      (fun h => ne_of_continuesWord hc rfl h.1) htoken (List.suffix_append rest after).length_le h

/-! ## Numbers and signs -/

/-- Whether a text goes on with what can stand behind an expression. -/
def EndsOperand (cs : List Char) : Prop := ∀ c ∈ cs.head?, c = ' ' ∨ c = ')'

theorem EndsOperand.endsWord (h : EndsOperand cs) : EndsWord cs := by
  intro c hc
  rcases h c hc with rfl | rfl
  · decide
  · decide

theorem endsOperand_blank : EndsOperand (' ' :: cs) := by
  rintro c ⟨⟩
  exact Or.inl rfl

theorem exponent_eq (h : EndsOperand cs) : exponent cs = ([], cs) := by
  match cs, h with
  | [], _ => rfl
  | [_], _ => rfl
  | c :: d :: cs, h => rcases h c rfl with rfl | rfl <;> rfl

theorem numberFrom_eq {digits : List Char} (hdigits : ∀ c ∈ digits, c.isDigit = true)
    (hends : EndsOperand after) :
    numberFrom (digits ++ after) = (number (String.ofList digits) false, after) := by
  have hpoint : digits ≠ ['.'] := by
    rintro rfl
    exact absurd (hdigits '.' (List.mem_singleton_self _)) (by decide)
  unfold numberFrom
  rw [List.takeWhile_append_of_pos hdigits, List.dropWhile_append_of_pos hdigits]
  match after, hends with
  | [], _ => simp [exponent, hpoint]
  | c :: after, hends =>
    have hexponent := exponent_eq hends
    rcases hends c rfl with rfl | rfl
    · simp [hexponent, hpoint]
    · simp [hexponent, hpoint]

theorem continuesWord_of_isDigit (h : c.isDigit = true) : continuesWord c = true := by
  simp only [continuesWord, h, Bool.or_true, Bool.true_or]

theorem isDigit_of_mem_toString {n : Nat} : ∀ c ∈ (toString n).toList, c.isDigit = true := by
  rw [Nat.toString_eq_repr, Nat.toList_repr]
  exact fun c hc => Nat.isDigit_of_mem_toDigits (by decide) (by decide) hc

theorem toList_toString_ne_nil (n : Nat) : (toString n).toList ≠ [] := by
  rw [Nat.toString_eq_repr, Nat.toList_repr]
  exact Nat.toDigits_ne_nil

/-- A natural number is a token of its own where an operand ends. -/
theorem Scans.number (n : Nat) (hends : EndsOperand after) (h : Scans after ts) :
    Scans ((toString n).toList ++ after) (number (toString n) false :: ts) := by
  have hdigits : ∀ c ∈ (toString n).toList, c.isDigit = true := isDigit_of_mem_toString
  have hnumber := numberFrom_eq hdigits hends
  rw [String.ofList_toList] at hnumber
  cases hlist : (toString n).toList with
  | nil => exact absurd hlist (toList_toString_ne_nil n)
  | cons c rest =>
    rw [hlist] at hdigits hnumber
    obtain ⟨hdigit, hrest⟩ := List.forall_mem_cons.1 hdigits
    have hc := continuesWord_of_isDigit hdigit
    have hlettered : lettered c (rest ++ after) = none :=
      lettered_append (fun d hd => continuesWord_of_isDigit (hrest d hd)) hends.endsWord
    have hquote : ¬ (c = '"' ∨ c.toNat = 0x60) := not_quote_of_continuesWord hc
    have htoken : scanToken c (rest ++ after) = some (.number (toString n) false, after) := by
      unfold scanToken
      rw [hlettered]
      simp only [if_neg (ne_of_continuesWord hc (d := '\'') rfl), if_neg hquote,
        if_pos (Or.inl hdigit : c.isDigit = true ∨ c = '.')]
      exact congrArg some hnumber
    exact Scans.token (isBlank_of_continuesWord hc) (fun h => ne_of_continuesWord hc rfl h.1)
      (fun h => ne_of_continuesWord hc rfl h.1) htoken (List.suffix_append rest after).length_le h

end Token

/-! ## Expressions -/

end FlatQuery.Sql

namespace FlatQuery

open Sql (Token)

/-- The token of an operator. -/
def BinaryOp.token : BinaryOp → Token
  | and => .word "AND" none
  | op => .symbol op.symbol

/-- The tokens of a column reference. -/
def ColumnRef.tokens (c : ColumnRef) : List Token :=
  match c.table with
  | some t => [.word t none, .symbol ".", .word c.column none]
  | none => [.word c.column none]

/-- The tokens of a literal. -/
def Value.tokens (v : Value) : List Token :=
  if 0 ≤ v.toInt then [.number (toString v.toInt.natAbs) false]
  else [.symbol "-", .number (toString v.toInt.natAbs) false]

/-- The text of a value: the digits of its absolute value, with a minus if it is negative. -/
theorem Value.toList_text (v : Value) : v.text.toList =
    if 0 ≤ v.toInt then (toString v.toInt.natAbs).toList
    else '-' :: (toString v.toInt.natAbs).toList := by
  rw [Value.text, Text.toList_toString_int, Nat.toString_eq_repr, Nat.toList_repr]
  by_cases hv : 0 ≤ v.toInt
  · have habs : v.toInt.toNat = v.toInt.natAbs := by omega
    rw [if_pos hv, if_pos hv, habs]
  · have habs : (-v.toInt).toNat = v.toInt.natAbs := by omega
    rw [if_neg hv, if_neg hv, habs]

/-- The tokens of an expression. -/
def Expr.tokens : Expr → List Token
  | column ref => ref.tokens
  | literal value => value.tokens
  | binary op left right => left.tokens ++ op.token :: right.tokens
  | nested inner => .symbol "(" :: inner.tokens ++ [.symbol ")"]

/-- Whether the names of an expression are words without quotes. -/
def Expr.Worded (e : Expr) : Prop :=
  ∀ c ∈ e.columns, (∀ t ∈ c.table, Token.isWord t = true) ∧ Token.isWord c.column = true

namespace Sql.Token

variable {cs after : List Char} {ts : List Token}

/-- An operator with a blank behind it is a token of its own. -/
theorem Scans.operator (op : BinaryOp) (h : Scans cs ts) :
    Scans (op.symbol.toList ++ ' ' :: cs) (op.token :: ts) := by
  have hblank := h.blank
  have hsign (c : Char) (hc : c ∈ ['=', '<', '>', '+', '-', '*', '/']) :
      Scans (c :: ' ' :: cs) (symbol (String.singleton c) :: ts) := by
    simp only [List.mem_cons, List.not_mem_nil, or_false] at hc
    rcases hc with rfl | rfl | rfl | rfl | rfl | rfl | rfl <;>
      exact Scans.token rfl (by simp) (by simp) rfl (Nat.le_refl _) hblank
  have hgroup (c d : Char) (hc : (c, d) ∈ [('<', '>'), ('<', '='), ('>', '=')]) :
      Scans (c :: d :: ' ' :: cs) (symbol (String.ofList [c, d]) :: ts) := by
    simp only [List.mem_cons, List.not_mem_nil, or_false, Prod.mk.injEq] at hc
    rcases hc with ⟨rfl, rfl⟩ | ⟨rfl, rfl⟩ | ⟨rfl, rfl⟩ <;>
      exact Scans.token rfl (by simp) (by simp) rfl (Nat.le_succ _) hblank
  match op with
  | .and =>
    have hand : isWord "AND" = true := by decide
    exact Scans.word hand endsOperand_blank.endsWord hblank
  | .compare .eq => exact hsign '=' (by decide)
  | .compare .lt => exact hsign '<' (by decide)
  | .compare .gt => exact hsign '>' (by decide)
  | .compare .ne => exact hgroup '<' '>' (by decide)
  | .compare .le => exact hgroup '<' '=' (by decide)
  | .compare .ge => exact hgroup '>' '=' (by decide)
  | .arithmetic .add => exact hsign '+' (by decide)
  | .arithmetic .sub => exact hsign '-' (by decide)
  | .arithmetic .mul => exact hsign '*' (by decide)
  | .arithmetic .div => exact hsign '/' (by decide)

theorem Scans.openParenthesis (h : Scans cs ts) : Scans ('(' :: cs) (symbol "(" :: ts) := by
  refine Scans.token rfl (by simp) (by simp) ?_ (Nat.le_refl _) h
  cases cs <;> rfl

theorem Scans.closeParenthesis (h : Scans cs ts) : Scans (')' :: cs) (symbol ")" :: ts) := by
  refine Scans.token rfl (by simp) (by simp) ?_ (Nat.le_refl _) h
  cases cs <;> rfl

/-- A minus in front of a digit is a token of its own. -/
theorem Scans.minus {c : Char} (hdigit : c.isDigit = true) (h : Scans (c :: cs) ts) :
    Scans ('-' :: c :: cs) (symbol "-" :: ts) := by
  have hne (d : Char) (hd : d.isDigit = false) : c ≠ d := by
    rintro rfl
    rw [hdigit] at hd
    cases hd
  have hsecond : c ∉ secondSigns '-' := by
    have hsigns : secondSigns '-' = ['>', '>'] := rfl
    simp [hsigns, hne '>' rfl]
  have hlettered : lettered '-' (c :: cs) = none := by
    refine lettered_eq_none ?_
    rintro q ⟨⟩
    exact ⟨hne _ rfl, hne _ rfl⟩
  have htoken : scanToken '-' (c :: cs) = some (symbol "-", c :: cs) := by
    have hsign : signFrom '-' (c :: cs) = (symbol "-", c :: cs) := signFrom_eq_singleton hsecond
    unfold scanToken
    rw [hlettered]
    exact congrArg some hsign
  refine Scans.token rfl ?_ ?_ htoken (Nat.le_refl _) h
  · exact fun h => hne '-' rfl (Option.some.inj h.2)
  · simp

/-- A point in front of a word is a token of its own. -/
theorem Scans.point {text : String} (htext : isWord text = true)
    (h : Scans (text.toList ++ after) ts) :
    Scans ('.' :: (text.toList ++ after)) (symbol "." :: ts) := by
  unfold isWord at htext
  split at htext
  · cases htext
  · next c rest hlist =>
    rw [Bool.and_eq_true, Bool.and_eq_true] at htext
    have hc := continuesWord_of_startsWord htext.1.1
    have hdigit := isDigit_of_startsWord htext.1.1
    rw [hlist] at h ⊢
    have hlettered : lettered '.' (c :: rest ++ after) = none := by
      refine lettered_eq_none ?_
      rintro q ⟨⟩
      exact ⟨ne_of_continuesWord hc rfl, ne_of_continuesWord hc rfl⟩
    have htoken : scanToken '.' (c :: rest ++ after) = some (symbol ".", c :: rest ++ after) := by
      unfold scanToken
      rw [hlettered]
      simp [numberFrom, hdigit]
    exact Scans.token rfl (by simp) (by simp) htoken (Nat.le_refl _) h

theorem Scans.columnRef {c : ColumnRef} (ht : ∀ t ∈ c.table, isWord t = true)
    (hc : isWord c.column = true) (hends : EndsWord after) (h : Scans after ts) :
    Scans (c.text.toList ++ after) (c.tokens ++ ts) := by
  have hcolumn := Scans.word hc hends h
  obtain ⟨table, column⟩ := c
  cases table with
  | none => exact hcolumn
  | some t =>
    have hpoint : EndsWord ('.' :: (column.toList ++ after)) := by
      rintro d ⟨⟩
      decide
    have hword := Scans.word (ht t rfl) hpoint (Scans.point hc hcolumn)
    simpa [ColumnRef.text, ColumnRef.tokens] using hword

theorem Scans.value (v : Value) (hends : EndsOperand after) (h : Scans after ts) :
    Scans (v.text.toList ++ after) (v.tokens ++ ts) := by
  have hnumber := Scans.number v.toInt.natAbs hends h
  rw [v.toList_text, Value.tokens]
  by_cases hv : 0 ≤ v.toInt
  · rw [if_pos hv, if_pos hv]
    exact hnumber
  · rw [if_neg hv, if_neg hv]
    have hdigits := isDigit_of_mem_toString (n := v.toInt.natAbs)
    cases hlist : (toString v.toInt.natAbs).toList with
    | nil => exact absurd hlist (toList_toString_ne_nil _)
    | cons c rest =>
      rw [hlist] at hnumber hdigits
      exact Scans.minus (hdigits c (List.mem_cons_self ..)) hnumber

/-- **The text of an expression is cut into its tokens.** -/
theorem scans_text {e : Expr} (he : e.Worded) (hends : EndsOperand after) (h : Scans after ts) :
    Scans (e.text.toList ++ after) (e.tokens ++ ts) := by
  induction e generalizing after ts with
  | column ref =>
    obtain ⟨ht, hc⟩ := he ref (List.mem_singleton_self _)
    exact Scans.columnRef ht hc hends.endsWord h
  | literal v => exact Scans.value v hends h
  | binary op left right ihl ihr =>
    obtain ⟨hleft, hright⟩ := List.forall_mem_append.1 he
    have hoperator := Scans.operator op (ihr hright hends h)
    have hall := ihl hleft endsOperand_blank hoperator.blank
    simpa [Expr.text, Expr.tokens] using hall
  | nested inner ih =>
    have hclose : EndsOperand (')' :: after) := by
      rintro c ⟨⟩
      exact Or.inr rfl
    have hall := (ih he hclose h.closeParenthesis).openParenthesis
    simpa [Expr.text, Expr.tokens] using hall

end Sql.Token

end FlatQuery
