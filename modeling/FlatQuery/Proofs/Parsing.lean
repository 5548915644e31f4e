import FlatQuery.Sql.Grammar

set_option autoImplicit false

/-! # Runs of token parsers

What the small parsers yield and leave, as equations of their runs. A parser for something that may
be missing reads nothing where something else is next, which the key and the sign of the next token
tell. -/

namespace FlatQuery.Sql

/-- The key of the next token. -/
def nextKey (ts : List Token) : String := (ts.head?.map Token.key).getD ""

/-- The sign that the next token is. -/
def nextSign (ts : List Token) : String := (ts.head?.map Token.sign).getD ""

@[simp]
theorem nextKey_cons (t : Token) (ts : List Token) : nextKey (t :: ts) = t.key := rfl

@[simp]
theorem nextSign_cons (t : Token) (ts : List Token) : nextSign (t :: ts) = t.sign := rfl

@[simp]
theorem Token.sign_word (text : String) (quote : Option Char) :
    (Token.word text quote).sign = "" := rfl

@[simp]
theorem Token.sign_symbol (text : String) : (Token.symbol text).sign = text := rfl

@[simp]
theorem Token.key_symbol (text : String) : (Token.symbol text).key = "" := rfl

namespace TokenParser

variable {α β : Type} {p q : TokenParser α} {f : α → TokenParser β} {levels : Nat} {t : Token}
  {ts rest : List Token} {a : α} {word text : String} {words : List String}

/-! ## Sequences and alternatives -/

@[simp]
theorem pure_apply : (pure a : TokenParser α) levels ts = some (a, ts) := rfl

@[simp]
theorem failure_apply : (failure : TokenParser α) levels ts = none := rfl

@[simp]
theorem get_apply : (get : TokenParser (List Token)) levels ts = some (ts, ts) := rfl

@[simp]
theorem set_apply : (set rest : TokenParser PUnit) levels ts = some (⟨⟩, rest) := rfl

@[simp]
theorem modify_apply (g : List Token → List Token) :
    (modify g : TokenParser PUnit) levels ts = some (⟨⟩, g ts) := rfl

@[simp]
theorem levels_apply : (MonadReader.read : TokenParser Nat) levels ts = some (levels, ts) := rfl

@[simp]
theorem bind_apply : (p >>= f) levels ts = (p levels ts).bind fun x => f x.1 levels x.2 := rfl

/-- A parser goes on from what the one before it leaves. -/
theorem bind_of_eq (h : p levels ts = some (a, rest)) : (p >>= f) levels ts = f a levels rest := by
  rw [bind_apply, h, Option.bind_some]

@[simp]
theorem map_apply (g : α → β) :
    (g <$> p) levels ts = (p levels ts).map fun x => (g x.1, x.2) := by
  change (p levels ts).bind (fun x => some (g x.1, x.2)) = _
  cases p levels ts <;> rfl

@[simp]
theorem orElse_apply : (p <|> q) levels ts = (p levels ts).or (q levels ts) := by
  change (p levels ts <|> q levels ts) = _
  cases p levels ts <;> rfl

@[simp]
theorem deeper_apply : deeper p (levels + 1) ts = p levels ts := rfl

theorem attempt_of_none (h : p levels ts = none) : attempt p levels ts = some (none, ts) := by
  simp [attempt, h]

theorem attempt_of_some (h : p levels ts = some (a, rest)) :
    attempt p levels ts = some (some a, rest) := by
  simp [attempt, h]

/-! ## Single tokens -/

@[simp]
theorem next_cons : next levels (t :: ts) = some (t, ts) := rfl

@[simp]
theorem peek_apply : peek levels ts = some (ts.head?, ts) := rfl

@[simp]
theorem peekKey_apply : peekKey levels ts = some (nextKey ts, ts) := rfl

@[simp]
theorem peekSign_apply : peekSign levels ts = some (nextSign ts, ts) := rfl

@[simp]
theorem require_apply (c : Bool) :
    require c levels ts = if c then some ((), ts) else none := by
  cases c <;> rfl

theorem token?_cons (f : Token → Bool) :
    token? f levels (t :: ts) = some (f t, if f t then ts else t :: ts) := by
  cases h : f t <;> simp [token?, h]

theorem keyword?_of_ne (h : nextKey ts ≠ word) : keyword? word levels ts = some (false, ts) := by
  cases ts with
  | nil => rfl
  | cons t ts =>
    have hkey : t.key ≠ word := h
    simp [keyword?, token?_cons, hkey]

theorem keyword?_of_eq (h : t.key = word) : keyword? word levels (t :: ts) = some (true, ts) := by
  simp [keyword?, token?_cons, h]

theorem sign?_of_ne (h : nextSign ts ≠ text) : sign? text levels ts = some (false, ts) := by
  cases ts with
  | nil => rfl
  | cons t ts =>
    have hsymbol : t ≠ .symbol text := by
      rintro rfl
      exact h rfl
    simp [sign?, token?_cons, hsymbol]

theorem sign?_symbol : sign? text levels (.symbol text :: ts) = some (true, ts) := by
  simp [sign?, token?_cons]

theorem sign_symbol : sign text levels (.symbol text :: ts) = some ((), ts) := by
  simp [sign, sign?_symbol]

theorem sign_of_ne (h : nextSign ts ≠ text) : sign text levels ts = none := by
  simp [sign, sign?_of_ne h]

/-! ## Keywords -/

theorem phrase?_of_ne (h : nextKey ts ≠ word) :
    phrase? (word :: words) levels ts = some (false, ts) := by
  have hphrase : phrase (word :: words) levels ts = none := by
    simp [phrase, keyword, keyword?_of_ne h]
  simp [phrase?, attempt_of_none hphrase]

theorem phrase?_of_eq (h : t.key = word) : phrase? [word] levels (t :: ts) = some (true, ts) := by
  have hphrase : phrase [word] levels (t :: ts) = some ((), ts) := by
    simp [phrase, keyword, keyword?_of_eq h]
  simp [phrase?, attempt_of_some hphrase]

theorem after?_of_ne (h : nextKey ts ≠ word) :
    after? (word :: words) p levels ts = some (none, ts) := by
  simp [after?, phrase?_of_ne h]

theorem after?_of_eq (h : t.key = word) (hp : p levels ts = some (a, rest)) :
    after? [word] p levels (t :: ts) = some (some a, rest) := by
  simp [after?, phrase?_of_eq h, hp]

theorem oneOf?_of_not_mem (h : nextKey ts ∉ words) :
    oneOf? words levels ts = some (none, ts) := by
  simp [oneOf?, h]

theorem oneOf?_of_mem (h : t.key ∈ words) :
    oneOf? words levels (t :: ts) = some (some t.key, ts) := by
  simp [oneOf?, nextKey, h]

/-! ## Repetitions -/

theorem upTo_none {r : TokenParser (Option α)} {bound : Nat} (h : r levels ts = some (none, rest)) :
    upTo (bound + 1) r levels ts = some ([], rest) := by
  simp [upTo, h]

theorem many_none {r : TokenParser (Option α)} (h : r levels ts = some (none, rest)) :
    many r levels ts = some ([], rest) := by
  simp [many, upTo_none h]

/-- A repetition of one thing. -/
theorem many_one {r : TokenParser (Option α)} {after : List Token}
    (hone : r levels (t :: ts) = some (some a, rest)) (hnone : r levels rest = some (none, after)) :
    many r levels (t :: ts) = some ([a], after) := by
  simp [many, upTo, hone, hnone]

/-- A list with a mark between its members. -/
theorem separated_apply {members : List α} {after : List Token} (h : p levels ts = some (a, rest))
    (hmany : many (do if ← sign? text then some <$> p else return none) levels rest =
      some (members, after)) : separated text p levels ts = some (a :: members, after) := by
  rw [separated, bind_apply, h, Option.bind_some, bind_apply, hmany]
  rfl

/-- A list with one member. -/
theorem separated_one (h : p levels ts = some (a, rest)) (hsign : nextSign rest ≠ text) :
    separated text p levels ts = some ([a], rest) :=
  separated_apply h (many_none (by simp [sign?_of_ne hsign]))

/-! ## Names -/

theorem name_word {quote : Option Char} :
    name levels (.word text quote :: ts) = some (⟨text, quote⟩, ts) := rfl

/-! ## What is yielded -/

theorem bind_eq_some {b : β} (h : (p >>= f) levels ts = some (b, rest)) :
    ∃ a behind, p levels ts = some (a, behind) ∧ f a levels behind = some (b, rest) := by
  obtain ⟨⟨a, behind⟩, ha, hb⟩ := Option.bind_eq_some_iff.1 h
  exact ⟨a, behind, ha, hb⟩

/-- Whether everything that a parser yields with some levels left has a property. -/
def Yields (p : TokenParser α) (levels : Nat) (P : α → Prop) : Prop :=
  ∀ ts a rest, p levels ts = some (a, rest) → P a

namespace Yields

variable {P : α → Prop} {Q : β → Prop} {r : TokenParser (Option α)}

theorem pure (h : P a) : Yields (Pure.pure a) levels P := by
  rintro ts a rest ⟨⟩
  exact h

theorem failure : Yields (Alternative.failure : TokenParser α) levels P := by
  rintro ts a rest ⟨⟩

theorem mono {P' : α → Prop} (h : Yields p levels P) (hP : ∀ a, P a → P' a) :
    Yields p levels P' :=
  fun ts a rest ha => hP a (h ts a rest ha)

theorem bind (hp : Yields p levels P) (hf : ∀ a, P a → Yields (f a) levels Q) :
    Yields (p >>= f) levels Q := by
  intro ts b rest h
  obtain ⟨a, behind, ha, hb⟩ := bind_eq_some h
  exact hf a (hp ts a behind ha) behind b rest hb

/-- Of what is read first nothing has to be known. -/
theorem before (hf : ∀ a, Yields (f a) levels Q) : Yields (p >>= f) levels Q := by
  intro ts b rest h
  obtain ⟨a, behind, -, hb⟩ := bind_eq_some h
  exact hf a behind b rest hb

theorem map {g : α → β} (hp : Yields p levels P) (hg : ∀ a, P a → Q (g a)) :
    Yields (g <$> p) levels Q :=
  hp.bind fun a ha => pure (hg a ha)

theorem map_of_forall {g : α → β} (hg : ∀ a, Q (g a)) : Yields (g <$> p) levels Q :=
  before fun a => pure (hg a)

theorem deeper (hp : ∀ fewer, levels = fewer + 1 → Yields p fewer P) :
    Yields (deeper p) levels P := by
  intro ts a rest h
  cases levels with
  | zero => cases h
  | succ fewer => exact hp fewer rfl ts a rest h

theorem attempt (hp : Yields p levels P) : Yields (attempt p) levels fun o => ∀ a ∈ o, P a := by
  intro ts o rest h
  cases hrun : p levels ts with
  | none =>
    rw [attempt_of_none hrun] at h
    cases h
    rintro a ⟨⟩
  | some x =>
    rw [attempt_of_some hrun] at h
    cases h
    rintro _ ⟨⟩
    exact hp _ _ _ hrun

theorem after? (hp : Yields p levels P) :
    Yields (after? words p) levels fun o => ∀ a ∈ o, P a := by
  refine before fun found => ?_
  cases found with
  | true => exact hp.map fun a ha _ hb => Option.some.inj hb ▸ ha
  | false => exact pure fun _ hb => by cases hb

theorem parenthesized (hp : Yields p levels P) : Yields (parenthesized p) levels P :=
  before fun _ => hp.bind fun _ ha => before fun _ => pure ha

theorem upTo {bound : Nat} (hr : Yields r levels fun o => ∀ a ∈ o, P a) :
    Yields (upTo bound r) levels fun xs => ∀ a ∈ xs, P a := by
  induction bound with
  | zero => exact pure (List.forall_mem_nil P)
  | succ bound ih =>
    refine hr.bind fun o ho => ?_
    cases o with
    | none => exact pure (List.forall_mem_nil P)
    | some a => exact ih.bind fun xs hxs => pure (List.forall_mem_cons.2 ⟨ho a rfl, hxs⟩)

theorem many (hr : Yields r levels fun o => ∀ a ∈ o, P a) :
    Yields (many r) levels fun xs => ∀ a ∈ xs, P a :=
  before fun _ => hr.upTo

theorem separated (hp : Yields p levels P) :
    Yields (separated text p) levels fun xs => ∀ a ∈ xs, P a := by
  refine hp.bind fun a ha => ?_
  have hnext : Yields (do if ← sign? text then some <$> p else return none) levels
      fun o => ∀ a ∈ o, P a := by
    refine before fun found => ?_
    cases found with
    | true => exact hp.map fun a ha _ hb => Option.some.inj hb ▸ ha
    | false => exact pure fun _ hb => by cases hb
  exact hnext.many.bind fun xs hxs => pure (List.forall_mem_cons.2 ⟨ha, hxs⟩)

end Yields

end TokenParser

end FlatQuery.Sql
