import FlatQuery.Proofs.Clauses
import FlatQuery.Proofs.Occurrences
import FlatQuery.Proofs.Rereading

set_option autoImplicit false

/-! # Signs that show

A minus in front of anything but a number becomes a subtraction from zero, without parentheses around
it. Printed next to an operator that binds as tightly, it is no longer what it was: `A - -B` prints
as `A - 0 - B`. A term where this happens nowhere is `Legible`. Since all other operators of a term
that was read stand as they bind, these are the terms whose expressions are canonical
(`Term.canonical_iff`), and so those whose texts say what runs (`reads_back_iff`). -/

namespace FlatQuery

open Sql (Token Term Grammar AllFit StandFor)

/-- How tightly subtraction binds. -/
abbrev subtractionStrength : Nat := (BinaryOp.arithmetic .sub).strength

namespace Sql.Term

/-! ## Legible terms -/

/-- Whether a term stands for a subtraction from zero without parentheses around it. -/
def isNegation : Term → Bool
  | unary .minus (literal _) => false
  | unary .minus _ => true
  | unary .plus operand => operand.isNegation
  | _ => false

/-- Whether every subtraction from zero stands where a subtraction may stand without parentheses: not
behind another minus in front, not next to `*` or `/`, and not behind `+` or `-`. -/
def Legible : Term → Prop
  | nested inner => inner.Legible
  | unary .minus operand => operand.Legible ∧ operand.isNegation = false
  | unary .plus operand => operand.Legible
  | operation (.binary op) left right =>
    left.Legible ∧ right.Legible ∧ (left.isNegation → op.strength ≤ subtractionStrength) ∧
      (right.isNegation → op.strength < subtractionStrength)
  | _ => True

/-! ## From terms to expressions -/

/-- Of which form the expression is that a term stands for. -/
inductive Forms : Term → Expr → Prop
  | column (parts : List Name) (ref : ColumnRef) : Forms (name parts) (.column ref)
  | number (value : Literal) (v : Value) : Forms (literal value) (.literal v)
  | negative (value : Literal) (v : Value) : Forms (unary .minus (literal value)) (.literal v)
  | nested {inner : Term} {e : Expr} (h : Forms inner e) : Forms (nested inner) (.nested e)
  | negation {operand : Term} {e : Expr} (hnumber : ∀ value, operand ≠ literal value)
    (h : Forms operand e) :
    Forms (unary .minus operand) (.binary (.arithmetic .sub) (.literal 0) e)
  | plus {operand : Term} {e : Expr} (h : Forms operand e) : Forms (unary .plus operand) e
  | operation {op : BinaryOp} {left right : Term} {l r : Expr} (hl : Forms left l)
    (hr : Forms right r) : Forms (operation (.binary op) left right) (.binary op l r)

section Lowering

variable {t : Term} {e : Expr}

theorem forms_lower (h : t.lower = .ok e) : Forms t e := by
  fun_induction Term.lower t generalizing e with
  | case1 parts =>
    unfold lowerName at h
    split at h <;> cases h
    · exact .column _ _
    · exact .column _ _
  | case2 value =>
    obtain ⟨v, rfl⟩ := literal_eq_ok h
    exact .number value v
  | case3 inner ih =>
    obtain ⟨e', he, h⟩ := bind_eq_ok_iff.1 h
    cases h
    exact .nested (ih he)
  | case4 value =>
    obtain ⟨v, rfl⟩ := literal_eq_ok h
    exact .negative value v
  | case5 operand hnumber ih =>
    obtain ⟨e', he, h⟩ := bind_eq_ok_iff.1 h
    cases h
    exact .negation hnumber (ih he)
  | case6 operand ih => exact .plus (ih h)
  | case9 op left right ihl ihr =>
    obtain ⟨l, hl, h⟩ := bind_eq_ok_iff.1 h
    obtain ⟨r, hr, h⟩ := bind_eq_ok_iff.1 h
    cases h
    exact .operation (ihl hl) (ihr hr)
  | _ => cases h

theorem Forms.depth_eq (h : Forms t e) : e.depth = t.depth := by
  induction h with
  | column parts ref => rfl
  | number value v => rfl
  | negative value v => rfl
  | nested h ih => rw [Expr.depth, ih, depth]
  | negation hnumber h ih => rw [Expr.depth, ih, depth, Expr.depth, Nat.zero_max]
  | plus h ih => exact ih
  | operation hl hr ihl ihr => rw [Expr.depth, ihl, ihr, depth]

theorem isNegation_minus (h : ∀ value, t ≠ literal value) : (unary .minus t).isNegation = true := by
  cases t with
  | literal value => exact absurd rfl (h value)
  | _ => rfl

/-- An expression binds as tightly as the operator of its term, or as a subtraction. -/
theorem Forms.strength?_eq (h : Forms t e) (hgrouped : t.Grouped) :
    e.strength? = if t.isNegation then some subtractionStrength else t.strength? := by
  induction h with
  | column parts ref => rfl
  | number value v => rfl
  | negative value v => rfl
  | nested h ih => rfl
  | negation hnumber h ih => rw [isNegation_minus hnumber]; rfl
  | plus h ih =>
    rw [ih hgrouped.1, isNegation, hgrouped.2]
    rfl
  | operation hl hr ihl ihr => rfl

/-- The operand of an operator may bind as its term does, if it does not stand for a subtraction that
the operator forbids. -/
theorem Forms.forall_strength?_iff (h : Forms t e) (hgrouped : t.Grouped) {P : Nat → Prop}
    (hP : ∀ s ∈ t.strength?, P s) :
    (∀ s ∈ e.strength?, P s) ↔ (t.isNegation → P subtractionStrength) := by
  rw [h.strength?_eq hgrouped]
  cases t.isNegation with
  | true => simp
  | false => simpa using hP

/-- **A term that is grouped as its operators bind stands for a canonical expression exactly if it is
legible.** -/
theorem Forms.canonical_iff (h : Forms t e) (hgrouped : t.Grouped) :
    e.Canonical ↔ t.Legible := by
  induction h with
  | column parts ref => exact Iff.rfl
  | number value v => exact Iff.rfl
  | negative value v => exact iff_of_true trivial ⟨trivial, rfl⟩
  | nested h ih => exact ih hgrouped
  | @negation operand e hnumber h ih =>
    have hright : (∀ s ∈ e.strength?, subtractionStrength < s) ↔ operand.isNegation = false := by
      rw [h.forall_strength?_iff hgrouped.1 (by rw [hgrouped.2]; rintro s ⟨⟩)]
      simp
    have hleft : ∀ s ∈ (Expr.literal 0).strength?, subtractionStrength ≤ s := by rintro s ⟨⟩
    rw [Expr.Canonical, ih hgrouped.1, hright, Legible]
    exact ⟨fun h => ⟨h.2.1, h.2.2.2⟩, fun h => ⟨trivial, h.1, hleft, h.2⟩⟩
  | plus h ih => exact ih hgrouped.1
  | operation hl hr ihl ihr =>
    obtain ⟨hgl, hgr, hleft, hright⟩ := hgrouped
    rw [Expr.Canonical, ihl hgl, ihr hgr, hl.forall_strength?_iff hgl hleft,
      hr.forall_strength?_iff hgr hright, Legible]

end Lowering

end Sql.Term

/-! ## Expressions of texts -/

namespace Sql

/-- Whether a text says a query in which a term stands in a SELECT list or under ON or WHERE, and the
term stands for an expression there. -/
def Writes (text : String) (t : Term) (e : Expr) : Prop :=
  ∃ q s, (Token.scan text).bind Grammar.read = some [.query q] ∧ q.lower = .ok s ∧
    (t, e) ∈ q.terms.zip s.exprs

section Writes

variable {text : String} {s : Statement} {t : Term} {e : Expr}

theorem exists_query (h : read text = .ok s) :
    ∃ q, (Token.scan text).bind Grammar.read = some [.query q] ∧ q.lower = .ok s := by
  unfold read at h
  split at h
  · cases h
  · next sentence hsentence =>
    cases sentence with
    | query q => exact ⟨q, hsentence, h⟩
    | command word => cases h
  · cases h

/-- Every expression of a text is written somewhere in it. -/
theorem exists_writes (h : read text = .ok s) (he : e ∈ s.exprs) : ∃ t, Writes text t e := by
  obtain ⟨q, hq, hlower⟩ := exists_query h
  have hlength : q.terms.length = s.exprs.length := (q.standFor hlower).length_eq
  rw [← List.map_snd_zip hlength.ge] at he
  obtain ⟨⟨t, _⟩, hpair, rfl⟩ := List.mem_map.1 he
  exact ⟨t, q, s, hq, hlower, hpair⟩

theorem Writes.lower (h : Writes text t e) : t.lower = .ok e := by
  obtain ⟨q, s, -, hlower, hpair⟩ := h
  exact (List.forall₂_iff_zip.1 (q.standFor hlower)).2 hpair

theorem Writes.fits (h : Writes text t e) : t.Fits 3 Grammar.maxLevels := by
  obtain ⟨q, s, hq, -, hpair⟩ := h
  obtain ⟨tokens, -, hread⟩ := Option.bind_eq_some_iff.1 hq
  exact read_fits hread _ (List.mem_singleton_self _) t (List.of_mem_zip hpair).1

theorem Writes.canonical_iff (h : Writes text t e) : e.Canonical ↔ t.Legible :=
  (Term.forms_lower h.lower).canonical_iff h.fits.grouped

/-- Parentheses are nested no deeper in an expression than they may be under WHERE. -/
theorem Writes.depth_le (h : Writes text t e) : e.depth + 3 ≤ Grammar.maxLevels := by
  rw [(Term.forms_lower h.lower).depth_eq]
  exact h.fits.depth_le

end Writes

/-- The text of any expression is read as the expression with its operators grouped as they bind. -/
theorem read_regrouped {e : Expr} (hplain : e.Plain)
    (hdepth : e.depth + 3 ≤ Grammar.maxLevels) :
    read (queryText e.text) = .ok (queryOf e.regrouped) := by
  have hregrouped : e.regrouped.Plain := by
    unfold Expr.Plain
    rw [e.columns_regrouped]
    exact hplain
  have hscans := hregrouped.scans_text
  rw [e.text_regrouped] at hscans
  refine read_queryText hscans hregrouped e.canonical_regrouped ?_
  rwa [e.depth_regrouped]

theorem queryOf_injective : Function.Injective queryOf := by
  intro e e' h
  exact Option.some.inj (Select.mk.inj (Statement.select.inj h)).2.2.2.2.1

end Sql

/-- **The text of an expression says what runs exactly if the expression was written legibly.** It is
always read as the expression with its operators grouped as they bind, and two expressions that were
written legibly and print alike are the same. -/
theorem reads_back_iff {text : String} {s : Statement} (hread : Sql.read text = .ok s) {e : Expr}
    (he : e ∈ s.exprs) (hplain : e.Plain) :
    Sql.read ("SELECT * FROM T WHERE " ++ e.text) =
        .ok (.select ⟨false, [.wildcard], .table ⟨"T", none⟩, [], some e.regrouped, []⟩) ∧
      (∃ t, Sql.Writes text t e) ∧
      ∀ t, Sql.Writes text t e →
        (Sql.read ("SELECT * FROM T WHERE " ++ e.text) =
            .ok (.select ⟨false, [.wildcard], .table ⟨"T", none⟩, [], some e, []⟩) ↔
          t.Legible) ∧
        ∀ text' t' e', Sql.Writes text' t' e' → e'.Plain → t.Legible → t'.Legible →
          e'.text = e.text → e' = e := by
  have hwritten : ∃ t, Sql.Writes text t e := Sql.exists_writes hread he
  have hdepth : e.depth + 3 ≤ Grammar.maxLevels := hwritten.elim fun _ ht => ht.depth_le
  have hregrouped : Sql.read (Sql.queryText e.text) = .ok (Sql.queryOf e.regrouped) :=
    Sql.read_regrouped hplain hdepth
  refine ⟨hregrouped, hwritten, fun t ht => ⟨?_, ?_⟩⟩
  · rw [← ht.canonical_iff, ← e.regrouped_eq_iff]
    change Sql.read (Sql.queryText e.text) = .ok (Sql.queryOf e) ↔ _
    rw [hregrouped, Except.ok.injEq, Sql.queryOf_injective.eq_iff]
  · intro text' t' e' ht' hplain' hlegible hlegible' htext
    have hregrouped' : Sql.read (Sql.queryText e'.text) = .ok (Sql.queryOf e'.regrouped) :=
      Sql.read_regrouped hplain' ht'.depth_le
    rw [htext, hregrouped, Except.ok.injEq, Sql.queryOf_injective.eq_iff] at hregrouped'
    rw [← e'.regrouped_eq_iff.2 (ht'.canonical_iff.2 hlegible'), ← hregrouped',
      e.regrouped_eq_iff.2 (ht.canonical_iff.2 hlegible)]

/-! ### Signs that show and signs that do not -/

/-- The expressions that a text is read as. -/
def exprsOf (text : String) : Option (List Expr) := (Sql.read text).toOption.map Statement.exprs

theorem exists_of_exprsOf {text : String} {es : List Expr} (h : exprsOf text = some es) :
    ∃ s, Sql.read text = .ok s ∧ s.exprs = es := by
  obtain ⟨s, hs, hes⟩ := Option.map_eq_some_iff.1 h
  cases hread : Sql.read text with
  | ok s' =>
    rw [hread] at hs
    exact ⟨s', rfl, Option.some.inj hs ▸ hes⟩
  | error e =>
    rw [hread] at hs
    cases hs

/-- The expression `A = 0 - B`, which `A = -B` stands for. -/
def equalsNegation : Expr :=
  .binary (.compare .eq) (.column ⟨none, "A"⟩)
    (.binary (.arithmetic .sub) (.literal 0) (.column ⟨none, "B"⟩))

theorem reads_back_iff_equalsNegation :
    exprsOf "SELECT -(A) FROM T JOIN R ON A = -B" = some
        [.binary (.arithmetic .sub) (.literal 0) (.nested (.column ⟨none, "A"⟩)), equalsNegation] ∧
      equalsNegation.Plain ∧
      Sql.read ("SELECT * FROM T WHERE " ++ equalsNegation.text) =
        .ok (.select ⟨false, [.wildcard], .table ⟨"T", none⟩, [], some equalsNegation, []⟩) ∧
      ∃ t, Sql.Writes "SELECT -(A) FROM T JOIN R ON A = -B" t equalsNegation ∧ t.Legible := by
  have hexprs : exprsOf "SELECT -(A) FROM T JOIN R ON A = -B" = some
      [.binary (.arithmetic .sub) (.literal 0) (.nested (.column ⟨none, "A"⟩)),
        equalsNegation] := by
    decide +kernel
  obtain ⟨s, hread, hs⟩ := exists_of_exprsOf hexprs
  have he : equalsNegation ∈ s.exprs := hs ▸ List.mem_cons_of_mem _ (List.mem_singleton_self _)
  have hplain : equalsNegation.Plain := by decide
  have hregrouped : equalsNegation.regrouped = equalsNegation := by decide
  obtain ⟨hreads, ⟨t, ht⟩, hlegible⟩ := reads_back_iff hread he hplain
  rw [hregrouped] at hreads
  exact ⟨hexprs, hplain, hreads, t, ht, (hlegible t ht).1.1 hreads⟩

/-- The expression that `A - -B = 1` stands for: `A` less the difference of 0 and `B`. -/
def subtractsNegation : Expr :=
  .binary (.compare .eq)
    (.binary (.arithmetic .sub) (.column ⟨none, "A"⟩)
      (.binary (.arithmetic .sub) (.literal 0) (.column ⟨none, "B"⟩)))
    (.literal 1)

/-- The expression that its text `A - 0 - B = 1` is read as. -/
def subtractsTwice : Expr :=
  .binary (.compare .eq)
    (.binary (.arithmetic .sub)
      (.binary (.arithmetic .sub) (.column ⟨none, "A"⟩) (.literal 0)) (.column ⟨none, "B"⟩))
    (.literal 1)

/-- A minus behind a minus is printed as what is read as something else, which does not hold of the
same rows. -/
theorem minus_misprinted :
    exprsOf "SELECT * FROM T WHERE A - -B = 1" = some [subtractsNegation] ∧
      subtractsNegation.Plain ∧ subtractsNegation.text = "A - 0 - B = 1" ∧
      exprsOf ("SELECT * FROM T WHERE " ++ subtractsNegation.text) = some [subtractsTwice] ∧
      subtractsTwice.text = subtractsNegation.text ∧ subtractsTwice ≠ subtractsNegation ∧
      [subtractsNegation, subtractsTwice].map (fun e => do
        (← (Predicate.bind (.forTable "T" ["A", "B"]) e).toOption).eval ⟨[0, 1]⟩ |>.toOption) =
          [some true, some false] := by
  decide +kernel

end FlatQuery
