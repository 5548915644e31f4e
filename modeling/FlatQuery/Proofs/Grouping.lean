import FlatQuery.Proofs.Parsing
import FlatQuery.Proofs.Precedence

set_option autoImplicit false

/-! # Grouping

The parser of terms groups operators as they bind, and nests parentheses no deeper than the levels
that are left to it. Of a term that is kept as a text nothing has to be known, so the invariant says
nothing of the terms in it. What one operator does to the term in front of it is `operation_fits`,
and `extend_fits` follows by induction on the operators. -/

namespace FlatQuery.Sql

open TokenParser

/-! ## Terms -/

/-- How tightly an operator binds, if expressions have it. -/
def InfixOperator.strength? : InfixOperator → Option Nat
  | binary op => some op.strength
  | _ => none

namespace Term

/-- How tightly the operator of an operation binds, if expressions have it. -/
def strength? : Term → Option Nat
  | operation op _ _ => op.strength?
  | _ => none

/-- Whether operators stand as they bind, and signs in front of operands only. -/
def Grouped : Term → Prop
  | nested inner => inner.Grouped
  | unary .minus operand => operand.Grouped ∧ operand.strength? = none
  | unary .plus operand => operand.Grouped ∧ operand.strength? = none
  | operation (.binary op) left right =>
    left.Grouped ∧ right.Grouped ∧
      (∀ s ∈ left.strength?, op.strength ≤ s) ∧ ∀ s ∈ right.strength?, op.strength < s
  | _ => True

/-- How deep parentheses are nested. -/
def depth : Term → Nat
  | nested inner => inner.depth + 1
  | unary .minus operand => operand.depth
  | unary .plus operand => operand.depth
  | operation (.binary _) left right => max left.depth right.depth
  | _ => 0

/-- Whether a term is none of the constructs that expressions are made of, apart from columns and
literals. -/
def Atomic : Term → Prop
  | nested _ => False
  | unary .minus _ => False
  | unary .plus _ => False
  | operation _ _ _ => False
  | _ => True

/-- Whether a term is grouped as its operators bind and fits in some levels, of which a number is
taken by what the term stands in. -/
structure Fits (taken levels : Nat) (t : Term) : Prop where
  grouped : t.Grouped
  depth_le : t.depth + taken ≤ levels

/-- Whether moreover it is no operation that expressions have. -/
structure IsOperand (levels : Nat) (t : Term) : Prop extends Fits 0 levels t where
  strength?_eq : t.strength? = none

section Fits

variable {taken levels : Nat} {t : Term}

theorem Fits.mono {fewer : Nat} (h : t.Fits taken levels) (hfewer : fewer ≤ taken) :
    t.Fits fewer levels :=
  ⟨h.grouped, Nat.le_trans (Nat.add_le_add_left hfewer _) h.depth_le⟩

theorem Fits.succ (h : t.Fits taken levels) : t.Fits (taken + 1) (levels + 1) :=
  ⟨h.grouped, Nat.succ_le_succ h.depth_le⟩

theorem Atomic.isOperand (h : t.Atomic) : t.IsOperand levels := by
  cases t with
  | unary op operand =>
    cases op with
    | minus | plus => cases h
    | not | factorial => exact ⟨⟨trivial, Nat.zero_le _⟩, rfl⟩
  | nested _ | operation _ _ _ => cases h
  | name _ | literal _ | call _ _ | subquery _ | other _ => exact ⟨⟨trivial, Nat.zero_le _⟩, rfl⟩

theorem isOperand_nested (h : t.Fits 1 levels) : (nested t).IsOperand levels :=
  ⟨⟨h.grouped, h.depth_le⟩, rfl⟩

end Fits

end Term

/-! ## Terms that are kept as texts -/

section Atomic

variable {g : Grammar} {levels : Nat}

theorem yields_call (function : List Name) : Yields (g.call function) levels Term.Atomic := by
  unfold Grammar.call
  refine .before fun _ => .before fun distinct => .before fun arguments => .before fun nulls => ?_
  extract_lets behindWindow behindNulls
  have hwindow (window : Option String) : Yields (behindWindow window) levels Term.Atomic :=
    .pure trivial
  have hnulls (u : Unit) : Yields (behindNulls u) levels Term.Atomic := by
    refine .before fun windowed => ?_
    split
    · refine .before fun text => ?_
      split
      · exact .before hwindow
      · exact .before fun label => .before hwindow
    · exact .before hwindow
  split
  · exact .before hnulls
  · exact hnulls ()

theorem yields_named (name : Name) : Yields (g.named name) levels Term.Atomic := by
  unfold Grammar.named
  refine .before fun others => .before fun text => ?_
  split
  · exact yields_call (name :: others)
  · refine .before fun next? => ?_
    -- a word may introduce the text of a literal
    split
    · exact .before fun value => .pure trivial
    · exact .before fun value => .pure trivial
    · exact .pure trivial

theorem yields_interval : Yields g.interval levels Term.Atomic := by
  unfold Grammar.interval
  refine .before fun first => .before fun tokens => .before fun value => .before fun unit => ?_
  split
  · exact .before fun precision => .pure trivial
  · refine .before fun length => .before fun to_ => ?_
    split
    · refine .before fun last => ?_
      split
      · exact .before fun lastLength => .pure trivial
      · exact .before fun lastLength => .pure trivial
    · exact .pure trivial

theorem yields_elements (word : String) : Yields (g.elements word) levels Term.Atomic := by
  unfold Grammar.elements
  refine .before fun text => ?_
  split
  · exact .before fun terms => .before fun _ => .pure trivial
  · exact .before fun terms => .before fun _ => .pure trivial

theorem yields_sessionValue (word : Name) :
    Yields (Grammar.sessionValue word) levels Term.Atomic :=
  .pure trivial

theorem yields_clock (word : Name) : Yields (g.clock word) levels Term.Atomic := by
  unfold Grammar.clock
  refine .before fun parenthesis => ?_
  split
  · exact .before fun arguments => .pure trivial
  · exact .pure trivial

theorem yields_caseTerm : Yields g.caseTerm levels Term.Atomic := by
  unfold Grammar.caseTerm
  refine .before fun key => ?_
  extract_lets branch behindSubject
  have hsubject (subject : Option String) : Yields (behindSubject subject) levels Term.Atomic :=
    .before fun _ => .before fun first => .before fun others => .before fun otherwise =>
      .before fun _ => .pure trivial
  split
  · exact .before hsubject
  · exact .before hsubject

theorem yields_convert : Yields g.convert levels Term.Atomic := by
  unfold Grammar.convert
  refine .parenthesized (.before fun term => .before fun using_ => ?_)
  split
  · exact .before fun charset => .pure trivial
  · exact .before fun _ => .before fun type => .before fun charset => .pure trivial

theorem yields_cast (word : String) : Yields (g.cast word) levels Term.Atomic := by
  unfold Grammar.cast
  refine .parenthesized (.before fun term => .before fun _ => .before fun type =>
    .before fun format => ?_)
  split
  · exact .before fun zone => .pure trivial
  · exact .before fun zone => .pure trivial

theorem yields_existsTerm (negated : Bool) :
    Yields (g.existsTerm negated) levels Term.Atomic :=
  .before fun _ => .pure trivial

theorem yields_extract : Yields g.extract levels Term.Atomic :=
  .parenthesized (.before fun _ => .before fun _ => .before fun _ => .pure trivial)

theorem yields_rounding (word : String) : Yields (g.rounding word) levels Term.Atomic :=
  .parenthesized (.before fun _ => .before fun _ => .pure trivial)

theorem yields_position (word : Name) : Yields (g.position word) levels Term.Atomic := by
  unfold Grammar.position
  refine .before fun text => ?_
  split
  · exact yields_named word
  · exact .parenthesized (.before fun term => .before fun _ => .before fun whole => .pure trivial)

theorem yields_substring : Yields g.substring levels Term.Atomic :=
  .parenthesized (.before fun _ => .before fun _ => .before fun _ => .pure trivial)

theorem yields_overlay : Yields g.overlay levels Term.Atomic :=
  .parenthesized (.before fun _ => .before fun _ => .before fun _ => .before fun _ =>
    .before fun _ => .before fun _ => .pure trivial)

theorem yields_trim : Yields g.trim levels Term.Atomic := by
  unfold Grammar.trim
  refine .parenthesized (.before fun side => .before fun term => .before fun from_ => ?_)
  split
  · exact .before fun source => .pure trivial
  · refine .before fun comma => ?_
    split
    · exact .before fun characters => .pure trivial
    · exact .pure trivial

theorem yields_array (word : Name) : Yields (g.array word) levels Term.Atomic := by
  unfold Grammar.array
  refine .before fun bracket => ?_
  split
  · exact yields_elements "ARRAY"
  · refine .before fun text => ?_
    split
    · exact .before fun query => .pure trivial
    · exact yields_named word

theorem yields_arrayAggregate : Yields g.arrayAggregate levels Term.Atomic := by
  unfold Grammar.arrayAggregate
  refine .parenthesized (.before fun distinct => .before fun term => .before fun order =>
    .before fun limited => ?_)
  split
  · refine .before fun all => ?_
    split
    · exact .before fun limit => .pure trivial
    · exact .before fun limit => .pure trivial
  · exact .before fun limit => .pure trivial

theorem yields_listAggregate : Yields g.listAggregate levels Term.Atomic :=
  .before fun _ => .before fun _ => .pure trivial

theorem yields_negation : Yields g.negation levels Term.Atomic := by
  unfold Grammar.negation
  refine .before fun exists_ => ?_
  split
  · exact yields_existsTerm true
  · exact .before fun operand => .pure trivial

theorem yields_matchAgainst : Yields Grammar.matchAgainst levels Term.Atomic :=
  .before fun _ => .before fun _ => .before fun _ => .pure trivial

theorem yields_structure : Yields g.structure_ levels Term.Atomic :=
  .before fun _ => .before fun _ => .pure trivial

/-- What begins with a keyword, in the order of the table. -/
theorem yields_keywordOperand :
    ∀ entry ∈ g.keywordOperands, ∀ word, Yields (entry.2 word) levels Term.Atomic := by
  have hliteral (word : String) (_ : Name) :
      Yields (pure (.literal (.spelled word))) levels Term.Atomic := .pure trivial
  simp only [Grammar.keywordOperands, List.forall_mem_cons]
  exact ⟨hliteral "true", hliteral "false", hliteral "NULL", yields_sessionValue,
    yields_sessionValue, yields_sessionValue, yields_sessionValue, yields_clock, yields_clock,
    yields_clock, yields_clock, yields_clock, fun _ => yields_caseTerm, fun _ => yields_convert,
    fun _ => yields_cast "CAST", fun _ => yields_cast "TRY_CAST", fun _ => yields_cast "SAFE_CAST",
    fun _ => yields_existsTerm false, fun _ => yields_extract, fun _ => yields_rounding "CEIL",
    fun _ => yields_rounding "FLOOR", yields_position, fun _ => yields_substring,
    fun _ => yields_overlay, fun _ => yields_trim, fun _ => yields_interval, yields_array,
    fun _ => yields_arrayAggregate, fun _ => yields_listAggregate, fun _ => yields_negation,
    fun _ => yields_matchAgainst, fun _ => yields_structure, List.forall_mem_nil _⟩

theorem yields_typedLiteral : Yields g.typedLiteral levels Term.Atomic := by
  unfold Grammar.typedLiteral
  refine .before fun type => .before fun _ => ?_
  split
  · exact yields_interval
  · exact .before fun text => .pure trivial

/-! ## Tests and signs behind a term -/

theorem yields_isTest (left : Term) : Yields (g.isTest left) levels Term.Atomic := by
  unfold Grammar.isTest
  refine .before fun negated => .before fun word => ?_
  split
  · exact .pure trivial
  · exact .before fun _ => .before fun right => .pure trivial

theorem yields_membership (start : String) : Yields (g.membership start) levels Term.Atomic := by
  unfold Grammar.membership
  refine .before fun unnest => ?_
  split
  · exact .before fun array => .pure trivial
  · refine .parenthesized (.before fun key => ?_)
    split
    · exact .before fun query => .pure trivial
    · exact .before fun terms => .pure trivial

theorem yields_likeness (start : String) : Yields (g.likeness start) levels Term.Atomic :=
  .before fun _ => .before fun _ => .pure trivial

theorem yields_property (left : Term) (negated : Bool) :
    Yields (g.property left negated) levels Term.Atomic := by
  unfold Grammar.property
  refine .before fun word => ?_
  split
  · exact yields_membership _
  · exact .before fun low => .before fun _ => .before fun high => .pure trivial
  · exact .before fun _ => yields_likeness _
  · exact yields_likeness _
  · exact yields_likeness _
  · split
    · exact .before fun _ => .before fun pattern => .pure trivial
    · exact .before fun pattern => .pure trivial

theorem yields_atTimeZone (left : Term) :
    Yields (Grammar.atTimeZone left) levels Term.Atomic :=
  .before fun _ => .before fun _ => .pure trivial

theorem yields_afterSign (left : Term) (text : String) :
    Yields (g.afterSign left text) levels Term.Atomic := by
  unfold Grammar.afterSign
  split
  · exact .before fun type => .pure trivial
  · exact .pure trivial
  · exact .before fun path => .pure trivial
  · exact .before fun first => .before fun others => .pure trivial
  · exact .before fun _ => .before fun right => .pure trivial

/-- What an operator that expressions do not have makes of a term, once it is known to stand behind
one. -/
theorem yields_test (left : Term) (t : Token) :
    Yields (match t.key with
      | "" => g.afterSign left t.sign
      | "IS" => g.isTest left
      | "AT" => Grammar.atTimeZone left
      | "NOT" => g.property left true
      | "DIV" => failure
      | _ => do
        modify (t :: ·)
        g.property left false) levels Term.Atomic := by
  split
  · exact yields_afterSign left t.sign
  · exact yields_isTest left
  · exact yields_atTimeZone left
  · exact yields_property left true
  · exact .failure
  · exact .before fun _ => yields_property left false

end Atomic

/-! ## Operators -/

theorem strength_le (op : BinaryOp) : op.strength ≤ signStrength := by
  rcases op with op | _ | op
  · exact Nat.le_add_right 20 20
  · exact Nat.le_add_right 10 30
  · cases op <;> decide

theorem mem_of_lookup {α : Type} {entries : List (String × α)} {k : String} {a : α}
    (h : entries.lookup k = some a) : (k, a) ∈ entries := by
  obtain ⟨front, back, rfl, -⟩ := List.lookup_eq_some_iff.1 h
  exact List.mem_append_right front (List.mem_cons_self ..)

theorem strength_wordOperators : ∀ entry ∈ wordOperators, ∀ s ∈ entry.2.strength?,
    wordStrengths.lookup entry.1 = some s ∧ entry.1 ∉ ["NOT", "AT"] := by
  decide

theorem strength_signOperators : ∀ entry ∈ signOperators, ∀ s ∈ entry.2.strength?,
    signStrengths.lookup entry.1 = some s ∧ entry.1 ≠ "" := by
  decide

/-- The operator that a token is read as binds as the strength in front of the token says. -/
theorem strength_of_infixOperator? {t : Token} {op : InfixOperator} {levels s : Nat}
    {ts rest behind : List Token} (h : Grammar.infixOperator? t levels ts = some (some op, rest))
    (hs : s ∈ op.strength?) : strength (t :: behind) = s := by
  have hcustom : Yields (some <$> Grammar.customOperator) levels
      fun o => ∀ op ∈ o, op.strength? = none := by
    have hother : Yields Grammar.customOperator levels (·.strength? = none) :=
      .parenthesized (.before fun _ => .pure rfl)
    exact hother.map fun op hop _ h => Option.some.inj h ▸ hop
  unfold Grammar.infixOperator? at h
  split at h
  · rw [hcustom _ _ _ h op rfl] at hs
    cases hs
  · have hoperator : (wordOperators.lookup t.key <|> signOperators.lookup t.sign) = some op :=
      congrArg Prod.fst (Option.some.inj h)
    cases hword : wordOperators.lookup t.key with
    | some found =>
      rw [hword] at hoperator
      cases hoperator
      obtain ⟨hstrength, hkey⟩ := strength_wordOperators _ (mem_of_lookup hword) s hs
      simp only [List.mem_cons, List.not_mem_nil, or_false, not_or] at hkey
      rw [strength, if_neg hkey.1, if_neg hkey.2, hstrength]
      rfl
    | none =>
      rw [hword] at hoperator
      obtain ⟨hstrength, hsign⟩ := strength_signOperators _ (mem_of_lookup hoperator) s hs
      have hkey : t.key = "" := by
        cases t with
        | word text quote => exact absurd rfl hsign
        | _ => rfl
      rw [strength, hkey, hstrength]
      rfl

section Operators

variable {g : Grammar} {levels low : Nat} {left t : Term} {ts rest : List Token}

/-- Whether a grammar reads terms that are grouped as their operators bind, in front of an operator
that binds no more tightly than asked for. -/
def Grammar.GroupsTerms (g : Grammar) : Prop :=
  ∀ low levels ts t rest, g.term low levels ts = some (t, rest) →
    t.Fits 0 levels ∧ (∀ s ∈ t.strength?, low < s) ∧ strength rest ≤ low

theorem yields_expr (hg : g.GroupsTerms) : Yields g.expr levels (Term.Fits 1 levels) := by
  refine .deeper fun fewer hfewer => ?_
  rw [hfewer]
  exact fun ts t rest h => (hg 0 fewer ts t rest h).1.succ

theorem yields_inner (hg : g.GroupsTerms) : Yields g.inner levels (Term.IsOperand levels) := by
  unfold Grammar.inner
  refine .before fun key => ?_
  -- whatever stands in the parentheses is closed in the same way
  extract_lets closed
  have hclosed (term : Term) (hterm : term.IsOperand levels) :
      Yields (closed term) levels (Term.IsOperand levels) := by
    refine .before fun _ => .before fun dotted => ?_
    split
    · refine .before fun t => ?_
      split
      · exact .pure (Term.Atomic.isOperand trivial)
      · exact .failure
    · exact .pure hterm
  split
  · exact .before fun query => .bind (.pure (Term.Atomic.isOperand trivial)) hclosed
  · refine (Yields.separated (yields_expr hg)).bind fun terms hterms => ?_
    split
    · next term =>
      have hterm : term.Fits 1 levels := hterms term (List.mem_singleton_self _)
      exact .bind (.pure (Term.isOperand_nested hterm)) hclosed
    · exact .bind (.pure (Term.Atomic.isOperand trivial)) hclosed

/-- A sign stands in front of an operand, since no operator binds more tightly than a sign. -/
theorem isOperand_signed (hg : g.GroupsTerms)
    (h : g.term signStrength levels ts = some (t, rest)) : t.IsOperand levels := by
  obtain ⟨hfits, hstrength, -⟩ := hg _ _ _ _ _ h
  refine ⟨hfits, ?_⟩
  cases hroot : t.strength? with
  | none => rfl
  | some s =>
    have hlt := hstrength s hroot
    cases t with
    | operation op left right =>
      cases op with
      | binary op =>
        obtain rfl := Option.some.inj hroot
        exact absurd (strength_le op) (Nat.not_le_of_lt hlt)
      | or | other symbol => cases hroot
    | _ => cases hroot

theorem yields_bareOperand (hg : g.GroupsTerms) :
    Yields g.bareOperand levels (Term.IsOperand levels) := by
  have hatomic {p : TokenParser Term} (h : Yields p levels Term.Atomic) :
      Yields p levels (Term.IsOperand levels) := h.mono fun _ ht => ht.isOperand
  have hsigned : Yields (g.term signStrength) levels (Term.IsOperand levels) :=
    fun ts t rest h => isOperand_signed hg h
  unfold Grammar.bareOperand
  refine .before fun next? => ?_
  split
  · refine .before fun t => ?_
    split
    · next rest hlookup => exact hatomic (yields_keywordOperand _ (mem_of_lookup hlookup) _)
    · exact hatomic (yields_named _)
  · exact .before fun _ => hsigned.bind fun operand h =>
      .pure ⟨⟨⟨h.grouped, h.strength?_eq⟩, h.depth_le⟩, rfl⟩
  · exact .before fun _ => hsigned.bind fun operand h =>
      .pure ⟨⟨⟨h.grouped, h.strength?_eq⟩, h.depth_le⟩, rfl⟩
  · exact .before fun _ => yields_inner hg
  · exact .before fun _ => hatomic (yields_elements _)
  · exact .before fun value => .pure (Term.Atomic.isOperand trivial)

theorem yields_readOperand (hg : g.GroupsTerms) :
    Yields g.readOperand levels (Term.IsOperand levels) := by
  unfold Grammar.readOperand
  refine (yields_typedLiteral.attempt).bind fun typed htyped => ?_
  split
  · next term => exact .pure (htyped term rfl).isOperand
  · refine (yields_bareOperand hg).bind fun term hterm => .before fun collation => ?_
    split
    · exact .pure (Term.Atomic.isOperand trivial)
    · exact .pure hterm

/-- **An operator leaves a term that is grouped**, if the term in front of it is and binds as tightly
as it does: its right operand ends where an operator follows that binds no more tightly. -/
theorem operation_fits (hg : g.GroupsTerms) (hleft : left.Fits 0 levels)
    (hbinds : ∀ s ∈ left.strength?, strength ts ≤ s)
    (h : g.operation left (strength ts) levels ts = some (t, rest)) :
    t.Fits 0 levels ∧ ∀ s ∈ t.strength?, s = strength ts ∧ strength rest ≤ s := by
  have hatomic (ht : t.Atomic) :
      t.Fits 0 levels ∧ ∀ s ∈ t.strength?, s = strength ts ∧ strength rest ≤ s := by
    have hoperand : t.IsOperand levels := ht.isOperand
    refine ⟨hoperand.toFits, ?_⟩
    rw [hoperand.strength?_eq]
    rintro s ⟨⟩
  cases ts with
  | nil => cases h
  | cons u ts =>
    obtain ⟨_, _, hu, h⟩ := bind_eq_some h
    cases hu
    obtain ⟨op?, behind, hop, h⟩ := bind_eq_some h
    cases op? with
    | none => exact hatomic (yields_test left u _ _ _ h)
    | some op =>
      obtain ⟨quantifier, behind', hquantifier, h⟩ := bind_eq_some h
      cases quantifier with
      | some word =>
        have hother : Yields (do
            let right ← parenthesized (g.term (strength (u :: ts)))
            require (Grammar.comparesAll op)
            return .other (left.normal ++ " " ++ op.symbol ++ " " ++ word ++ "(" ++ right.normal
              ++ ")")) levels Term.Atomic :=
          .before fun _ => .before fun _ => .pure trivial
        exact hatomic (hother _ _ _ h)
      | none =>
        obtain ⟨right, _, hright, h⟩ := bind_eq_some h
        cases h
        obtain ⟨hfits, htight, hrest⟩ := hg _ _ _ _ _ hright
        cases op with
        | binary op =>
          have hop : strength (u :: ts) = op.strength := strength_of_infixOperator? hop rfl
          rw [hop] at hbinds htight hrest ⊢
          refine ⟨⟨⟨hleft.grouped, hfits.grouped, hbinds, htight⟩, ?_⟩, ?_⟩
          · exact Nat.max_le.2 ⟨hleft.depth_le, hfits.depth_le⟩
          · rintro s ⟨⟩
            exact ⟨rfl, hrest⟩
        | or | other symbol => exact ⟨⟨trivial, Nat.zero_le _⟩, fun s hs => by cases hs⟩

/-- **A term stays grouped while operators extend it**, up to one that binds no more tightly than
asked for. -/
theorem extend_fits (hg : g.GroupsTerms) {bound : Nat} (hleft : left.Fits 0 levels)
    (hlow : ∀ s ∈ left.strength?, low < s) (hbinds : ∀ s ∈ left.strength?, strength ts ≤ s)
    (h : Grammar.extend g.operation strength low bound left levels ts = some (t, rest)) :
    t.Fits 0 levels ∧ (∀ s ∈ t.strength?, low < s) ∧ strength rest ≤ low := by
  induction bound generalizing left ts with
  | zero => cases h
  | succ bound ih =>
    by_cases hend : strength ts ≤ low
    · rw [Grammar.extend, bind_apply, get_apply, Option.bind_some, if_pos hend] at h
      cases h
      exact ⟨hleft, hlow, hend⟩
    · rw [Grammar.extend, bind_apply, get_apply, Option.bind_some, if_neg hend] at h
      obtain ⟨next, behind, hnext, h⟩ := bind_eq_some h
      obtain ⟨hfits, hstrength⟩ := operation_fits hg hleft hbinds hnext
      refine ih hfits (fun s hs => ?_) (fun s hs => (hstrength s hs).2) h
      rw [(hstrength s hs).1]
      exact Nat.lt_of_not_le hend

theorem groupsTerms_above (hg : g.GroupsTerms) : g.above.GroupsTerms := by
  intro low levels ts t rest h
  obtain ⟨first, behind, hfirst, h⟩ := bind_eq_some h
  obtain ⟨_, _, hget, h⟩ := bind_eq_some h
  cases hget
  have hoperand : first.IsOperand levels := yields_readOperand hg _ _ _ hfirst
  have hnone (s : Nat) (hs : s ∈ first.strength?) : False := by
    rw [hoperand.strength?_eq] at hs
    cases hs
  exact extend_fits hg hoperand.toFits (fun s hs => (hnone s hs).elim)
    (fun s hs => (hnone s hs).elim) h

end Operators

/-- **Terms of every height are grouped as their operators bind.** -/
theorem groupsTerms_ofHeight (height : Nat) : (Grammar.ofHeight height).GroupsTerms := by
  induction height with
  | zero =>
    intro low levels ts t rest h
    cases h
  | succ height ih => exact groupsTerms_above ih

end FlatQuery.Sql
