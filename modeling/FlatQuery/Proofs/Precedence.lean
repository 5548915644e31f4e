import FlatQuery.Expr

set_option autoImplicit false

/-! # Precedence

An expression is printed without parentheses of its own, so its text tells the expression only if
the operators in it stand as they bind. Such an expression is `Canonical`. Every expression can be
regrouped into a canonical one of the same text (`text_regrouped`). -/

namespace FlatQuery

/-- How tightly an operator binds. -/
def BinaryOp.strength : BinaryOp → Nat
  | and => 10
  | compare _ => 20
  | arithmetic .add | arithmetic .sub => 30
  | arithmetic .mul | arithmetic .div => 40

namespace Expr

/-- How tightly the outermost operator binds, if there is one outside of parentheses. -/
def strength? : Expr → Option Nat
  | binary op _ _ => some op.strength
  | _ => none

/-- Whether all operators stand as they bind: no left operand binds less tightly than its operator,
and every right operand binds more tightly. -/
def Canonical : Expr → Prop
  | column _ => True
  | literal _ => True
  | binary op left right =>
    left.Canonical ∧ right.Canonical ∧
      (∀ s ∈ left.strength?, op.strength ≤ s) ∧ ∀ s ∈ right.strength?, op.strength < s
  | nested inner => inner.Canonical

instance decidableCanonical : (e : Expr) → Decidable e.Canonical
  | column _ => inferInstanceAs (Decidable True)
  | literal _ => inferInstanceAs (Decidable True)
  | binary op left right =>
    have := decidableCanonical left
    have := decidableCanonical right
    inferInstanceAs (Decidable (left.Canonical ∧ right.Canonical ∧
      (∀ s ∈ left.strength?, op.strength ≤ s) ∧ ∀ s ∈ right.strength?, op.strength < s))
  | nested inner => decidableCanonical inner

/-- How deep parentheses are nested. -/
def depth : Expr → Nat
  | column _ => 0
  | literal _ => 0
  | binary _ left right => max left.depth right.depth
  | nested inner => inner.depth + 1

/-! ## Regrouping -/

/-- The text of two operands with an operator between them, of which the right one binds more
tightly: the operator takes what binds as tightly at the end of the left one. -/
def attach (op : BinaryOp) (left right : Expr) : Expr :=
  match left with
  | binary first l r =>
    if first.strength < op.strength then binary first l (attach op r right)
    else binary op (binary first l r) right
  | _ => binary op left right

/-- Two canonical operands with an operator between them, grouped as the operators bind. -/
def combine (op : BinaryOp) (left right : Expr) : Expr :=
  match right with
  | binary last l r =>
    if last.strength ≤ op.strength then attach last (combine op left l) r
    else attach op left (binary last l r)
  | _ => attach op left right

/-- The expression with its operators grouped as they bind. -/
def regrouped : Expr → Expr
  | binary op left right => combine op left.regrouped right.regrouped
  | nested inner => nested inner.regrouped
  | e => e

section Measures

/-! A measure of expressions that takes an operator and the measures of its operands, no matter how
they are grouped, is kept. The text is one, and so are the depth and the columns. -/

variable {α : Type} {f : Expr → α} {g : BinaryOp → α → α → α}

theorem eq_attach (hbinary : ∀ op l r, f (binary op l r) = g op (f l) (f r))
    (hassoc : ∀ op op' a b c, g op a (g op' b c) = g op' (g op a b) c) (op : BinaryOp)
    (left right : Expr) : f (attach op left right) = g op (f left) (f right) := by
  fun_induction attach op left right with
  | case1 first l r h ih => rw [hbinary, ih, hassoc, hbinary]
  | case2 first l r h => exact hbinary ..
  | case3 left h => exact hbinary ..

theorem eq_combine (hbinary : ∀ op l r, f (binary op l r) = g op (f l) (f r))
    (hassoc : ∀ op op' a b c, g op a (g op' b c) = g op' (g op a b) c) (op : BinaryOp)
    (left right : Expr) : f (combine op left right) = g op (f left) (f right) := by
  fun_induction combine op left right with
  | case1 last l r h ih => rw [eq_attach hbinary hassoc, ih, hbinary, hassoc]
  | case2 last l r h => exact eq_attach hbinary hassoc ..
  | case3 right h => exact eq_attach hbinary hassoc ..

theorem eq_regrouped (hbinary : ∀ op l r, f (binary op l r) = g op (f l) (f r))
    (hassoc : ∀ op op' a b c, g op a (g op' b c) = g op' (g op a b) c)
    (hnested : ∀ e e', f e = f e' → f (nested e) = f (nested e')) (e : Expr) :
    f e.regrouped = f e := by
  induction e with
  | column ref => rfl
  | literal value => rfl
  | binary op left right ihl ihr => rw [regrouped, eq_combine hbinary hassoc, ihl, ihr, hbinary]
  | nested inner ih => exact hnested _ _ ih

end Measures

/-- **Regrouping leaves the text as it is.** -/
theorem text_regrouped (e : Expr) : e.regrouped.text = e.text :=
  eq_regrouped (f := text) (g := fun op l r => l ++ " " ++ op.symbol ++ " " ++ r) (fun _ _ _ => rfl)
    (fun _ _ _ _ _ => by simp only [String.append_assoc])
    (fun _ _ h => congrArg (fun text => "(" ++ text ++ ")") h) e

theorem depth_regrouped (e : Expr) : e.regrouped.depth = e.depth :=
  eq_regrouped (f := depth) (g := fun _ l r => max l r) (fun _ _ _ => rfl)
    (fun _ _ a b c => (Nat.max_assoc a b c).symm) (fun _ _ h => congrArg (· + 1) h) e

theorem columns_regrouped (e : Expr) : e.regrouped.columns = e.columns :=
  eq_regrouped (f := columns) (g := fun _ l r => l ++ r) (fun _ _ _ => rfl)
    (fun _ _ a b c => (List.append_assoc a b c).symm) (fun _ _ h => h) e

section Canonical

variable {op : BinaryOp} {left right : Expr} {s : Nat}

/-- An attachment binds as tightly as the operator or the left operand. -/
theorem lt_strength_attach (hop : s < op.strength) (hleft : ∀ t ∈ left.strength?, s < t) :
    ∀ t ∈ (attach op left right).strength?, s < t := by
  fun_cases attach op left right with
  | case1 first l r h => exact hleft
  | case2 first l r h =>
    rintro t ⟨⟩
    exact hop
  | case3 left h =>
    rintro t ⟨⟩
    exact hop

theorem canonical_attach (hleft : left.Canonical) (hright : right.Canonical)
    (hstrength : ∀ t ∈ right.strength?, op.strength < t) : (attach op left right).Canonical := by
  fun_induction attach op left right with
  | case1 first l r h ih =>
    obtain ⟨hl, hr, hfirst, hlast⟩ := hleft
    exact ⟨hl, ih hr, hfirst, lt_strength_attach h hlast⟩
  | case2 first l r h =>
    refine ⟨hleft, hright, ?_, hstrength⟩
    rintro t ⟨⟩
    exact Nat.le_of_not_lt h
  | case3 left h =>
    refine ⟨hleft, hright, ?_, hstrength⟩
    cases left with
    | binary first l r => exact absurd rfl (h first l r)
    | _ => rintro t ⟨⟩

theorem canonical_combine (hleft : left.Canonical) (hright : right.Canonical) :
    (combine op left right).Canonical := by
  fun_induction combine op left right with
  | case1 last l r h ih =>
    obtain ⟨hl, hr, hfirst, hlast⟩ := hright
    exact canonical_attach (ih hl) hr hlast
  | case2 last l r h =>
    refine canonical_attach hleft hright ?_
    rintro t ⟨⟩
    exact Nat.lt_of_not_le h
  | case3 right h =>
    refine canonical_attach hleft hright ?_
    cases right with
    | binary last l r => exact absurd rfl (h last l r)
    | _ => rintro t ⟨⟩

end Canonical

/-- **Regrouping makes an expression canonical.** -/
theorem canonical_regrouped (e : Expr) : e.regrouped.Canonical := by
  induction e with
  | column ref => trivial
  | literal value => trivial
  | binary op left right ihl ihr => exact canonical_combine ihl ihr
  | nested inner ih => exact ih

theorem combine_of_canonical {op : BinaryOp} {left right : Expr}
    (h : (binary op left right).Canonical) : combine op left right = binary op left right := by
  obtain ⟨-, -, hleft, hright⟩ := h
  have hattach : attach op left right = binary op left right := by
    fun_cases attach op left right with
    | case1 first l r h => exact absurd h (Nat.not_lt_of_le (hleft _ rfl))
    | case2 first l r h => rfl
    | case3 left h => rfl
  fun_cases combine op left right with
  | case1 last l r h => exact absurd (hright _ rfl) (Nat.not_lt_of_le h)
  | case2 last l r h => exact hattach
  | case3 right h => exact hattach

/-- The expressions that stand as they bind are those that regrouping leaves alone. -/
theorem regrouped_eq_iff (e : Expr) : e.regrouped = e ↔ e.Canonical := by
  refine ⟨fun h => h ▸ canonical_regrouped e, fun h => ?_⟩
  induction e with
  | column ref => rfl
  | literal value => rfl
  | binary op left right ihl ihr =>
    rw [regrouped, ihl h.1, ihr h.2.1, combine_of_canonical h]
  | nested inner ih => rw [regrouped, ih h]

end Expr

end FlatQuery
