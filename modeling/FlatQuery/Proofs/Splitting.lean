import FlatQuery.Proofs.Resolution
import FlatQuery.Proofs.ShortCircuit

set_option autoImplicit false

/-! # Splitting and refolding

A condition that is taken apart into its conjuncts and put together again is another tree: its ANDs
are nested to the left and the parentheses around them are gone. What is left of either tree when it
is bound is the list of its comparisons (`bind_comparisons`), and evaluation looks at nothing else
(`eval_eq_conjoin`, `carriedOut_eq_upToFalse`). The main result is `conjuncts_refolded`. -/

namespace FlatQuery

/-! ## Conjuncts -/

namespace Expr

variable {e : Expr}

theorem conjuncts_ne_nil (e : Expr) : e.conjuncts ≠ [] := by
  induction e with
  | column ref => simp [conjuncts]
  | literal value => simp [conjuncts]
  | binary op left right ihl ihr =>
    cases op with
    | and => exact List.append_ne_nil_of_left_ne_nil ihl _
    | compare op => simp [conjuncts]
    | arithmetic op => simp [conjuncts]
  | nested inner ih =>
    unfold conjuncts
    split
    · exact ih
    · simp

/-- A conjunction is an AND under any number of parentheses. -/
theorem isConjunction_iff : e.isConjunction ↔ ∃ n left right, e = nested^[n] (and left right) := by
  constructor
  · intro h
    induction e with
    | column ref => cases h
    | literal value => cases h
    | binary op left right _ _ =>
      cases op with
      | and => exact ⟨0, left, right, rfl⟩
      | compare op => cases h
      | arithmetic op => cases h
    | nested inner ih =>
      obtain ⟨n, left, right, rfl⟩ := ih h
      exact ⟨n + 1, left, right, (Function.iterate_succ_apply' nested n _).symm⟩
  · rintro ⟨n, left, right, rfl⟩
    induction n with
    | zero => rfl
    | succ n ih =>
      rw [Function.iterate_succ_apply']
      exact ih

theorem conjuncts_of_not_isConjunction (h : e.isConjunction = false) : e.conjuncts = [e] := by
  cases e with
  | column ref => rfl
  | literal value => rfl
  | binary op left right =>
    cases op with
    | and => cases h
    | compare op => rfl
    | arithmetic op => rfl
  | nested inner =>
    have hinner : ¬ inner.isConjunction := Bool.eq_false_iff.1 h
    rw [conjuncts, if_neg hinner]

/-- What was split is not split any further. -/
theorem flatMap_conjuncts (e : Expr) : e.conjuncts.flatMap conjuncts = e.conjuncts := by
  have hsingle : e.conjuncts.flatMap conjuncts = e.conjuncts.flatMap ([·]) :=
    List.flatMap_congr fun c hc =>
      conjuncts_of_not_isConjunction (isConjunction_of_mem_conjuncts hc)
  rw [hsingle, List.flatMap_singleton']

end Expr

/-! ## Comparisons -/

namespace BoundPredicate

/-- The comparisons of a predicate, from left to right. -/
def comparisons : BoundPredicate → List BoundPredicate
  | .compare op left right => [.compare op left right]
  | .and left right => left.comparisons ++ right.comparisons

/-- The comparisons that the evaluation for a tuple carries out, from left to right. The right side
of an AND has its turn only if the left side is true. -/
def carriedOut (t : Tuple) : BoundPredicate → List BoundPredicate
  | .compare op left right => [.compare op left right]
  | .and left right =>
    left.carriedOut t ++ if left.eval t = .ok true then right.carriedOut t else []

/-- The predicates up to the first that is not true, and that one. -/
def upToFalse (t : Tuple) : List BoundPredicate → List BoundPredicate
  | [] => []
  | b :: bs => b :: if b.eval t = .ok true then upToFalse t bs else []

variable {b : BoundPredicate} {t : Tuple}

/-- An evaluation looks at the comparisons one after the other, up to the first that is not true. -/
theorem eval_eq_conjoin (b : BoundPredicate) (t : Tuple) :
    b.eval t = conjoin (b.comparisons.map (eval t)) := by
  induction b with
  | compare op left right => exact (conjoin_singleton _).symm
  | and left right ihl ihr =>
    rw [comparisons, List.map_append, conjoin_append, ← ihl, ← ihr]
    rfl

theorem upToFalse_append (t : Tuple) (bs bs' : List BoundPredicate) :
    upToFalse t (bs ++ bs') =
      upToFalse t bs ++ if conjoin (bs.map (eval t)) = .ok true then upToFalse t bs' else [] := by
  induction bs with
  | nil => simp [upToFalse, conjoin]
  | cons b bs ih =>
    rw [List.cons_append, upToFalse, upToFalse, ih, List.map_cons, conjoin]
    by_cases hb : b.eval t = .ok true
    · rw [if_pos hb, if_pos hb, hb]
      rfl
    · rw [if_neg hb, if_neg hb, if_neg, List.append_nil]
      -- the first predicate decides, and it does not say true
      rcases h : b.eval t with _ | _ | _
      · intro hconj
        cases hconj
      · intro hconj
        cases hconj
      · exact absurd h hb

/-- Which comparisons are carried out can be told from the list of all of them. -/
theorem carriedOut_eq_upToFalse (b : BoundPredicate) (t : Tuple) :
    b.carriedOut t = upToFalse t b.comparisons := by
  induction b with
  | compare op left right =>
    rw [carriedOut, comparisons, upToFalse, upToFalse, ite_self]
  | and left right ihl ihr =>
    rw [carriedOut, comparisons, upToFalse_append, ihl, ihr, ← eval_eq_conjoin]

theorem map_flatten_append {α : Type} (x y : Except Error (List (List α))) :
    (do return (← x) ++ (← y)).map List.flatten =
      (do return (← x.map List.flatten) ++ (← y.map List.flatten)) := by
  cases x with
  | error err => rfl
  | ok xs =>
    cases y with
    | error err => rfl
    | ok ys => exact congrArg Except.ok List.flatten_append

theorem bind_and_comparisons (s : Schema) (left right : Expr) :
    (bind s (left.and right)).map comparisons =
      (do return (← (bind s left).map comparisons) ++ (← (bind s right).map comparisons)) := by
  rw [bind]
  cases bind s left with
  | error err => rfl
  | ok b => cases bind s right <;> rfl

/-- **The comparisons of a condition are those of its conjuncts.** It does not bind if one of these
does not, for the reason that the first of them has. -/
theorem bind_comparisons (s : Schema) (e : Expr) :
    (bind s e).map comparisons =
      (e.conjuncts.mapM fun c => (bind s c).map comparisons).map List.flatten := by
  have hsingle : ∀ c : Expr, (bind s c).map comparisons =
      ([c].mapM fun c => (bind s c).map comparisons).map List.flatten := by
    intro c
    rw [List.mapM_cons, List.mapM_nil]
    cases bind s c with
    | error err => rfl
    | ok b => exact congrArg Except.ok (List.append_nil _).symm
  induction e with
  | column ref => exact hsingle _
  | literal value => exact hsingle _
  | nested inner ih =>
    rw [Expr.conjuncts]
    split
    · exact ih
    · exact hsingle _
  | binary op left right ihl ihr =>
    cases op with
    | compare op => exact hsingle _
    | arithmetic op => exact hsingle _
    | and =>
      rw [Expr.conjuncts, bind_and_comparisons, ihl, ihr, List.mapM_append, map_flatten_append]

end BoundPredicate

/-- **Splitting and refolding changes nothing.** A condition has at least one conjunct, no conjunct
is an AND under any number of parentheses, and the columns of the conjuncts in a row are those of
the condition. The conjunction of the conjuncts has the same conjuncts again. Bound to a schema, it
and the condition fail with the same error or consist of the same comparisons in the same order;
then they have the same truth value or the same error for each tuple, and carry out the same
comparisons for it. -/
theorem conjuncts_refolded (e : Expr) :
    e.conjuncts ≠ [] ∧
      (∀ c ∈ e.conjuncts, ∀ n left right, c ≠ Expr.nested^[n] (Expr.and left right)) ∧
      e.conjuncts.flatMap Expr.columns = e.columns ∧
      ∃ p, Expr.conjunction e.conjuncts = some p ∧ p.conjuncts = e.conjuncts ∧
        ∀ s, Alike
          (fun b b' => b.comparisons = b'.comparisons ∧
            ∀ t, b.eval t = b'.eval t ∧ b.carriedOut t = b'.carriedOut t)
          (BoundPredicate.bind s p) (BoundPredicate.bind s e) := by
  refine ⟨e.conjuncts_ne_nil, ?_, e.columns_conjuncts, ?_⟩
  · rintro c hc n left right rfl
    have hand := Expr.isConjunction_iff.2 ⟨n, left, right, rfl⟩
    rw [Expr.isConjunction_of_mem_conjuncts hc] at hand
    cases hand
  · obtain ⟨c, cs, hcs⟩ := List.exists_cons_of_ne_nil e.conjuncts_ne_nil
    have hfold : Expr.conjunction e.conjuncts = some (cs.foldl Expr.and c) := by rw [hcs]; rfl
    have hconjuncts : (cs.foldl Expr.and c).conjuncts = e.conjuncts := by
      rw [Expr.conjuncts_conjunction hfold, e.flatMap_conjuncts]
    refine ⟨_, hfold, hconjuncts, fun s => ?_⟩
    have hsame : (BoundPredicate.bind s (cs.foldl Expr.and c)).map BoundPredicate.comparisons =
        (BoundPredicate.bind s e).map BoundPredicate.comparisons := by
      rw [BoundPredicate.bind_comparisons, hconjuncts, ← BoundPredicate.bind_comparisons]
    generalize BoundPredicate.bind s (cs.foldl Expr.and c) = x at hsame ⊢
    generalize BoundPredicate.bind s e = y at hsame ⊢
    cases x with
    | error err =>
      cases y with
      | error err' => exact Except.error.inj hsame
      | ok b => cases hsame
    | ok b =>
      cases y with
      | error err => cases hsame
      | ok b' =>
        have hbs : b.comparisons = b'.comparisons := Except.ok.inj hsame
        refine ⟨hbs, fun t => ⟨?_, ?_⟩⟩
        · rw [b.eval_eq_conjoin, b'.eval_eq_conjoin, hbs]
        · rw [b.carriedOut_eq_upToFalse, b'.carriedOut_eq_upToFalse, hbs]

end FlatQuery
