import FlatQuery.Plan.State

set_option autoImplicit false

/-! # Progress of runs

Every step that yields or skips lowers the bound on the steps that are left (`bounded_step`), and a
rewind never raises it above the bound for a rewound run (`left_rewind_le`). So a run ends, and the
functions that loop over its steps are total. -/

namespace FlatQuery

open Plan (StepBounds)

namespace Step

variable {σ τ : Type}

/-- The state after a step. -/
def state : Step σ → σ
  | yield _ s => s
  | skip s => s
  | done s => s
  | fail _ s => s

/-- How much nearer a step brings the end: by one if it yields or skips. -/
def gain : Step σ → Nat
  | yield _ _ => 1
  | skip _ => 1
  | done _ => 0
  | fail _ _ => 0

/-- A step from `s` keeps within the bounds of `s`, and lowers the first of them if it goes on. -/
def Bounded (bounds : σ → StepBounds) (s : σ) (o : Step σ) : Prop :=
  (bounds o.state).left + o.gain ≤ (bounds s).left ∧ (bounds o.state).rewound ≤ (bounds s).rewound

theorem bounded_filter {bounds : σ → StepBounds} {s : σ} {o : Step σ}
    (test : Tuple → Except Error Bool) (h : o.Bounded bounds s) :
    (o.filter test).Bounded bounds s := by
  cases o with
  | yield t s' =>
    simp only [filter]
    split <;> simp only [Bounded, state, gain] at h ⊢ <;> omega
  | skip s' => exact h
  | done s' => exact h
  | fail e s' => exact h

theorem bounded_transform {bounds : σ → StepBounds} {s : σ} {o : Step σ}
    (f : Tuple → Except Error Tuple) (h : o.Bounded bounds s) :
    (o.transform f).Bounded bounds s := by
  cases o with
  | yield t s' =>
    simp only [transform]
    split <;> simp only [Bounded, state, gain] at h ⊢ <;> omega
  | skip s' => exact h
  | done s' => exact h
  | fail e s' => exact h

theorem state_map (f : σ → τ) (o : Step σ) : (o.map f).state = f o.state := by
  cases o <;> rfl

theorem gain_map (f : σ → τ) (o : Step σ) : (o.map f).gain = o.gain := by
  cases o <;> rfl

end Step

/-! ## Readers and lists -/

theorem Reader.remaining_step (r : Reader) : r.step.state.remaining + r.step.gain ≤ r.remaining := by
  rw [Reader.step]
  split
  · next t r' h => exact Reader.remaining_next_lt h
  · next r' h => simp [Step.state, Step.gain, Reader.next_eq_of_none h]
  · next e r' h =>
    simp only [Step.state, Step.gain]
    have := Reader.remaining_next_le r
    rw [h] at this
    exact this

theorem length_stepRows (rows : List Tuple) :
    (stepRows rows).state.length + (stepRows rows).gain ≤ rows.length := by
  cases rows <;> simp [stepRows, Step.state, Step.gain]

namespace Plan

/-! ## Rewinding -/

/-- A rewound run is within the bounds for rewound runs. -/
theorem left_rewind_le (fs : FileStore) (p : Plan) (s : p.State) :
    (p.stepBounds fs (p.rewind fs s).2).left ≤ (p.stepBounds fs s).rewound ∧
      (p.stepBounds fs (p.rewind fs s).2).rewound ≤ (p.stepBounds fs s).rewound := by
  induction p with
  | values schema rows => simp [rewind, stepBounds]
  | scan table qualifier schema path =>
    simp only [rewind]
    split <;> next h => simp [stepBounds, h, remainingOf]
  | select child predicate ih => exact ih s
  | project child positions ih => exact ih s
  | join left right predicate ihl ihr =>
    have hl := ihl s.left
    have hr := ihr s.right
    simp only [rewind]
    split
    · next e l h =>
      rw [h] at hl
      simp only [stepBounds, matchSteps] at hl ⊢
      exact ⟨Nat.mul_le_mul_right _ hl.1, Nat.mul_le_mul_right _ hl.2⟩
    · next l h =>
      rw [h] at hl
      simp only [stepBounds, matchSteps] at hl hr ⊢
      exact ⟨Nat.mul_le_mul hl.1 (by omega), Nat.mul_le_mul hl.2 (by omega)⟩
  | sort child keys order ih =>
    simp only [rewind, stepBounds]
    cases s.buffer <;> simp [SortBuffer.rewind]
  | distinct child ih => exact ih s.child

/-! ## Steps -/

theorem bounded_stepScan {fs : FileStore} {schema : Schema} {path : String}
    (table qualifier : String) (s : Option Reader) :
    (stepScan (openScan fs schema path) s).Bounded
      ((scan table qualifier schema path).stepBounds fs) s := by
  cases s with
  | some r =>
    have := r.remaining_step
    simp only [stepScan, Step.Bounded, Step.state_map, Step.gain_map, stepBounds]
    omega
  | none =>
    simp only [stepScan]
    split
    · next r h =>
      have := r.remaining_step
      simp only [Step.Bounded, Step.state_map, Step.gain_map, stepBounds, h, remainingOf]
      omega
    · next e h => simp [Step.Bounded, Step.state, Step.gain, stepBounds]

theorem bounded_stepJoin {fs : FileStore} {left right : Plan} {predicate : Option Predicate}
    (hl : ∀ s, (left.step fs s).Bounded (left.stepBounds fs) s)
    (hr : ∀ s, (right.step fs s).Bounded (right.stepBounds fs) s)
    (s : JoinState left.State right.State) :
    (stepJoin (left.step fs) (right.step fs) (right.rewind fs) predicate s).Bounded
      ((join left right predicate).stepBounds fs) s := by
  obtain ⟨l, r, current⟩ := s
  cases current with
  | none =>
    have hl := hl l
    simp only [stepJoin]
    split
    · next t l' h =>
      rw [h] at hl
      have hrw := left_rewind_le fs right r
      split <;> next r' hr' =>
        rw [hr'] at hrw
        simp only [Step.Bounded, Step.state, Step.gain, stepBounds, matchSteps] at hl hrw ⊢
        have h1 := Nat.mul_le_mul hl.1 (Nat.add_le_add_right hrw.2 2)
        have h2 := Nat.mul_le_mul hl.2 (Nat.add_le_add_right hrw.2 2)
        have h3 := Nat.mul_le_mul hl.1 (Nat.le_refl ((right.stepBounds fs r).rewound + 2))
        have h4 := Nat.mul_le_mul_left (left.stepBounds fs l').left (Nat.add_le_add_right hrw.2 2)
        rw [Nat.add_mul] at h1 h3
        omega
    all_goals
      next l' h =>
      rw [h] at hl
      simp only [Step.Bounded, Step.state, Step.gain, stepBounds, matchSteps] at hl ⊢
      have h1 := Nat.mul_le_mul_right ((right.stepBounds fs r).rewound + 2) hl.1
      have h2 := Nat.mul_le_mul_right ((right.stepBounds fs r).rewound + 2) hl.2
      rw [Nat.add_mul] at h1
      omega
  | some t =>
    have hr := hr r
    simp only [stepJoin]
    split
    · next u r' h =>
      rw [h] at hr
      simp only [Step.Bounded, Step.state, Step.gain] at hr
      have h1 := Nat.mul_le_mul_left (left.stepBounds fs l).left (Nat.add_le_add_right hr.2 2)
      have h2 := Nat.mul_le_mul_left (left.stepBounds fs l).rewound (Nat.add_le_add_right hr.2 2)
      split <;> simp only [Step.Bounded, Step.state, Step.gain, stepBounds, matchSteps] <;> omega
    all_goals
      next r' h =>
      rw [h] at hr
      simp only [Step.Bounded, Step.state, Step.gain, stepBounds, matchSteps] at hr ⊢
      have h1 := Nat.mul_le_mul_left (left.stepBounds fs l).left (Nat.add_le_add_right hr.2 2)
      have h2 := Nat.mul_le_mul_left (left.stepBounds fs l).rewound (Nat.add_le_add_right hr.2 2)
      omega

theorem length_sortTuples (order : List Nat) (ts : List Tuple) :
    (sortTuples order ts).length = ts.length := by
  simp [sortTuples]

theorem bounded_stepSort {fs : FileStore} {child : Plan} {keys : List ColumnRef} {order : List Nat}
    (hc : ∀ s, (child.step fs s).Bounded (child.stepBounds fs) s) (s : SortState child.State) :
    (stepSort (child.step fs) order s).Bounded ((sort child keys order).stepBounds fs) s := by
  obtain ⟨c, buffer⟩ := s
  cases buffer with
  | filling read =>
    have hc := hc c
    simp only [stepSort]
    split <;> next h =>
      rw [h] at hc
      simp only [Step.Bounded, Step.state, Step.gain, stepBounds, sortSteps, SortBuffer.rewind,
        length_sortTuples, List.length_reverse, List.length_cons, List.length_nil] at hc ⊢
      omega
  | ready all rest =>
    have := length_stepRows rest
    simp only [stepSort, Step.Bounded, Step.state_map, Step.gain_map, stepBounds, sortSteps,
      SortBuffer.rewind]
    omega

theorem bounded_stepDistinct {fs : FileStore} {child : Plan}
    (hc : ∀ s, (child.step fs s).Bounded (child.stepBounds fs) s) (s : DistinctState child.State) :
    (stepDistinct (child.step fs) s).Bounded ((distinct child).stepBounds fs) s := by
  have hc := hc s.child
  simp only [stepDistinct]
  split
  · next t c h =>
    rw [h] at hc
    split <;> exact hc
  all_goals
    next h =>
    rw [h] at hc
    exact hc

/-- A step keeps within the bounds of the state it starts from, and lowers the number of steps that
are left if it goes on. -/
theorem bounded_step (fs : FileStore) (p : Plan) (s : p.State) :
    (p.step fs s).Bounded (p.stepBounds fs) s := by
  induction p with
  | values schema rows =>
    have := length_stepRows s
    exact ⟨this, Nat.le_refl _⟩
  | scan table qualifier schema path =>
    exact bounded_stepScan table qualifier s
  | select child predicate ih => exact Step.bounded_filter _ (ih s)
  | project child positions ih =>
    cases positions with
    | none => exact ih s
    | some positions => exact Step.bounded_transform _ (ih s)
  | join left right predicate ihl ihr => exact bounded_stepJoin ihl ihr s
  | sort child keys order ih => exact bounded_stepSort ih s
  | distinct child ih => exact bounded_stepDistinct ih s

end Plan

end FlatQuery
