import FlatQuery.Proofs.Recovery
import FlatQuery.Proofs.Storage
import Mathlib.Algebra.Group.Nat.Defs

set_option autoImplicit false

/-! # Termination

How long the calls on a run take, in any state. A pull is a finite number of steps
(`exists_pullsIn`), and pulling all tuples is a finite number of pulls (`exists_loopsIn`). The
numbers are bounded by two measures of the state: `Plan.stepBounds` for the steps, and
`Plan.tupleBounds` for the tuples that can still be yielded. Both count a join as its left side
times what its right side has after a rewind, plus what is left of the right side for the present
left tuple; so a rewind of the right side in the middle of a pull is paid for by the left tuple that
was taken before. On a tree that was just built the second measure is the product of the sizes of
the leaves (`tupleBounds_start`). -/

namespace FlatQuery

open Plan (StepBounds)

/-! ## Tuples that can still be yielded -/

namespace Step

variable {σ τ : Type}

/-- The number of tuples that a step yields. -/
def yields : Step σ → Nat
  | yield _ _ => 1
  | skip _ => 0
  | done _ => 0
  | fail _ _ => 0

/-- A step from `s` keeps within the bounds of `s`, and lowers the first of them by what it
yields. -/
def Spends (bounds : σ → StepBounds) (s : σ) (o : Step σ) : Prop :=
  (bounds o.state).left + o.yields ≤ (bounds s).left ∧ (bounds o.state).rewound ≤ (bounds s).rewound

/-- Where every step that goes on is counted, those that yield are. -/
theorem Bounded.spends {bounds : σ → StepBounds} {s : σ} {o : Step σ} (h : o.Bounded bounds s) :
    o.Spends bounds s := by
  cases o <;> simp only [Bounded, Spends, state, gain, yields] at h ⊢ <;> omega

theorem spends_filter {bounds : σ → StepBounds} {s : σ} {o : Step σ}
    (test : Tuple → Except Error Bool) (h : o.Spends bounds s) : (o.filter test).Spends bounds s := by
  cases o with
  | yield t s' =>
    simp only [filter]
    split <;> simp only [Spends, state, yields] at h ⊢ <;> omega
  | skip s' => exact h
  | done s' => exact h
  | fail e s' => exact h

theorem spends_transform {bounds : σ → StepBounds} {s : σ} {o : Step σ}
    (f : Tuple → Except Error Tuple) (h : o.Spends bounds s) : (o.transform f).Spends bounds s := by
  cases o with
  | yield t s' =>
    simp only [transform]
    split <;> simp only [Spends, state, yields] at h ⊢ <;> omega
  | skip s' => exact h
  | done s' => exact h
  | fail e s' => exact h

end Step

namespace Plan

/-- The tuples that a sort can still yield when its child can yield `left`. -/
def sortRest (left : Nat) : SortBuffer → Nat
  | .filling read => left + read.length
  | .ready _ rest => rest.length

/-- The tuples that a join can still yield for its present left tuple when its right side can yield
`rightLeft`. -/
def matchRest (rightLeft : Nat) : Option Tuple → Nat
  | none => 0
  | some _ => rightLeft

/-- Bounds on the number of tuples until the rows are over, in the form of `stepBounds`: from the
present state, and from the state after a rewind. -/
def tupleBounds (fs : FileStore) : (p : Plan) → p.State → StepBounds
  | values schema rows, s => (values schema rows).stepBounds fs s
  | scan table qualifier schema path, s => (scan table qualifier schema path).stepBounds fs s
  | select child _, s => child.tupleBounds fs s
  | project child _, s => child.tupleBounds fs s
  | join left right _, s =>
    let l := left.tupleBounds fs s.left
    let r := right.tupleBounds fs s.right
    ⟨l.left * r.rewound + matchRest r.left s.current, l.rewound * r.rewound⟩
  | sort child _ _, s =>
    let c := child.tupleBounds fs s.child
    ⟨sortRest c.left s.buffer, sortRest c.left s.buffer.rewind⟩
  | distinct child, s => child.tupleBounds fs s.child

/-- A rewound run is within the bounds for rewound runs. -/
theorem tupleBounds_rewind (fs : FileStore) (p : Plan) (s : p.State) :
    (p.tupleBounds fs (p.rewind fs s).2).left ≤ (p.tupleBounds fs s).rewound ∧
      (p.tupleBounds fs (p.rewind fs s).2).rewound ≤ (p.tupleBounds fs s).rewound := by
  induction p with
  | values schema rows => exact left_rewind_le fs (values schema rows) s
  | scan table qualifier schema path => exact left_rewind_le fs (scan table qualifier schema path) s
  | select child predicate ih => exact ih s
  | project child positions ih => exact ih s
  | join left right predicate ihl ihr =>
    have hl := ihl s.left
    have hr := ihr s.right
    simp only [rewind]
    split
    · next e l h =>
      rw [h] at hl
      exact ⟨Nat.mul_le_mul_right _ hl.1, Nat.mul_le_mul_right _ hl.2⟩
    · next l h =>
      rw [h] at hl
      exact ⟨Nat.mul_le_mul hl.1 hr.2, Nat.mul_le_mul hl.2 hr.2⟩
  | sort child keys order ih =>
    simp only [rewind, tupleBounds]
    cases s.buffer <;> simp [SortBuffer.rewind]
  | distinct child ih => exact ih s.child

theorem spends_stepJoin {fs : FileStore} {left right : Plan} {predicate : Option Predicate}
    (hl : ∀ s, (left.step fs s).Spends (left.tupleBounds fs) s)
    (hr : ∀ s, (right.step fs s).Spends (right.tupleBounds fs) s)
    (s : JoinState left.State right.State) :
    (stepJoin (left.step fs) (right.step fs) (right.rewind fs) predicate s).Spends
      ((join left right predicate).tupleBounds fs) s := by
  obtain ⟨l, r, current⟩ := s
  cases current with
  | none =>
    have hl := hl l
    simp only [stepJoin]
    split
    · next t l' h =>
      rw [h] at hl
      have hrw := tupleBounds_rewind fs right r
      split <;> next r' hr' =>
        rw [hr'] at hrw
        simp only [Step.Spends, Step.state, Step.yields, tupleBounds, matchRest] at hl hrw ⊢
        -- the left tuple that is taken pays for a whole pass over the rewound right side
        have htaken := Nat.mul_le_mul_right (right.tupleBounds fs r).rewound hl.1
        have hleft := Nat.mul_le_mul_left (left.tupleBounds fs l').left hrw.2
        have hrewound := Nat.mul_le_mul hl.2 hrw.2
        rw [Nat.add_mul] at htaken
        omega
    all_goals
      next l' h =>
      rw [h] at hl
      exact ⟨Nat.mul_le_mul_right _ hl.1, Nat.mul_le_mul_right _ hl.2⟩
  | some t =>
    have hr := hr r
    simp only [stepJoin]
    split
    · next u r' h =>
      rw [h] at hr
      simp only [Step.Spends, Step.state, Step.yields] at hr
      have hleft := Nat.mul_le_mul_left (left.tupleBounds fs l).left hr.2
      have hrewound := Nat.mul_le_mul_left (left.tupleBounds fs l).rewound hr.2
      split <;> simp only [Step.Spends, Step.state, Step.yields, tupleBounds, matchRest] <;> omega
    all_goals
      next r' h =>
      rw [h] at hr
      simp only [Step.Spends, Step.state, Step.yields, tupleBounds, matchRest] at hr ⊢
      have hleft := Nat.mul_le_mul_left (left.tupleBounds fs l).left hr.2
      have hrewound := Nat.mul_le_mul_left (left.tupleBounds fs l).rewound hr.2
      omega

theorem spends_stepSort {fs : FileStore} {child : Plan} {keys : List ColumnRef} {order : List Nat}
    (hc : ∀ s, (child.step fs s).Spends (child.tupleBounds fs) s) (s : SortState child.State) :
    (stepSort (child.step fs) order s).Spends ((sort child keys order).tupleBounds fs) s := by
  obtain ⟨c, buffer⟩ := s
  cases buffer with
  | filling read =>
    have hc := hc c
    simp only [stepSort]
    split <;> next h =>
      rw [h] at hc
      simp only [Step.Spends, Step.state, Step.yields, tupleBounds, sortRest, SortBuffer.rewind,
        length_sortTuples, List.length_reverse, List.length_cons, List.length_nil] at hc ⊢
      omega
  | ready all rest => cases rest <;> exact ⟨Nat.le_refl _, Nat.le_refl _⟩

theorem spends_stepDistinct {fs : FileStore} {child : Plan}
    (hc : ∀ s, (child.step fs s).Spends (child.tupleBounds fs) s) (s : DistinctState child.State) :
    (stepDistinct (child.step fs) s).Spends ((distinct child).tupleBounds fs) s := by
  have hc := hc s.child
  simp only [stepDistinct]
  split
  · next t c h =>
    rw [h] at hc
    split
    · exact ⟨Nat.le_trans (Nat.le_add_right _ 1) hc.1, hc.2⟩
    · exact hc
  all_goals
    next h =>
    rw [h] at hc
    exact hc

/-- A step keeps within the bounds of the state it starts from, and lowers the number of tuples that
can still be yielded if it yields one. -/
theorem spends_step (fs : FileStore) (p : Plan) (s : p.State) :
    (p.step fs s).Spends (p.tupleBounds fs) s := by
  induction p with
  | values schema rows => exact (bounded_step fs (values schema rows) s).spends
  | scan table qualifier schema path =>
    exact (bounded_step fs (scan table qualifier schema path) s).spends
  | select child predicate ih => exact Step.spends_filter _ (ih s)
  | project child positions ih =>
    cases positions with
    | none => exact ih s
    | some positions => exact Step.spends_transform _ (ih s)
  | join left right predicate ihl ihr => exact spends_stepJoin ihl ihr s
  | sort child keys order ih => exact spends_stepSort ih s
  | distinct child ih => exact spends_stepDistinct ih s

theorem spends_of_step {fs : FileStore} {p : Plan} {s : p.State} {o : Step p.State}
    (h : p.step fs s = o) : o.Spends (p.tupleBounds fs) s := by
  rw [← h]
  exact spends_step fs p s

/-! ## Sizes of leaves -/

/-- The sizes of the leaves from left to right: the number of rows of a list, and the number of
lines of a file. A file that cannot be opened has no lines. -/
def leafSizes (fs : FileStore) : Plan → List Nat
  | values _ rows => [rows.length]
  | scan _ _ schema path => [remainingOf (openScan fs schema path)]
  | select child _ => child.leafSizes fs
  | project child _ => child.leafSizes fs
  | join left right _ => left.leafSizes fs ++ right.leafSizes fs
  | sort child _ _ => child.leafSizes fs
  | distinct child => child.leafSizes fs

/-- On a tree that was just built both bounds are the number of ways to choose one row or line from
each leaf. -/
theorem tupleBounds_start (fs : FileStore) (p : Plan) :
    p.tupleBounds fs p.start = ⟨(p.leafSizes fs).prod, (p.leafSizes fs).prod⟩ := by
  induction p with
  | values schema rows => simp [tupleBounds, stepBounds, start, leafSizes]
  | scan table qualifier schema path => simp [tupleBounds, stepBounds, start, leafSizes]
  | select child predicate ih => exact ih
  | project child positions ih => exact ih
  | join left right predicate ihl ihr =>
    simp only [tupleBounds, start, leafSizes, List.prod_append, ihl, ihr, matchRest, Nat.add_zero]
  | sort child keys order ih =>
    simp only [tupleBounds, start, leafSizes, ih, sortRest, SortBuffer.rewind, List.length_nil,
      Nat.add_zero]
  | distinct child ih => exact ih

/-- Before the first step a rewind makes no difference to the number of steps. -/
theorem stepBounds_start (fs : FileStore) (p : Plan) :
    (p.stepBounds fs p.start).rewound = (p.stepBounds fs p.start).left := by
  induction p with
  | values schema rows => rfl
  | scan table qualifier schema path => rfl
  | select child predicate ih => exact ih
  | project child positions ih => exact ih
  | join left right predicate ihl ihr =>
    simp only [stepBounds, start, ihl, matchSteps, Nat.add_zero]
  | sort child keys order ih => rfl
  | distinct child ih => exact ih

/-- When no step raises either bound, and a rewind brings back no more than the second one, the first
stays after any calls below what both are before the first step. -/
theorem left_reached_le {fs : FileStore} {p : Plan} {bounds : p.State → StepBounds} {n : Nat}
    (hstart : (bounds p.start).left ≤ n ∧ (bounds p.start).rewound ≤ n)
    (hstep : ∀ s, (p.step fs s).Spends bounds s)
    (hrewind : ∀ s, (bounds (p.rewind fs s).2).left ≤ (bounds s).rewound ∧
      (bounds (p.rewind fs s).2).rewound ≤ (bounds s).rewound) (calls : List Call) :
    (bounds (p.reached fs calls)).left ≤ n := by
  have hkeeps : (bounds (p.reached fs calls)).left ≤ n ∧
      (bounds (p.reached fs calls)).rewound ≤ n := by
    refine reached_keeps (P := fun s => (bounds s).left ≤ n ∧ (bounds s).rewound ≤ n) hstart ?_ ?_
      calls
    · rintro s ⟨hleft, hrewound⟩
      obtain ⟨hl, hr⟩ := hstep s
      exact ⟨by omega, by omega⟩
    · rintro s ⟨-, hrewound⟩
      obtain ⟨hl, hr⟩ := hrewind s
      exact ⟨by omega, by omega⟩
  exact hkeeps.1

theorem stepBounds_reached (fs : FileStore) (p : Plan) (calls : List Call) :
    (p.stepBounds fs (p.reached fs calls)).left ≤ (p.stepBounds fs p.start).left :=
  left_reached_le ⟨Nat.le_refl _, (stepBounds_start fs p).le⟩
    (fun s => (p.bounded_step fs s).spends) (left_rewind_le fs p) calls

theorem tupleBounds_reached (fs : FileStore) (p : Plan) (calls : List Call) :
    (p.tupleBounds fs (p.reached fs calls)).left ≤ (p.leafSizes fs).prod := by
  refine left_reached_le ?_ (spends_step fs p) (tupleBounds_rewind fs p) calls
  rw [tupleBounds_start]
  exact ⟨Nat.le_refl _, Nat.le_refl _⟩

/-! ## Pulls -/

/-- A pull takes `n` steps, of which all but the last one skip. -/
inductive PullsIn (fs : FileStore) (p : Plan) :
    Nat → p.State → Except Error (Option Tuple) × p.State → Prop
  | yield {s : p.State} {t : Tuple} {s' : p.State} (h : p.step fs s = .yield t s') :
    PullsIn fs p 1 s (.ok (some t), s')
  | done {s s' : p.State} (h : p.step fs s = .done s') : PullsIn fs p 1 s (.ok none, s')
  | fail {s : p.State} {e : Error} {s' : p.State} (h : p.step fs s = .fail e s') :
    PullsIn fs p 1 s (.error e, s')
  | skip {n : Nat} {s s' : p.State} {result : Except Error (Option Tuple) × p.State}
    (h : p.step fs s = .skip s') (rest : PullsIn fs p n s' result) :
    PullsIn fs p (n + 1) s result

/-- A pull ends: each step that skips lowers the number of steps that are left. -/
theorem exists_pullsIn (fs : FileStore) (p : Plan) (s : p.State) :
    ∃ n ≤ (p.stepBounds fs s).left + 1, p.PullsIn fs n s (p.next fs s) := by
  fun_induction p.next fs s with
  | case1 s t s' h => exact ⟨1, Nat.le_add_left 1 _, .yield h⟩
  | case2 s s' h ih =>
    obtain ⟨n, hn, hrest⟩ := ih
    have hlower := (p.bounded_step fs s).1
    rw [h] at hlower
    exact ⟨n + 1, Nat.add_le_add_right (Nat.le_trans hn hlower) 1, .skip h hrest⟩
  | case3 s s' h => exact ⟨1, Nat.le_add_left 1 _, .done h⟩
  | case4 s e s' h => exact ⟨1, Nat.le_add_left 1 _, .fail h⟩

/-- The tuples among some answers. -/
def tuplesOf (answers : List (Except Error (Option Tuple))) : List Tuple :=
  answers.filterMap fun
    | .ok t => t
    | .error _ => none

/-- A pull that yields a tuple lowers the number of tuples that can still be yielded. -/
theorem tupleBounds_next (fs : FileStore) (p : Plan) (s : p.State) :
    (p.tupleBounds fs (p.next fs s).2).left + (tuplesOf [(p.next fs s).1]).length ≤
      (p.tupleBounds fs s).left := by
  fun_induction p.next fs s with
  | case1 s t s' h => exact (spends_of_step h).1
  | case2 s s' h ih => exact Nat.le_trans ih (spends_of_step h).1
  | case3 s s' h => exact (spends_of_step h).1
  | case4 s e s' h => exact (spends_of_step h).1

/-- No number of pulls yields more tuples than the measure says, also when it goes on after
errors. -/
theorem length_tuplesOf_pulls (fs : FileStore) (p : Plan) (n : Nat) (s : p.State) :
    (tuplesOf (p.pulls fs n s)).length ≤ (p.tupleBounds fs s).left := by
  induction n generalizing s with
  | zero => exact Nat.zero_le _
  | succ n ih =>
    have hsplit : tuplesOf (p.pulls fs (n + 1) s) =
        tuplesOf [(p.next fs s).1] ++ tuplesOf (p.pulls fs n (p.next fs s).2) :=
      List.filterMap_append (l := [(p.next fs s).1])
    have hnext := tupleBounds_next fs p s
    have hrest := ih (p.next fs s).2
    rw [hsplit, List.length_append]
    omega

/-! ## Loops over pulls -/

/-- A loop that hands the tuples of `n` pulls to `f`, until a pull yields none or fails, or `f`
refuses a tuple. -/
inductive LoopsIn {α : Type} (fs : FileStore) (p : Plan) (f : α → Tuple → Except Error Unit × α) :
    Nat → α → p.State → Except Error Unit × α × p.State → Prop
  | done {a : α} {s s' : p.State} (h : p.next fs s = (.ok none, s')) :
    LoopsIn fs p f 1 a s (.ok (), a, s')
  | fail {a : α} {s : p.State} {e : Error} {s' : p.State} (h : p.next fs s = (.error e, s')) :
    LoopsIn fs p f 1 a s (.error e, a, s')
  | refused {a : α} {s : p.State} {t : Tuple} {s' : p.State} {e : Error} {a' : α}
    (h : p.next fs s = (.ok (some t), s')) (hf : f a t = (.error e, a')) :
    LoopsIn fs p f 1 a s (.error e, a', s')
  | more {n : Nat} {a : α} {s : p.State} {t : Tuple} {s' : p.State} {a' : α}
    {result : Except Error Unit × α × p.State} (h : p.next fs s = (.ok (some t), s'))
    (hf : f a t = (.ok (), a')) (rest : LoopsIn fs p f n a' s' result) :
    LoopsIn fs p f (n + 1) a s result

/-- A loop sees of a state only what is pulled from it. -/
theorem LoopsIn.of_next_eq {α : Type} {fs : FileStore} {p : Plan}
    {f : α → Tuple → Except Error Unit × α} {n : Nat} {a : α} {s s' : p.State}
    {result : Except Error Unit × α × p.State} (heq : p.next fs s = p.next fs s')
    (h : p.LoopsIn fs f n a s' result) : p.LoopsIn fs f n a s result := by
  cases h with
  | done h => exact .done (heq.trans h)
  | fail h => exact .fail (heq.trans h)
  | refused h hf => exact .refused (heq.trans h) hf
  | more h hf rest => exact .more (heq.trans h) hf rest

/-- A loop ends: all pulls but the last one yield a tuple. -/
theorem exists_loopsIn {α : Type} (fs : FileStore) (p : Plan)
    (f : α → Tuple → Except Error Unit × α) (a : α) (s : p.State) :
    ∃ n ≤ (p.tupleBounds fs s).left + 1, p.LoopsIn fs f n a s (p.fold fs f a s) := by
  fun_induction p.fold fs f a s with
  | case1 a s t s' h a' hf ih =>
    obtain ⟨n, hn, hrest⟩ := ih
    have hnext : p.next fs s = (.ok (some t), s') := by rw [next_eq, h]
    have hbound : n ≤ (p.tupleBounds fs s).left := Nat.le_trans hn (spends_of_step h).1
    exact ⟨n + 1, Nat.add_le_add_right hbound 1, .more hnext hf hrest⟩
  | case2 a s t s' h e a' hf =>
    have hnext : p.next fs s = (.ok (some t), s') := by rw [next_eq, h]
    exact ⟨1, Nat.le_add_left 1 _, .refused hnext hf⟩
  | case3 a s s' h ih =>
    obtain ⟨n, hn, hrest⟩ := ih
    -- the loop has not pulled yet: its first pull is the one from the state behind the skip
    have hnext : p.next fs s = p.next fs s' := by rw [next_eq, h]
    have hbound : (p.tupleBounds fs s').left ≤ (p.tupleBounds fs s).left := (spends_of_step h).1
    exact ⟨n, Nat.le_trans hn (Nat.add_le_add_right hbound 1), hrest.of_next_eq hnext⟩
  | case4 a s s' h =>
    have hnext : p.next fs s = (.ok none, s') := by rw [next_eq, h]
    exact ⟨1, Nat.le_add_left 1 _, .done hnext⟩
  | case5 a s e s' h =>
    have hnext : p.next fs s = (.error e, s') := by rw [next_eq, h]
    exact ⟨1, Nat.le_add_left 1 _, .fail hnext⟩

/-- A drain of `n` pulls, which keeps the tuples of a loop that ends well. -/
def CollectsIn (fs : FileStore) (p : Plan) (n : Nat) (s : p.State)
    (result : Except Error (List Tuple) × p.State) : Prop :=
  ∃ outcome read s',
    p.LoopsIn fs (fun read t => (.ok (), t :: read)) n ([] : List Tuple) s (outcome, read, s') ∧
      result = (outcome.map fun _ => read.reverse, s')

/-- A dump of `n` pulls to the sink `k`, which is flushed after a loop that ends well. -/
def DumpsIn (fs : FileStore) (p : Plan) (k : Sink) (n : Nat) (s : p.State)
    (result : Except Error Nat × Sink × p.State) : Prop :=
  ∃ outcome lines k' s', p.LoopsIn fs Sink.count n (0, k) s (outcome, (lines, k'), s') ∧
    result = (outcome.bind fun _ => k'.flush.map fun _ => lines, k', s')

/-- Whether the calls on a state return: a pull after at most `steps` steps, a drain and a dump, to
whatever sink, after at most `pulls` pulls. -/
structure Returns (fs : FileStore) (p : Plan) (s : p.State) (steps pulls : Nat) : Prop where
  next : ∃ n ≤ steps, p.PullsIn fs n s (p.next fs s)
  collect : ∃ n ≤ pulls, p.CollectsIn fs n s (p.collect fs s)
  dump : ∀ k, ∃ n ≤ pulls, p.DumpsIn fs k n s (p.dump fs k s)

theorem returns_of_le {fs : FileStore} {p : Plan} {s : p.State} {steps tuples : Nat}
    (hsteps : (p.stepBounds fs s).left ≤ steps) (htuples : (p.tupleBounds fs s).left ≤ tuples) :
    p.Returns fs s (steps + 1) (tuples + 1) where
  next := by
    obtain ⟨n, hn, hpull⟩ := exists_pullsIn fs p s
    exact ⟨n, by omega, hpull⟩
  collect := by
    obtain ⟨n, hn, hloop⟩ := exists_loopsIn fs p (fun read t => (.ok (), t :: read)) [] s
    exact ⟨n, by omega, _, _, _, hloop, rfl⟩
  dump k := by
    obtain ⟨n, hn, hloop⟩ := exists_loopsIn fs p Sink.count (0, k) s
    rcases hrun : p.fold fs Sink.count (0, k) s with ⟨outcome, ⟨lines, k'⟩, s'⟩
    rw [hrun] at hloop
    refine ⟨n, by omega, outcome, lines, k', s', hloop, ?_⟩
    rw [dump_eq, hrun]
    cases outcome <;> rfl

/-- **Pulls and drains terminate.** The calls on any state return, whatever files there were when it
was reached. After any calls on a tree that was just built, failed ones among them, they return
within bounds that the tree and its files alone determine: a pull within the steps counted before the
first step, a drain and a dump within one pull more than the product of the sizes of the leaves. No
number of pulls on a tree that was just built yields more tuples than that product. -/
theorem calls_return (fs : FileStore) (p : Plan) :
    (∀ s, p.Returns fs s ((p.stepBounds fs s).left + 1) ((p.tupleBounds fs s).left + 1)) ∧
      (∀ calls, p.Returns fs (p.reached fs calls) ((p.stepBounds fs p.start).left + 1)
        ((p.leafSizes fs).prod + 1)) ∧
      ∀ n, (tuplesOf (p.pulls fs n p.start)).length ≤ (p.leafSizes fs).prod := by
  refine ⟨fun s => returns_of_le (Nat.le_refl _) (Nat.le_refl _), ?_, ?_⟩
  · intro calls
    exact returns_of_le (stepBounds_reached fs p calls) (tupleBounds_reached fs p calls)
  · intro n
    have hpulls := length_tuplesOf_pulls fs p n p.start
    rwa [tupleBounds_start] at hpulls

end Plan

end FlatQuery
