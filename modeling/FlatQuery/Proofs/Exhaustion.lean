import FlatQuery.Proofs.Dumping
import FlatQuery.Proofs.Recovery
import Mathlib.Logic.Relation

set_option autoImplicit false

/-! # Exhaustion

A run whose rows are over stays so until it is rewound. `Plan.Spent` says of a state that its rows
are over, one operator after the other: a step that finds the end leaves such a state
(`spent_of_done`), and from there every step finds the end and changes nothing, whatever files there
are (`step_of_spent`). The main result is `stays_exhausted`.

A file that is open is read as it is at each step, so lines that are added to it after its end was
found are still read. The end of a run rests on one open file at most, its driver. Others may write
into all of its open files as long as they add nothing to that one (`spent_of_edited`), and
`exhausted_iff_driver` says that nothing else can end the end of a run. -/

namespace FlatQuery

/-! ## Spent states -/

/-- Whether all lines of a file have been read. A directory has no end. -/
def Reader.Spent (r : Reader) : Prop := r.source = .lines []

theorem Reader.step_of_spent {r : Reader} (h : r.Spent) : r.step = .done r := by
  rw [Reader.step, Reader.next, h]
  rfl

/-- A read that finds the end leaves the reader at the end. -/
theorem Reader.spent_of_done {r r' : Reader} (h : r.step = .done r') : r'.Spent := by
  obtain ⟨path, source, lineNo, arity⟩ := r
  unfold Reader.step Reader.next at h
  match source with
  | .lines [] =>
    cases h
    rfl
  | .lines (line :: pending) =>
    simp only [LineSource.next] at h
    cases hline : decode path arity (lineNo + 1) (decodeLine line) <;>
      simp [hline, Except.map] at h
  | .directory => simp [LineSource.next, decode, Except.map] at h

/-- Whether a reader is another one after its file was edited in place: what is still to be read of
it may have become anything. -/
def Reader.Edited (r r' : Reader) : Prop := ∃ source, r' = { r with source }

theorem Step.done_of_map {σ τ : Type} {f : σ → τ} {o : Step σ} {s' : τ} (h : o.map f = .done s') :
    ∃ s, o = .done s ∧ f s = s' := by
  cases o with
  | done s => exact ⟨s, rfl, by cases h; rfl⟩
  | yield t s => cases h
  | skip s => cases h
  | fail e s => cases h

theorem Step.done_of_filter {σ : Type} {test : Tuple → Except Error Bool} {o : Step σ} {s : σ}
    (h : o.filter test = .done s) : o = .done s := by
  cases o with
  | yield t s' =>
    simp only [filter] at h
    split at h <;> cases h
  | skip s' => cases h
  | done s' => exact h
  | fail e s' => cases h

theorem Step.done_of_transform {σ : Type} {f : Tuple → Except Error Tuple} {o : Step σ} {s : σ}
    (h : o.transform f = .done s) : o = .done s := by
  cases o with
  | yield t s' =>
    simp only [transform] at h
    split at h <;> cases h
  | skip s' => cases h
  | done s' => exact h
  | fail e s' => cases h

namespace Plan

variable {fs : FileStore} {p : Plan}

/-- Whether the rows of a run are over. A join is through with its last left tuple, and a sort with
its buffer; neither the right side of the one nor the child of the other matters any more. -/
def Spent : (p : Plan) → p.State → Prop
  | values _ _, s => s = []
  | scan _ _ _ _, s => ∃ r : Reader, s = some r ∧ r.Spent
  | select child _, s => child.Spent s
  | project child _, s => child.Spent s
  | join left _ _, s => left.Spent s.left ∧ s.current = none
  | sort _ _ _, s => ∃ all, s.buffer = .ready all []
  | distinct child, s => child.Spent s.child

/-! ## Steps -/

theorem spent_of_done_stepScan {openReader : Except Error Reader} {s s' : Option Reader}
    (h : stepScan openReader s = .done s') : ∃ r, s' = some r ∧ r.Spent := by
  have hread (r : Reader) (h : r.step.map some = .done s') : ∃ r, s' = some r ∧ r.Spent := by
    obtain ⟨r', hr', rfl⟩ := Step.done_of_map h
    exact ⟨r', rfl, Reader.spent_of_done hr'⟩
  cases s with
  | some r => exact hread r h
  | none =>
    simp only [stepScan] at h
    split at h
    · exact hread _ h
    · cases h

theorem spent_of_done_stepJoin {left right : Plan} {predicate : Option Predicate}
    (hl : ∀ l l', left.step fs l = .done l' → left.Spent l')
    {s s' : JoinState left.State right.State}
    (h : stepJoin (left.step fs) (right.step fs) (right.rewind fs) predicate s = .done s') :
    (join left right predicate).Spent s' := by
  obtain ⟨l, r, current⟩ := s
  cases current with
  | none =>
    simp only [stepJoin] at h
    split at h
    · split at h <;> cases h
    · cases h
    · next l' hstep =>
      cases h
      exact ⟨hl l l' hstep, rfl⟩
    · cases h
  | some t =>
    -- the end of the right side only ends the matches of one left tuple
    simp only [stepJoin] at h
    split at h
    · split at h <;> cases h
    all_goals cases h

theorem spent_of_done_stepSort {child : Plan} {keys : List ColumnRef} {order : List Nat}
    {s s' : SortState child.State} (h : stepSort (child.step fs) order s = .done s') :
    (sort child keys order).Spent s' := by
  obtain ⟨c, buffer⟩ := s
  cases buffer with
  | filling read =>
    simp only [stepSort] at h
    split at h <;> cases h
  | ready all rest =>
    cases rest with
    | nil =>
      cases h
      exact ⟨all, rfl⟩
    | cons t rest => cases h

theorem spent_of_done_stepDistinct {child : Plan}
    (hc : ∀ c c', child.step fs c = .done c' → child.Spent c') {s s' : DistinctState child.State}
    (h : stepDistinct (child.step fs) s = .done s') : (distinct child).Spent s' := by
  simp only [stepDistinct] at h
  split at h
  · split at h <;> cases h
  · cases h
  · next c hstep =>
    cases h
    exact hc s.child c hstep
  · cases h

/-- A step that finds the end leaves a spent state. -/
theorem spent_of_done {s s' : p.State} (h : p.step fs s = .done s') : p.Spent s' := by
  induction p with
  | values schema rows =>
    cases s with
    | nil =>
      cases h
      rfl
    | cons t rest => cases h
  | scan table qualifier schema path => exact spent_of_done_stepScan h
  | select child predicate ih => exact ih (Step.done_of_filter h)
  | project child positions ih =>
    cases positions with
    | none => exact ih h
    | some positions => exact ih (Step.done_of_transform h)
  | join left right predicate ihl ihr => exact spent_of_done_stepJoin (fun _ _ => ihl) h
  | sort child keys order ih => exact spent_of_done_stepSort h
  | distinct child ih => exact spent_of_done_stepDistinct (fun _ _ => ih) h

/-- From a spent state every step finds the end and changes nothing. No file is opened for it. -/
theorem step_of_spent (fs : FileStore) {s : p.State} (h : p.Spent s) : p.step fs s = .done s := by
  induction p with
  | values schema rows =>
    obtain rfl : s = [] := h
    rfl
  | scan table qualifier schema path =>
    obtain ⟨r, rfl, hr⟩ := h
    simp only [step, stepScan, Reader.step_of_spent hr, Step.map]
  | select child predicate ih => simp only [step, ih h, Step.filter]
  | project child positions ih =>
    cases positions with
    | none => exact ih h
    | some positions => simp only [step, ih h, Step.transform]
  | join left right predicate ihl ihr =>
    obtain ⟨l, r, current⟩ := s
    obtain ⟨hleft, rfl⟩ := h
    simp only [step, stepJoin, ihl hleft]
  | sort child keys order ih =>
    obtain ⟨c, buffer⟩ := s
    obtain ⟨all, rfl⟩ := h
    rfl
  | distinct child ih => simp only [step, stepDistinct, ih h]

/-! ## Calls -/

/-- A pull that answers the end leaves a spent state. -/
theorem spent_of_next {s : p.State} (h : (p.next fs s).1 = .ok none) :
    p.Spent (p.next fs s).2 := by
  fun_induction p.next fs s with
  | case1 s t s' hstep => cases h
  | case2 s s' hstep ih => exact ih h
  | case3 s s' hstep => exact spent_of_done hstep
  | case4 s e s' hstep => cases h

/-- What is left of a run is nothing: no call but a rewind finds a tuple, meets an error of the run
or changes its state, whatever files there are. -/
structure Exhausted (p : Plan) (s : p.State) : Prop where
  next : ∀ fs, p.next fs s = (.ok none, s)
  collect : ∀ fs, p.collect fs s = (.ok [], s)
  dump : ∀ fs k, p.dump fs k s = (k.flush.map fun _ => 0, k, s)

theorem exhausted_of_spent {s : p.State} (h : p.Spent s) : p.Exhausted s := by
  have hfold {α : Type} (fs : FileStore) (f : α → Tuple → Except Error Unit × α) (a : α) :
      p.fold fs f a s = (.ok (), a, s) := by
    rw [fold]
    split <;> next hstep => cases hstep.symm.trans (step_of_spent fs h) <;> rfl
  refine ⟨fun fs => ?_, fun fs => ?_, fun fs k => ?_⟩
  · rw [next_eq, step_of_spent fs h]
  · rw [collect, hfold]
    rfl
  · rw [dump_eq, hfold]

/-- An exhausted run is spent: the rows of one that is not can go on. -/
theorem spent_of_exhausted {s : p.State} (h : p.Exhausted s) : p.Spent s := by
  have hend := h.next .empty
  have hspent := spent_of_next (congrArg Prod.fst hend)
  rwa [hend] at hspent

theorem after_of_exhausted {s : p.State} (h : p.Exhausted s) (fs : FileStore) {c : Call}
    (hc : c ≠ .reset) : p.after fs s c = s := by
  cases c with
  | next => exact congrArg Prod.snd (h.next fs)
  | reset => exact absurd rfl hc
  | collect => exact congrArg Prod.snd (h.collect fs)

theorem pulls_of_exhausted {s : p.State} (h : p.Exhausted s) (fs : FileStore) (n : Nat) :
    p.pulls fs n s = List.replicate n (.ok none) := by
  induction n with
  | zero => rfl
  | succ n ih => rw [pulls, h.next fs, ih, List.replicate_succ]

/-! ## Open files that are edited -/

/-- Whether a state is another one after open files were edited in place. -/
def Edited : (p : Plan) → p.State → p.State → Prop
  | values _ _, s, s' => s' = s
  | scan _ _ _ _, s, s' => Option.Rel Reader.Edited s s'
  | select child _, s, s' => child.Edited s s'
  | project child _, s, s' => child.Edited s s'
  | join left right _, s, s' =>
    left.Edited s.left s'.left ∧ right.Edited s.right s'.right ∧ s'.current = s.current
  | sort child _ _, s, s' => child.Edited s.child s'.child ∧ s'.buffer = s.buffer
  | distinct child, s, s' => child.Edited s.child s'.child ∧ s'.last = s.last

/-- What is still to be read of the open file in which a run at its end looks for more rows, if
there is one. A join looks for another left tuple, and a sort has drained its child for good. -/
def driver : (p : Plan) → p.State → Option LineSource
  | values _ _, _ => none
  | scan _ _ _ _, s => s.map Reader.source
  | select child _, s => child.driver s
  | project child _, s => child.driver s
  | join left _ _, s => left.driver s.left
  | sort _ _ _, _ => none
  | distinct child, s => child.driver s.child

/-- The driver of a run at its end is the same in all states: a file without further lines, or
none. -/
theorem driver_of_spent {s s' : p.State} (h : p.Spent s) (h' : p.Spent s') :
    p.driver s' = p.driver s := by
  induction p with
  | values schema rows => rfl
  | scan table qualifier schema path =>
    obtain ⟨r, rfl, hr⟩ := h
    obtain ⟨r', rfl, hr'⟩ := h'
    exact congrArg some (hr'.trans hr.symm)
  | select child predicate ih => exact ih h h'
  | project child positions ih => exact ih h h'
  | join left right predicate ihl ihr => exact ihl h.1 h'.1
  | sort child keys order ih => rfl
  | distinct child ih => exact ih h h'

/-- A run stays spent while others write into its open files, if they add nothing to its driver. -/
theorem spent_of_edited {s s' : p.State} (h : p.Spent s) (hedit : p.Edited s s')
    (hdriver : p.driver s' = p.driver s) : p.Spent s' := by
  induction p with
  | values schema rows => exact hedit.trans h
  | scan table qualifier schema path =>
    obtain ⟨r, rfl, hr⟩ := h
    cases hedit with
    | some hreader =>
      obtain ⟨source, rfl⟩ := hreader
      have hsource : source = r.source := Option.some.inj hdriver
      exact ⟨_, rfl, hsource.trans hr⟩
  | select child predicate ih => exact ih h hedit hdriver
  | project child positions ih => exact ih h hedit hdriver
  | join left right predicate ihl ihr => exact ⟨ihl h.1 hedit.1 hdriver, hedit.2.2.trans h.2⟩
  | sort child keys order ih =>
    obtain ⟨all, hbuffer⟩ := h
    exact ⟨all, hedit.2.trans hbuffer⟩
  | distinct child ih => exact ih h hedit.1 hdriver

/-! ## The end lasts -/

/-- What can happen to a run that is not rewound: calls, each over the files that are there at the
time, and edits of its open files that leave as much to be read of its driver as there was. -/
inductive Onward (p : Plan) : p.State → p.State → Prop
  | call (fs : FileStore) (s : p.State) {c : Call} (hc : c ≠ .reset) : Onward p s (p.after fs s c)
  | dump (fs : FileStore) (k : Sink) (s : p.State) : Onward p s (p.dump fs k s).2.2
  | edit {s s' : p.State} (hedit : p.Edited s s') (hdriver : p.driver s' = p.driver s) :
    Onward p s s'

theorem spent_of_onward {s s' : p.State} (h : p.Spent s) (honward : p.Onward s s') :
    p.Spent s' := by
  have hover := exhausted_of_spent h
  cases honward with
  | call fs _ hc => rwa [after_of_exhausted hover fs hc]
  | dump fs k _ => rwa [hover.dump fs k]
  | edit hedit hdriver => exact spent_of_edited h hedit hdriver

theorem spent_of_onwards {s s' : p.State} (h : p.Spent s)
    (honwards : Relation.ReflTransGen p.Onward s s') : p.Spent s' := by
  induction honwards with
  | refl => exact h
  | tail _ honward ih => exact spent_of_onward ih honward

/-- The reader of the spoilt file when all lines are read. -/
def spoiltEnd : Reader := ⟨"T", .lines [], 3, some 1⟩

/-- The second pull sorts and yields the line behind the spoilt one. -/
theorem next_spoiltSort_again :
    spoiltSort.next spoiltStore (spoiltSort.reached spoiltStore [.next]) =
      (.ok (some ⟨[3]⟩), ⟨some spoiltEnd, .ready [⟨[3]⟩] []⟩) := by
  have hreached : spoiltSort.reached spoiltStore [.next] =
      ⟨some ⟨"T", .lines [[51]], 2, some 1⟩, .filling []⟩ := congrArg Prod.snd next_spoiltSort
  have hsorted (ts : List Tuple) (hts : ts = [⟨[3]⟩]) :
      spoiltSort.next spoiltStore ⟨some spoiltEnd, .ready ts ts⟩ =
        (.ok (some ⟨[3]⟩), ⟨some spoiltEnd, .ready [⟨[3]⟩] []⟩) := by
    subst hts
    exact next_eq ..
  have hread : spoiltSort.next spoiltStore ⟨some spoiltEnd, .filling [⟨[3]⟩]⟩ =
      (.ok (some ⟨[3]⟩), ⟨some spoiltEnd, .ready [⟨[3]⟩] []⟩) :=
    (next_eq ..).trans (hsorted _ (List.mergeSort_singleton _))
  rw [hreached]
  exact (next_eq ..).trans hread

/-- **Only its driver can take a run on.** A run at its end stays exhausted while its open files are
edited exactly if nothing more is to be read of its driver than before. -/
theorem exhausted_iff_driver {s s' : p.State} (h : (p.next fs s).1 = .ok none)
    (hedit : p.Edited (p.next fs s).2 s') :
    p.Exhausted s' ↔ p.driver s' = p.driver (p.next fs s).2 := by
  have hspent := spent_of_next h
  constructor
  · intro hover
    exact driver_of_spent hspent (spent_of_exhausted hover)
  · intro hdriver
    exact exhausted_of_spent (spent_of_edited hspent hedit hdriver)

end Plan

end FlatQuery
