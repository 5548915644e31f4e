import FlatQuery.Proofs.Streaming

set_option autoImplicit false

/-! # Rewinding after errors

What a drain returns when a run was rewound after any calls, failed ones among them. Every operator
but the sort goes back to its beginning. A sort keeps the tuples that it has sorted, and does not
rewind its child: when the child failed, the sort goes on behind the tuple that failed. So
`drain_rewound` holds with `Outlook.replay`, in which such a sort has only what its child has left,
and `settled_reached` says that this makes no difference when the children of the sorts do not
fail. -/

namespace FlatQuery

/-! ## Calls -/

/-- A call on a run. -/
inductive Call
  | next
  | reset
  | collect
  deriving DecidableEq, Repr

namespace Plan

variable {fs : FileStore} {p : Plan}

/-- The state after a call, whether or not the call fails. -/
def after (fs : FileStore) (p : Plan) (s : p.State) : Call → p.State
  | .next => (p.next fs s).2
  | .reset => (p.rewind fs s).2
  | .collect => (p.collect fs s).2

/-- The state after some calls on a tree that was just built. -/
def reached (fs : FileStore) (p : Plan) (calls : List Call) : p.State :=
  calls.foldl (p.after fs) p.start

/-- What a drain returns that follows some calls and a rewind. -/
def drainRewound (fs : FileStore) (p : Plan) (calls : List Call) : Except Error (List Tuple) :=
  (p.collect fs (p.rewind fs (p.reached fs calls)).2).1

/-- Whether a rewind after some calls succeeds and brings back the first drain. -/
def Recovers (fs : FileStore) (p : Plan) (calls : List Call) : Prop :=
  (p.rewind fs (p.reached fs calls)).1 = .ok () ∧
    p.drainRewound fs calls = (p.collect fs p.start).1

/-! ### Invariants of runs -/

section Keeps

variable {P : p.State → Prop} {s : p.State}

theorem keeps_of_step (hstep : ∀ s, P s → P (p.step fs s).state) (hs : P s) {o : Step p.State}
    (h : p.step fs s = o) : P o.state := by
  rw [← h]
  exact hstep s hs

/-- What every step keeps, a pull keeps. -/
theorem next_keeps (hstep : ∀ s, P s → P (p.step fs s).state) (hs : P s) : P (p.next fs s).2 := by
  fun_induction p.next fs s with
  | case1 s t s' h => exact keeps_of_step hstep hs h
  | case2 s s' h ih => exact ih (keeps_of_step hstep hs h)
  | case3 s s' h => exact keeps_of_step hstep hs h
  | case4 s e s' h => exact keeps_of_step hstep hs h

/-- What every step keeps, pulling all tuples keeps. -/
theorem fold_keeps {α : Type} (hstep : ∀ s, P s → P (p.step fs s).state)
    (f : α → Tuple → Except Error Unit × α) (a : α) (hs : P s) : P (p.fold fs f a s).2.2 := by
  fun_induction p.fold fs f a s with
  | case1 a s t s' h a' hf ih => exact ih (keeps_of_step hstep hs h)
  | case2 a s t s' h e a' hf => exact keeps_of_step hstep hs h
  | case3 a s s' h ih => exact ih (keeps_of_step hstep hs h)
  | case4 a s s' h => exact keeps_of_step hstep hs h
  | case5 a s e s' h => exact keeps_of_step hstep hs h

theorem collect_keeps (hstep : ∀ s, P s → P (p.step fs s).state) (hs : P s) :
    P (p.collect fs s).2 :=
  fold_keeps hstep (fun read t => (.ok (), t :: read)) ([] : List Tuple) hs

/-- What holds at the start and is kept by steps and rewinds holds after any calls. -/
theorem reached_keeps (hstart : P p.start) (hstep : ∀ s, P s → P (p.step fs s).state)
    (hrewind : ∀ s, P s → P (p.rewind fs s).2) (calls : List Call) : P (p.reached fs calls) := by
  unfold reached
  generalize p.start = s at hstart
  induction calls generalizing s with
  | nil => exact hstart
  | cons c calls ih =>
    have hafter : P (p.after fs s c) := by
      cases c with
      | next => exact next_keeps hstep hstart
      | reset => exact hrewind s hstart
      | collect => exact collect_keeps hstep hstart
    rw [List.foldl_cons]
    exact ih _ hafter

end Keeps

/-! ## Sorts whose children do not fail -/

/-- Whether the children of all sorts end well. Sorts below a sort do not count: that one keeps what
it has sorted. -/
def SortsEndWell (fs : FileStore) : Plan → Prop
  | values _ _ => True
  | scan _ _ _ _ => True
  | select child _ => child.SortsEndWell fs
  | project child _ => child.SortsEndWell fs
  | join left right _ => left.SortsEndWell fs ∧ right.SortsEndWell fs
  | sort child _ _ => (child.listing fs).ending = .ok ()
  | distinct child => child.SortsEndWell fs

/-- Whether every sort still has all of its tuples to come after a rewind: sorted already, or still
to be read from the child. -/
def Settled (fs : FileStore) : (p : Plan) → p.State → Prop
  | values _ _, _ => True
  | scan _ _ _ _, _ => True
  | select child _, s => child.Settled fs s
  | project child _, s => child.Settled fs s
  | join left right _, s => left.Settled fs s.left ∧ right.Settled fs s.right
  | sort child _ order, s =>
    (sortOutlook order (child.outlook fs s.child).rest s.buffer).replay =
      (child.listing fs).sorted order
  | distinct child, s => child.Settled fs s.child

theorem settled_start (fs : FileStore) (p : Plan) : p.Settled fs p.start := by
  induction p with
  | values schema rows => trivial
  | scan table qualifier schema path => trivial
  | select child predicate ih => exact ih
  | project child positions ih => exact ih
  | join left right predicate ihl ihr => exact ⟨ihl, ihr⟩
  | sort child keys order ih =>
    have hview := outlook_start fs (sort child keys order)
    exact congrArg Outlook.replay hview
  | distinct child ih => exact ih

/-- A settled run has the listing of its tree to come after a rewind. -/
theorem replay_of_settled {s : p.State} (hs : p.Settled fs s) :
    (p.outlook fs s).replay = p.listing fs := by
  induction p with
  | values schema rows => rfl
  | scan table qualifier schema path => rfl
  | select child predicate ih => simp only [outlook, Outlook.map, listing, ih hs]
  | project child positions ih =>
    cases positions with
    | none => exact ih hs
    | some positions => simp only [outlook, Outlook.map, listing, ih hs]
  | join left right predicate ihl ihr => simp only [outlook, listing, ihl hs.1, ihr hs.2]
  | sort child keys order ih => exact hs
  | distinct child ih => simp only [outlook, listing, ih hs]

theorem sorted_ne_fail {order : List Nat} {L : Listing} (h : L.ending = .ok ()) (e : Error) :
    L.sorted order ≠ .fail e := by
  intro hfail
  have hok : L.outcome = .ok L.rows := by rw [Listing.outcome, h]; rfl
  simp only [Listing.sorted, hok] at hfail
  have hending := congrArg Listing.ending hfail
  rw [Listing.ending_ofList] at hending
  cases hending

/-- A sort whose child ends well never fails. -/
theorem settled_step_sort (child : Plan) {keys : List ColumnRef} {order : List Nat}
    (hopen : child.Opens fs) (hends : (child.listing fs).ending = .ok ())
    {s : SortState child.State} (hs : (sort child keys order).Settled fs s) :
    (sort child keys order).Settled fs ((sort child keys order).step fs s).state := by
  have hreplay : ((sort child keys order).outlook fs s).replay =
      (child.listing fs).sorted order := hs
  have hopen : (sort child keys order).Opens fs := hopen
  cases hcase : (sort child keys order).step fs s with
  | yield t s' => exact (follows_of_step hopen hcase).2.trans hreplay
  | skip s' =>
    have hview : (sort child keys order).outlook fs s' = (sort child keys order).outlook fs s :=
      follows_of_step hopen hcase
    exact (congrArg Outlook.replay hview).trans hreplay
  | done s' => exact (congrArg Outlook.replay (follows_of_step hopen hcase).2).trans hreplay
  | fail e s' =>
    have hrest : ((sort child keys order).outlook fs s).rest = .fail e :=
      follows_of_step hopen hcase
    obtain ⟨c, buffer⟩ := s
    exfalso
    cases buffer with
    | filling read =>
      -- an incomplete buffer has the same listing to come with and without a rewind
      exact sorted_ne_fail hends e (hreplay.symm.trans hrest)
    | ready all rest =>
      have hending := congrArg Listing.ending hrest
      simp only [outlook, sortOutlook, Listing.ending_ofList, Listing.ending] at hending
      cases hending

theorem state_filter {σ : Type} (test : Tuple → Except Error Bool) (o : Step σ) :
    (o.filter test).state = o.state := by
  cases o with
  | yield t s =>
    simp only [Step.filter]
    split <;> rfl
  | skip s => rfl
  | done s => rfl
  | fail e s => rfl

theorem state_transform {σ : Type} (f : Tuple → Except Error Tuple) (o : Step σ) :
    (o.transform f).state = o.state := by
  cases o with
  | yield t s =>
    simp only [Step.transform]
    split <;> rfl
  | skip s => rfl
  | done s => rfl
  | fail e s => rfl

/-- What a step of a join leaves of both sides: each stays, takes a step, or (the right one) is
rewound. -/
theorem settled_stepJoin {left right : Plan} {predicate : Option Predicate}
    (hl : ∀ s, left.Settled fs s → left.Settled fs (left.step fs s).state)
    (hr : ∀ s, right.Settled fs s → right.Settled fs (right.step fs s).state)
    (hrewind : ∀ s, right.Settled fs s → right.Settled fs (right.rewind fs s).2)
    {s : JoinState left.State right.State} (hs : (join left right predicate).Settled fs s) :
    (join left right predicate).Settled fs
      (stepJoin (left.step fs) (right.step fs) (right.rewind fs) predicate s).state := by
  obtain ⟨l, r, current⟩ := s
  obtain ⟨hleft, hright⟩ := hs
  cases current with
  | none =>
    have hl := hl l hleft
    have hrewind := hrewind r hright
    simp only [stepJoin]
    split
    · next t l' h =>
      -- a left tuple is there, and the right side is rewound for it, with success or not
      rw [h] at hl
      split <;> next r' hrw =>
        rw [hrw] at hrewind
        exact ⟨hl, hrewind⟩
    all_goals
      next l' h =>
      rw [h] at hl
      exact ⟨hl, hright⟩
  | some t =>
    have hr := hr r hright
    simp only [stepJoin]
    split
    · next u r' h =>
      rw [h] at hr
      split <;> exact ⟨hleft, hr⟩
    all_goals
      next r' h =>
      rw [h] at hr
      exact ⟨hleft, hr⟩

theorem settled_rewind {s : p.State} (hopen : p.Opens fs) (hs : p.Settled fs s) :
    p.Settled fs (p.rewind fs s).2 := by
  induction p with
  | values schema rows => trivial
  | scan table qualifier schema path => trivial
  | select child predicate ih => exact ih hopen hs
  | project child positions ih => exact ih hopen hs
  | join left right predicate ihl ihr =>
    have hleft : left.Opens fs := fun path h => hopen path (List.mem_append_left _ h)
    have hright : right.Opens fs := fun path h => hopen path (List.mem_append_right _ h)
    have hl := ihl hleft hs.1
    have hr := ihr hright hs.2
    have hok := (outlook_rewind hleft s.left).1
    simp only [rewind]
    split
    · next e l h => simp [h] at hok
    · next l h =>
      rw [h] at hl
      exact ⟨hl, hr⟩
  | sort child keys order ih =>
    have hview := (outlook_rewind (p := sort child keys order) hopen s).2
    exact (congrArg Outlook.replay hview).trans hs
  | distinct child ih => exact ih hopen hs

theorem settled_step {s : p.State} (hopen : p.Opens fs) (hends : p.SortsEndWell fs)
    (hs : p.Settled fs s) : p.Settled fs (p.step fs s).state := by
  induction p with
  | values schema rows => trivial
  | scan table qualifier schema path => trivial
  | select child predicate ih =>
    simp only [step, state_filter]
    exact ih hopen hends hs
  | project child positions ih =>
    cases positions with
    | none => exact ih hopen hends hs
    | some positions =>
      simp only [step, state_transform]
      exact ih hopen hends hs
  | join left right predicate ihl ihr =>
    have hleft : left.Opens fs := fun path h => hopen path (List.mem_append_left _ h)
    have hright : right.Opens fs := fun path h => hopen path (List.mem_append_right _ h)
    exact settled_stepJoin (fun s hs => ihl hleft hends.1 hs) (fun s hs => ihr hright hends.2 hs)
      (fun s hs => settled_rewind hright hs) hs
  | sort child keys order ih => exact settled_step_sort child hopen hends hs
  | distinct child ih =>
    have hc := ih hopen hends (s := s.child) hs
    simp only [step, stepDistinct]
    split
    · next t c h =>
      rw [h] at hc
      split <;> exact hc
    all_goals
      next h =>
      rw [h] at hc
      exact hc

/-- When the children of the sorts end well, no call upsets a sort. -/
theorem settled_reached (hopen : p.Opens fs) (hends : p.SortsEndWell fs) (calls : List Call) :
    p.Settled fs (p.reached fs calls) :=
  reached_keeps (settled_start fs p) (fun _ hs => settled_step hopen hends hs)
    (fun _ hs => settled_rewind hopen hs) calls

/-! ## Draining after a rewind -/

/-- A rewind after any calls succeeds, and the drain after it returns what the outlook says. -/
theorem drain_rewound (hopen : p.Opens fs) (calls : List Call) :
    (p.rewind fs (p.reached fs calls)).1 = .ok () ∧
      p.drainRewound fs calls = (p.outlook fs (p.reached fs calls)).replay.outcome := by
  obtain ⟨hok, hview⟩ := outlook_rewind hopen (p.reached fs calls)
  refine ⟨hok, ?_⟩
  rw [drainRewound, collect_eq_outcome hopen, hview]

/-- **When a rewind recovers from errors.** After any calls it does so exactly when what is to come
after the rewind has the outcome of the listing of the tree. In what is to come, a sort that is not
complete stands for the sorted rest of its child instead of all of the child's tuples; so a rewind
always recovers when the children of the sorts end well. -/
theorem recovers_iff (hopen : p.Opens fs) (calls : List Call) :
    (p.Recovers fs calls ↔
        (p.outlook fs (p.reached fs calls)).replay.outcome = (p.listing fs).outcome) ∧
      (p.SortsEndWell fs → p.Recovers fs calls) := by
  obtain ⟨hok, hdrain⟩ := drain_rewound hopen calls
  have hiff : p.Recovers fs calls ↔
      (p.outlook fs (p.reached fs calls)).replay.outcome = (p.listing fs).outcome := by
    rw [Recovers, hdrain, collect_start hopen]
    exact and_iff_right hok
  refine ⟨hiff, ?_⟩
  intro hends
  rw [hiff, replay_of_settled (settled_reached hopen hends calls)]

/-- A sort below does not stand in the way of a rewind when it is the scan that fails. -/
theorem recovers_spoiltJoin :
    spoiltJoin.Opens spoiltStore ∧ spoiltJoin.SortsEndWell spoiltStore ∧
      (spoiltJoin.collect spoiltStore spoiltJoin.start).1 = .error spoiltLine ∧
      spoiltJoin.Recovers spoiltStore [.next, .collect, .reset, .next, .next] := by
  have hopen : spoiltJoin.Opens spoiltStore := by decide
  have hends : spoiltJoin.SortsEndWell spoiltStore := ⟨rfl, trivial⟩
  exact ⟨hopen, hends, collect_start hopen, (recovers_iff hopen _).2 hends⟩

/-- The sorted spoilt file. -/
def spoiltSort : Plan := spoiltScan.sortAll

/-- The first pull reads up to the spoilt line and loses the line before it. -/
theorem next_spoiltSort :
    spoiltSort.next spoiltStore spoiltSort.start =
      (.error spoiltLine, ⟨some ⟨"T", .lines [[51]], 2, some 1⟩, .filling []⟩) := by
  have hread : spoiltSort.next spoiltStore
      ⟨some ⟨"T", .lines [[120], [51]], 1, some 1⟩, .filling [⟨[1]⟩]⟩ =
      (.error spoiltLine, ⟨some ⟨"T", .lines [[51]], 2, some 1⟩, .filling []⟩) := next_eq ..
  exact (next_eq ..).trans hread

/-- **A rewound sort may succeed with a part of the rows.** The first pull fails at the second line;
the rewind succeeds; the drain after it succeeds with the third line only, although the drain of the
tree that was just built fails. -/
theorem sort_drops_rows :
    spoiltSort.Opens spoiltStore ∧
      (spoiltSort.next spoiltStore spoiltSort.start).1 = .error spoiltLine ∧
      (spoiltSort.rewind spoiltStore (spoiltSort.reached spoiltStore [.next])).1 = .ok () ∧
      spoiltSort.drainRewound spoiltStore [.next] = .ok [⟨[3]⟩] ∧
      (spoiltSort.collect spoiltStore spoiltSort.start).1 = .error spoiltLine := by
  have hopen : spoiltSort.Opens spoiltStore := by decide
  have hreached : spoiltSort.reached spoiltStore [.next] =
      ⟨some ⟨"T", .lines [[51]], 2, some 1⟩, .filling []⟩ := congrArg Prod.snd next_spoiltSort
  obtain ⟨hok, hdrain⟩ := drain_rewound hopen [.next]
  refine ⟨hopen, congrArg Prod.fst next_spoiltSort, hok, ?_, collect_start hopen⟩
  rw [hdrain, hreached]
  rfl

end Plan

end FlatQuery
