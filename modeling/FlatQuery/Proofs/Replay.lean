import FlatQuery.Proofs.Recovery
import FlatQuery.Proofs.Results

set_option autoImplicit false

/-! # Replaying

A run that has not failed keeps what comes after a rewind: `replay_after` says it of one call and
`replay_reached` of any calls. So a rewind in the middle of such a run brings back the tree as it was
built (`drain_replayed`), whether it comes before the first pull, while a left tuple is matched, in
the middle of a sorted buffer or after the last tuple. -/

namespace FlatQuery

namespace Plan

variable {fs : FileStore} {p : Plan} {s : p.State}

/-- Whether a call on a run succeeds. -/
def succeeds (fs : FileStore) (p : Plan) (s : p.State) : Call → Bool
  | .next => (p.next fs s).1.isOk
  | .reset => (p.rewind fs s).1.isOk
  | .collect => (p.collect fs s).1.isOk

/-- Whether some calls, one after the other, all succeed. -/
def allSucceed (fs : FileStore) (p : Plan) : p.State → List Call → Bool
  | _, [] => true
  | s, c :: calls => p.succeeds fs s c && p.allSucceed fs (p.after fs s c) calls

/-- A call that succeeds does not change what comes after a rewind. -/
theorem replay_after (hopen : p.Opens fs) {c : Call} (h : p.succeeds fs s c) :
    (p.outlook fs (p.after fs s c)).replay = (p.outlook fs s).replay := by
  cases c with
  | next =>
    obtain ⟨answer, hanswer⟩ := isOk_iff.1 h
    have hnext := next_follows hopen s
    split at hnext
    · rw [after, hnext.2]
    · rw [hanswer] at hnext
      cases hnext
    · rw [after, hnext.2]
  | reset => rw [after, (outlook_rewind hopen s).2]
  | collect =>
    obtain ⟨ts, hts⟩ := isOk_iff.1 h
    rw [after, outlook_collect hopen hts]

/-- Calls that succeed do not change what comes after a rewind. -/
theorem replay_foldl_after (hopen : p.Opens fs) {calls : List Call}
    (h : p.allSucceed fs s calls) :
    (p.outlook fs (calls.foldl (p.after fs) s)).replay = (p.outlook fs s).replay := by
  induction calls generalizing s with
  | nil => rfl
  | cons c calls ih =>
    obtain ⟨hcall, hcalls⟩ := Bool.and_eq_true_iff.1 h
    rw [List.foldl_cons, ih hcalls, replay_after hopen hcall]

/-- A run that has not failed has the listing of its tree to come after a rewind. -/
theorem replay_reached (hopen : p.Opens fs) {calls : List Call}
    (h : p.allSucceed fs p.start calls) :
    (p.outlook fs (p.reached fs calls)).replay = p.listing fs := by
  rw [reached, replay_foldl_after hopen h, outlook_start]

/-- When what is to come ends well, rewound or not, a call succeeds and leaves it so. -/
theorem succeeds_of_endings (hopen : p.Opens fs) (hrest : (p.outlook fs s).rest.ending = .ok ())
    (hreplay : (p.outlook fs s).replay.ending = .ok ()) (c : Call) :
    p.succeeds fs s c ∧ (p.outlook fs (p.after fs s c)).rest.ending = .ok () ∧
      (p.outlook fs (p.after fs s c)).replay.ending = .ok () := by
  cases c with
  | next =>
    have hnext := next_follows hopen s
    split at hnext
    · obtain ⟨hanswer, hview⟩ := hnext
      rw [succeeds, hanswer, after, hview]
      exact ⟨rfl, hrest, hreplay⟩
    · next e he =>
      rw [he] at hrest
      cases hrest
    · next t rest ht =>
      obtain ⟨hanswer, hview⟩ := hnext
      rw [ht] at hrest
      rw [succeeds, hanswer, after, hview]
      exact ⟨rfl, hrest, hreplay⟩
  | reset =>
    obtain ⟨hok, hview⟩ := outlook_rewind hopen s
    rw [succeeds, hok, after, hview]
    exact ⟨rfl, hreplay, hreplay⟩
  | collect =>
    have hok : (p.collect fs s).1 = .ok (p.outlook fs s).rest.rows := by
      rw [collect_eq_outcome hopen, Listing.outcome, hrest]
      rfl
    rw [succeeds, hok, after, outlook_collect hopen hok]
    exact ⟨rfl, rfl, hreplay⟩

/-- On a tree whose listing ends well no call fails. -/
theorem allSucceed_of_ending (hopen : p.Opens fs) (hends : (p.listing fs).ending = .ok ())
    (calls : List Call) : p.allSucceed fs p.start calls := by
  have hview := outlook_start fs p
  have hrest : (p.outlook fs p.start).rest.ending = .ok () := by rw [hview, hends]
  have hreplay : (p.outlook fs p.start).replay.ending = .ok () := by rw [hview, hends]
  clear hview
  generalize p.start = s at hrest hreplay
  induction calls generalizing s with
  | nil => rfl
  | cons c calls ih =>
    obtain ⟨hcall, hrest, hreplay⟩ := succeeds_of_endings hopen hrest hreplay c
    exact Bool.and_eq_true_iff.2 ⟨hcall, ih _ hrest hreplay⟩

/-- **A run that has not failed can be replayed.** After any calls that succeed a rewind succeeds as
well, and from then on the run answers as the tree that was just built: a drain returns the same
tuples or the same error, and the pulls return the same tuples one by one, up to the end. -/
theorem drain_replayed (hopen : p.Opens fs) {calls : List Call}
    (h : p.allSucceed fs p.start calls) :
    (p.rewind fs (p.reached fs calls)).1 = .ok () ∧
      p.drainRewound fs calls = (p.collect fs p.start).1 ∧
      p.pulls fs ((p.listing fs).rows.length + 1) (p.rewind fs (p.reached fs calls)).2 =
        p.pulls fs ((p.listing fs).rows.length + 1) p.start := by
  obtain ⟨hok, hview⟩ := outlook_rewind hopen (p.reached fs calls)
  rw [replay_reached hopen h, ← outlook_start] at hview
  have hpulls := pulls_eq_answers hopen (p.rewind fs (p.reached fs calls)).2
  have hfresh := pulls_eq_answers hopen p.start
  rw [hview, outlook_start] at hpulls
  rw [outlook_start] at hfresh
  refine ⟨hok, ?_, hpulls.trans hfresh.symm⟩
  rw [drainRewound, collect_eq_outcome hopen, hview, collect_eq_outcome hopen]

/-! ### A sort, a removal of repeated tuples and a file -/

/-- A store with the file `T`, which holds the lines `1`, `1` and `3`. -/
def repeatStore : FileStore := ⟨[(⟨false, ["T"]⟩, .file [49, 10, 49, 10, 51, 10])]⟩

/-- The sorted rows `8` and `7`, each with the different lines of the file. -/
def repeatJoin : Plan :=
  join (values ⟨[⟨"L", "B"⟩]⟩ [⟨[8]⟩, ⟨[7]⟩]).sortAll
    (distinct (scan "T" "T" ⟨[⟨"T", "A"⟩]⟩ "T")) none

/-- After one tuple and a rewind the run stops in the middle of the second left tuple; then a rewind
brings back all four tuples. -/
theorem drain_replayed_repeatJoin :
    repeatJoin.Opens repeatStore ∧
      repeatJoin.allSucceed repeatStore repeatJoin.start [.next, .reset, .next, .next, .next] ∧
      repeatJoin.drainRewound repeatStore [.next, .reset, .next, .next, .next] =
        .ok [⟨[7, 1]⟩, ⟨[7, 3]⟩, ⟨[8, 1]⟩, ⟨[8, 3]⟩] := by
  have hopen : repeatJoin.Opens repeatStore := by decide
  have hok : repeatJoin.allSucceed repeatStore repeatJoin.start
      [.next, .reset, .next, .next, .next] := allSucceed_of_ending hopen rfl _
  refine ⟨hopen, hok, ?_⟩
  rw [(drain_replayed hopen hok).2.1, collect_start hopen]
  decide +kernel

end Plan

end FlatQuery
