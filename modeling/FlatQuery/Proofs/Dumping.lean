import FlatQuery.Database
import FlatQuery.Proofs.Draining
import FlatQuery.Proofs.Failures

set_option autoImplicit false

/-! # Dumping

What a dump leaves in its sink and what it answers, for every tree in every state and every sink.
The sink takes as many of the tuples as there is room for, each as a whole line
(`Sink.feed_lines`). Of the failures that may come together, the first one wins: a line that finds
no room, then the error that ends the rows, then the flush (`Sink.answer`, `Plan.dump_eq_stream`).
The error of the rows is told from that of a full sink by its message (`Plan.ne_full_of_ending`).
The main result is `Plan.dump_received`. -/

namespace FlatQuery

/-- The text that stores some tuples, one a line. -/
def storedText (ts : List Tuple) : String := String.join (ts.map (·.text ++ "\n"))

/-! ## Room -/

namespace Sink

variable {k : Sink} {n : Nat} {t : Tuple} {ts : List Tuple}

/-- The number of lines that a sink still takes, if it is limited. -/
def room (k : Sink) : Option Nat := k.capacity.map (· - k.written.length)

/-- Whether a sink takes `n` more lines. -/
def Takes (k : Sink) (n : Nat) : Prop := ∀ room ∈ k.room, n ≤ room

instance (k : Sink) (n : Nat) : Decidable (k.Takes n) :=
  inferInstanceAs (Decidable (∀ room ∈ k.room, _))

/-- The first of some tuples, as many as there is room for. -/
def fitting (k : Sink) (ts : List Tuple) : List Tuple :=
  match k.room with
  | none => ts
  | some n => ts.take n

/-- The sink after some tuples have been written to it, one a line. -/
def holding (k : Sink) (ts : List Tuple) : Sink :=
  { k with written := (ts.map Tuple.text).reverse ++ k.written }

/-- The error of a line that finds no room. -/
def full : Error := .io "<output>" "sink full"

/-- The error of a flush that is refused. -/
def unflushed : Error := .io "<output>" "flush refused"

theorem room_holding (k : Sink) (ts : List Tuple) :
    (k.holding ts).room = k.room.map (· - ts.length) := by
  simp only [room, holding, List.length_append, List.length_reverse, List.length_map,
    Option.map_map]
  congr 1
  funext c
  simp only [Function.comp_apply]
  omega

theorem takes_zero (k : Sink) : k.Takes 0 := fun _ _ => Nat.zero_le _

theorem takes_succ_iff (t : Tuple) : k.Takes (n + 1) ↔ k.Takes 1 ∧ (k.holding [t]).Takes n := by
  simp only [Takes, room_holding, List.length_singleton, Option.mem_map, forall_exists_index,
    and_imp, forall_apply_eq_imp_iff₂]
  constructor
  · intro h
    exact ⟨fun r hr => by have := h r hr; omega, fun r hr => by have := h r hr; omega⟩
  · rintro ⟨hone, hrest⟩ r hr
    have := hone r hr
    have := hrest r hr
    omega

theorem fitting_of_takes (h : k.Takes ts.length) : k.fitting ts = ts := by
  unfold fitting
  split
  · rfl
  · next n hn => exact List.take_of_length_le (h n hn)

theorem fitting_cons (h : k.Takes 1) (t : Tuple) (ts : List Tuple) :
    k.fitting (t :: ts) = t :: (k.holding [t]).fitting ts := by
  unfold fitting
  rw [room_holding]
  cases hroom : k.room with
  | none => rfl
  | some r =>
    obtain ⟨r, rfl⟩ := Nat.exists_eq_add_of_le' (h r hroom)
    rfl

theorem fitting_of_not_takes (h : ¬ k.Takes 1) (ts : List Tuple) : k.fitting ts = [] := by
  unfold fitting
  split
  · next hroom => exact absurd (fun r hr => by simp [hroom] at hr) h
  · next n hroom =>
    have hzero : n = 0 := by
      by_contra hne
      refine h fun r hr => ?_
      cases hroom.symm.trans hr
      omega
    rw [hzero, List.take_zero]

theorem holding_cons (k : Sink) (t : Tuple) (ts : List Tuple) :
    k.holding (t :: ts) = (k.holding [t]).holding ts := by
  simp [holding]

/-- The lines in a sink are those that it held before and the stored form of the tuples. -/
theorem text_holding (k : Sink) (ts : List Tuple) :
    (k.holding ts).text = k.text ++ storedText ts := by
  simp only [text, holding, storedText, List.reverse_append, List.reverse_reverse, List.map_append,
    List.map_map, String.join_append]
  rfl

/-! ## Lines -/

/-- A line is written and counted. -/
def count (counted : Nat × Sink) (t : Tuple) : Except Error Unit × Nat × Sink :=
  let (outcome, k) := counted.2.writeLine t.text
  (outcome, (if outcome.isOk then counted.1 + 1 else counted.1, k))

theorem count_of_takes (h : k.Takes 1) (n : Nat) (t : Tuple) :
    count (n, k) t = (.ok (), n + 1, k.holding [t]) := by
  have hroom : k.capacity.all (k.written.length < ·) = true := by
    cases hcapacity : k.capacity with
    | none => rfl
    | some c =>
      have := h (c - k.written.length) (by simp [room, hcapacity])
      simp only [Option.all_some, decide_eq_true_eq]
      omega
  simp only [count, writeLine, hroom, if_pos]
  rfl

theorem count_of_not_takes (h : ¬ k.Takes 1) (n : Nat) (t : Tuple) :
    count (n, k) t = (.error full, n, k) := by
  have hroom : ¬ k.capacity.all (k.written.length < ·) = true := by
    intro hall
    refine h fun r hr => ?_
    obtain ⟨c, hc, rfl⟩ := Option.map_eq_some_iff.1 hr
    rw [hc] at hall
    have := of_decide_eq_true hall
    omega
  simp only [count, writeLine, if_neg hroom]
  rfl

/-- Lines are written as long as there is room; then the sink is full, whatever would come. -/
theorem feed_lines (L : Listing) (n : Nat) (k : Sink) :
    L.feed count (n, k) = (if k.Takes L.rows.length then L.ending else .error full,
      n + (k.fitting L.rows).length, k.holding (k.fitting L.rows)) := by
  -- each line leaves a sink with less room, for which the rest of the listing is written
  induction L generalizing n k with
  | nil =>
    have hzero : k.Takes (Listing.nil : Listing).rows.length := k.takes_zero
    rw [if_pos hzero, fitting_of_takes hzero]
    rfl
  | fail e =>
    have hzero : k.Takes (Listing.fail e).rows.length := k.takes_zero
    rw [if_pos hzero, fitting_of_takes hzero]
    rfl
  | cons t L ih =>
    rw [Listing.feed, Listing.rows, Listing.ending, List.length_cons]
    by_cases h : k.Takes 1
    · have hiff : k.Takes (L.rows.length + 1) ↔ (k.holding [t]).Takes L.rows.length :=
        (takes_succ_iff t).trans (and_iff_right h)
      rw [fitting_cons h, count_of_takes h]
      simp only [ih, hiff, ← holding_cons, List.length_cons]
      congr 2
      omega
    · rw [count_of_not_takes h, fitting_of_not_takes h, if_neg fun hall =>
        h ((takes_succ_iff t).1 hall).1]
      rfl

/-! ## Answers -/

/-- What a sink makes of a stream that is dumped into it: which answer there is, and which sink is
left. -/
structure Receives (k : Sink) (L : Listing) (answer : Except Error Nat) (k' : Sink) : Prop where
  /-- As many of the tuples as there is room for have been written, and nothing else. -/
  written : k' = k.holding (k.fitting L.rows)
  /-- Each of them stands on a whole line, behind what the sink had before. -/
  text : k'.text = k.text ++ storedText (k.fitting L.rows)
  counts : ∀ n, answer = .ok n ↔
    n = L.rows.length ∧ L.ending = .ok () ∧ k.Takes n ∧ k.flushes = true
  /-- A stream that fails is heard only if there is room for all of its tuples. -/
  fails : ∀ e, L.ending = .error e → (answer = .error e ↔ k.Takes L.rows.length)
  /-- In all other cases the error is one of the sink. -/
  refuses : (∀ n, answer ≠ .ok n) → (∀ e, L.ending = .error e → answer ≠ .error e) →
    answer = .error (if k.Takes L.rows.length then unflushed else full)

/-- The answer to a stream that is dumped into a sink. A line without room is found before the error
that ends the stream, and the sink is flushed only at a good end. -/
def answer (k : Sink) (L : Listing) : Except Error Nat :=
  if k.Takes L.rows.length then
    L.ending.bind fun _ => if k.flushes then .ok L.rows.length else .error unflushed
  else .error full

theorem answer_eq_ok_iff {L : Listing} : k.answer L = .ok n ↔
    n = L.rows.length ∧ L.ending = .ok () ∧ k.Takes n ∧ k.flushes = true := by
  unfold answer
  by_cases h : k.Takes L.rows.length
  · rw [if_pos h]
    cases L.ending with
    | error e => simp [Except.bind]
    | ok u =>
      cases hflushes : k.flushes with
      | false => simp [Except.bind]
      | true =>
        simp only [Except.bind, if_true, Except.ok.injEq, true_and, and_true]
        exact ⟨fun heq => ⟨heq.symm, heq ▸ h⟩, fun heq => heq.1.symm⟩
  · rw [if_neg h]
    refine ⟨fun heq => (by cases heq), ?_⟩
    rintro ⟨rfl, -, htakes, -⟩
    exact absurd htakes h

/-- The answer tells what happened if the error that ends the stream is none of a full sink. -/
theorem receives_answer {L : Listing} (hending : ∀ e, L.ending = .error e → e ≠ full) :
    k.Receives L (k.answer L) (k.holding (k.fitting L.rows)) where
  written := rfl
  text := text_holding ..
  counts _ := answer_eq_ok_iff
  fails e he := by
    unfold answer
    by_cases h : k.Takes L.rows.length
    · rw [if_pos h, he]
      exact iff_of_true rfl h
    · rw [if_neg h]
      exact iff_of_false (fun heq => hending e he (Except.error.inj heq).symm) h
  refuses hok herror := by
    unfold answer at hok herror ⊢
    by_cases h : k.Takes L.rows.length
    · simp only [if_pos h] at hok herror ⊢
      cases hend : L.ending with
      | error e => exact absurd (congrArg (Except.bind · _) hend) (herror e hend)
      | ok u =>
        rw [hend] at hok
        cases hflushes : k.flushes with
        | false => rfl
        | true => exact absurd (by rw [hflushes]; rfl) (hok L.rows.length)
    · simp only [if_neg h]

end Sink

/-! ## Dumps -/

/-- A text is planned, and the plan is dumped if there is one. -/
theorem Database.execute_eq (db : Database) (fs : FileStore) (text : String) (k : Sink) :
    db.execute fs text k =
      match (db.query text).1 with
      | .error e => (.error e, k, (db.query text).2)
      | .ok p => ((p.dump fs k p.start).1, (p.dump fs k p.start).2.1, (db.query text).2) := by
  unfold execute
  rcases db.query text with ⟨e | p, db'⟩ <;> rfl

namespace Plan

variable {fs : FileStore} {p : Plan} {s : p.State} {k : Sink}

/-- The pulls from any state answer the stream of the run. -/
theorem pulls_eq_stream (fs : FileStore) (p : Plan) (s : p.State) :
    p.pulls fs ((p.stream fs s).rows.length + 1) s = (p.stream fs s).answers := by
  fun_induction p.stream fs s with
  | case1 s t s' h ih =>
    have hnext : p.next fs s = (.ok (some t), s') := by rw [next_eq, h]
    rw [Listing.rows, List.length_cons, pulls, hnext, ih, Listing.answers_cons]
  | case2 s s' h ih =>
    have hnext : p.next fs s = p.next fs s' := by rw [next_eq, h]
    rw [pulls, hnext, ← pulls, ih]
  | case3 s s' h =>
    have hnext : p.next fs s = (.ok none, s') := by rw [next_eq, h]
    simp only [Listing.rows, List.length_nil, pulls, hnext, Listing.answers_nil]
  | case4 s e s' h =>
    have hnext : p.next fs s = (.error e, s') := by rw [next_eq, h]
    simp only [Listing.rows, List.length_nil, pulls, hnext, Listing.answers_fail]

/-- A stream ends with the errors of pulling only. -/
theorem fails_ending (fs : FileStore) (p : Plan) (s : p.State) :
    FailsAs Error.OfPulling (p.stream fs s).ending := by
  have hfails := p.failsAs_step fs s
  fun_induction p.stream fs s with
  | case1 s t s' h ih => exact ih (p.failsAs_step fs s')
  | case2 s s' h ih => exact ih (p.failsAs_step fs s')
  | case3 s s' h => exact .ok ()
  | case4 s e s' h =>
    rw [h] at hfails
    exact .error hfails

/-- No error of pulling is the one of a full sink: a file reports what the system says. -/
theorem ne_full_of_ending {e : Error} (h : (p.stream fs s).ending = .error e) :
    e ≠ Sink.full := by
  have hmessage (fault : IoFault) : fault.message ≠ "sink full" := by cases fault <;> decide
  cases fails_ending fs p s e h with
  | file hfile =>
    cases hfile with
    | unreadable path fault => exact fun heq => hmessage fault (Error.io.inj heq).2
    | malformed path line message => exact nofun
  | position column index arity => exact nofun
  | arithmetic fault node => cases fault <;> exact nofun

/-- A dump counts the lines that it writes and flushes the sink at the end. -/
theorem dump_eq (fs : FileStore) (p : Plan) (k : Sink) (s : p.State) :
    p.dump fs k s =
      let (outcome, (n, k'), s') := p.fold fs Sink.count (0, k) s
      match outcome with
      | .error e => (.error e, k', s')
      | .ok () => (k'.flush.map fun _ => n, k', s') := rfl

/-- What a dump writes and answers. -/
theorem dump_eq_stream (fs : FileStore) (p : Plan) (k : Sink) (s : p.State) :
    (p.dump fs k s).1 = k.answer (p.stream fs s) ∧
      (p.dump fs k s).2.1 = k.holding (k.fitting (p.stream fs s).rows) := by
  have hfold := fold_eq_stream fs Sink.count ((0, k) : Nat × Sink) s
  rw [Sink.feed_lines, Nat.zero_add] at hfold
  rcases hrun : p.fold fs Sink.count ((0, k) : Nat × Sink) s with ⟨outcome, ⟨n, k'⟩, s'⟩
  rw [hrun] at hfold
  obtain ⟨rfl, hcounted⟩ := Prod.mk.inj hfold
  obtain ⟨rfl, rfl⟩ := Prod.mk.inj hcounted
  rw [dump_eq, hrun, Sink.answer]
  by_cases h : k.Takes (p.stream fs s).rows.length
  · -- all tuples have been written, and only a good end is followed by a flush
    simp only [if_pos h, Sink.fitting_of_takes h]
    cases (p.stream fs s).ending with
    | error e => exact ⟨rfl, rfl⟩
    | ok u =>
      refine ⟨?_, rfl⟩
      show ((if k.flushes then .ok () else .error Sink.unflushed : Except Error Unit).map fun _ =>
        (p.stream fs s).rows.length) = _
      cases k.flushes <;> rfl
  · simp only [if_neg h]
    exact ⟨trivial, trivial⟩

/-- **A dump is what a drain is, as far as the sink allows it.** From any state of any tree the sink
receives the stream that the pulls answer and a drain collects. A text that is no query, or that
cannot be planned, writes nothing; any other one is a dump of its plan. -/
theorem dump_received (fs : FileStore) (k : Sink) :
    (∀ (p : Plan) (s : p.State),
      p.pulls fs ((p.stream fs s).rows.length + 1) s = (p.stream fs s).answers ∧
        (p.collect fs s).1 = (p.stream fs s).outcome ∧
        k.Receives (p.stream fs s) (p.dump fs k s).1 (p.dump fs k s).2.1) ∧
      ∀ (db : Database) (text : String),
        (∀ e, (db.query text).1 = .error e →
          (db.execute fs text k).1 = .error e ∧ (db.execute fs text k).2.1 = k) ∧
        ∀ p, (db.query text).1 = .ok p →
          (db.execute fs text k).1 = (p.dump fs k p.start).1 ∧
            (db.execute fs text k).2.1 = (p.dump fs k p.start).2.1 := by
  refine ⟨fun p s => ⟨p.pulls_eq_stream fs s, p.collect_eq_stream fs s, ?_⟩,
    fun db text => ⟨?_, ?_⟩⟩
  · obtain ⟨hanswer, hsink⟩ := p.dump_eq_stream fs k s
    rw [hanswer, hsink]
    exact Sink.receives_answer fun e he => ne_full_of_ending he
  · intro e he
    rw [Database.execute_eq, he]
    exact ⟨rfl, rfl⟩
  · intro p hp
    rw [Database.execute_eq, hp]
    exact ⟨rfl, rfl⟩

/-- The spoilt file has a line that is dumped and one that is heard of if there is room for the line
before it, even by a sink that refuses its flush. A text that is no query changes no sink. -/
theorem dump_received_spoilt :
    (spoiltScan.dump spoiltStore (.fresh (some 1) false) spoiltScan.start).1 = .error spoiltLine ∧
      (spoiltScan.dump spoiltStore (.fresh (some 1) false) spoiltScan.start).2.1.text = "1\n" ∧
      (spoiltScan.dump spoiltStore (.fresh (some 0) true) spoiltScan.start).1 =
        .error (.io "<output>" "sink full") ∧
      ((Database.empty (.ofRoot "db")).execute spoiltStore "'" (.fresh none true)).1 =
        .error .malformedSql := by
  have hrest : spoiltScan.stream spoiltStore (some ⟨"T", .lines [[120], [51]], 1, some 1⟩) =
      .fail spoiltLine := stream_eq ..
  have hstream : spoiltScan.stream spoiltStore spoiltScan.start = .cons ⟨[1]⟩ (.fail spoiltLine) :=
    (stream_eq ..).trans (congrArg (Listing.cons ⟨[1]⟩) hrest)
  have hheard := ((dump_received spoiltStore (.fresh (some 1) false)).1 spoiltScan
    spoiltScan.start).2.2
  have hfull := ((dump_received spoiltStore (.fresh (some 0) true)).1 spoiltScan
    spoiltScan.start).2.2
  rw [hstream] at hheard hfull
  refine ⟨(hheard.fails spoiltLine rfl).2 (by decide), hheard.text.trans (by decide), ?_, ?_⟩
  · refine hfull.refuses (fun n hn => ?_) fun e he hanswer => ?_
    · cases ((hfull.counts n).1 hn).2.1
    · exact absurd ((hfull.fails e he).1 hanswer) (by decide)
  · exact (((dump_received spoiltStore (.fresh none true)).2 _ "'").1 _ (by decide)).1

end Plan

end FlatQuery
