import FlatQuery.Proofs.Denotation
import FlatQuery.Proofs.Truth

set_option autoImplicit false

/-! # Sieved products

The rows of a product are `choices`: one tuple from each list, the first list outermost. A listing
is `Sieved` from a product by some conjuncts if, when it ends well, it has just the rows on which
all of them are true, and each of the others makes one of them false. Selections (`Sieved.keep`) and
nested loops (`Sieved.cross`) keep this. -/

namespace FlatQuery

/-! ## Products -/

/-- The values of some tuples in a row. -/
def Tuple.concat (ts : List Tuple) : Tuple := ⟨ts.flatMap Tuple.values⟩

@[simp] theorem Tuple.concat_append (ts us : List Tuple) :
    Tuple.concat (ts ++ us) = Tuple.concat ts ++ Tuple.concat us :=
  congrArg Tuple.mk List.flatMap_append

@[simp] theorem Tuple.concat_singleton (t : Tuple) : Tuple.concat [t] = t :=
  congrArg Tuple.mk (List.flatMap_singleton Tuple.values t)

/-- One element from each list, in the order in which nested loops over the lists meet them. -/
def choices {α : Type} : List (List α) → List (List α)
  | [] => [[]]
  | xs :: rest => xs.flatMap fun x => (choices rest).map (x :: ·)

section Choices

variable {α : Type}

theorem mem_choices {cs : List α} {ls : List (List α)} :
    cs ∈ choices ls ↔ List.Forall₂ (· ∈ ·) cs ls := by
  induction ls generalizing cs with
  | nil => rw [choices, List.mem_singleton, List.forall₂_nil_right_iff]
  | cons xs rest ih =>
    rw [choices, List.forall₂_cons_right_iff, List.mem_flatMap]
    constructor
    · rintro ⟨x, hx, hcs⟩
      obtain ⟨cs', hcs', rfl⟩ := List.mem_map.1 hcs
      exact ⟨x, cs', hx, ih.1 hcs', rfl⟩
    · rintro ⟨x, cs', hx, hcs', rfl⟩
      exact ⟨x, hx, List.mem_map_of_mem (ih.2 hcs')⟩

@[simp] theorem choices_singleton (xs : List α) : choices [xs] = xs.map fun x => [x] := by
  show (xs.flatMap fun x => [[x]]) = _
  exact (List.map_eq_flatMap).symm

theorem concat_choices_singleton (test : List Tuple → Bool) (rows : List Tuple) :
    ((choices [rows]).filter test).map Tuple.concat = rows.filter fun u => test [u] := by
  rw [choices_singleton, List.filter_map, List.map_map]
  have hid : Tuple.concat ∘ (fun t => [t]) = id := funext Tuple.concat_singleton
  rw [hid, List.map_id]
  rfl

/-- A further list makes the innermost loop. -/
theorem choices_append_singleton (ls : List (List α)) (xs : List α) :
    choices (ls ++ [xs]) = (choices ls).flatMap fun cs => xs.map fun x => cs ++ [x] := by
  induction ls with
  | nil =>
    rw [List.nil_append, choices_singleton, choices, List.flatMap_singleton]
    rfl
  | cons ys rest ih =>
    rw [List.cons_append, choices, choices, ih, List.flatMap_assoc]
    simp only [List.map_flatMap, List.flatMap_map, List.map_map]
    rfl

end Choices

/-! ## Listings that end well -/

namespace Listing

variable {f : Tuple → Listing} {L M : Listing} {ts us : List Tuple}

theorem append_eq_ofList (h : L ++ M = ofList ts) :
    ∃ us vs, L = ofList us ∧ M = ofList vs := by
  induction L generalizing ts with
  | nil => exact ⟨[], ts, rfl, h⟩
  | fail e => cases ts <;> cases h
  | cons t L ih =>
    cases ts with
    | nil => cases h
    | cons t' ts =>
      rw [cons_append, ofList, cons.injEq] at h
      obtain ⟨us, vs, rfl, rfl⟩ := ih h.2
      exact ⟨t :: us, vs, rfl, rfl⟩

/-- What is put together from listings ends well only if all of them do. -/
theorem flatMap_eq_ofList (h : L.flatMap f = ofList us) :
    ∃ ts, L = ofList ts ∧ ∀ t ∈ ts, ∃ vs, f t = ofList vs := by
  induction L generalizing us with
  | nil => exact ⟨[], rfl, by simp⟩
  | fail e => cases us <;> cases h
  | cons t L ih =>
    obtain ⟨vs, ws, hvs, hws⟩ := append_eq_ofList h
    obtain ⟨ts, rfl, hts⟩ := ih hws
    exact ⟨t :: ts, rfl, List.forall_mem_cons.2 ⟨⟨vs, hvs⟩, hts⟩⟩

theorem flatMap_ofList {g : Tuple → List Tuple} (h : ∀ t ∈ ts, f t = ofList (g t)) :
    (ofList ts).flatMap f = ofList (ts.flatMap g) := by
  induction ts with
  | nil => rfl
  | cons t ts ih =>
    obtain ⟨ht, hts⟩ := List.forall_mem_cons.1 h
    rw [ofList, flatMap_cons, ih hts, ht, List.flatMap_cons, ofList_append]

theorem append_flatMap (L M : Listing) (f : Tuple → Listing) :
    (L ++ M).flatMap f = L.flatMap f ++ M.flatMap f := by
  induction L with
  | nil => rfl
  | fail e => rfl
  | cons t L ih => rw [cons_append, flatMap_cons, flatMap_cons, ih, append_assoc]

theorem flatMap_flatMap (L : Listing) (f g : Tuple → Listing) :
    (L.flatMap f).flatMap g = L.flatMap fun t => (f t).flatMap g := by
  induction L with
  | nil => rfl
  | fail e => rfl
  | cons t L ih => rw [flatMap_cons, flatMap_cons, append_flatMap, ih]

theorem ofList_injective (h : ofList ts = ofList us) : ts = us := by
  rw [← rows_ofList ts, h, rows_ofList]

/-- The tuples that pass a test, where the test fails on none. -/
theorem keepIf_ofList {test : Tuple → Except Error Bool} (h : ∀ t ∈ ts, ∃ v, test t = .ok v) :
    (ofList ts).flatMap (fun t => keepIf (test t) t) = ofList (ts.filter (test · = .ok true)) := by
  induction ts with
  | nil => rfl
  | cons t ts ih =>
    obtain ⟨⟨v, hv⟩, hts⟩ := List.forall_mem_cons.1 h
    rw [ofList, flatMap_cons, ih hts, hv]
    cases v with
    | true =>
      rw [List.filter_cons_of_pos (by simp [hv])]
      rfl
    | false =>
      rw [List.filter_cons_of_neg (by simp [hv])]
      rfl

theorem keepIf_eq_ofList {test : Except Error Bool} {t : Tuple} (h : keepIf test t = ofList us) :
    ∃ v, test = .ok v := by
  cases test with
  | ok v => exact ⟨v, rfl⟩
  | error e => cases us <;> cases h

/-- A selection that ends well failed on no tuple of a listing that ended well. -/
theorem flatMap_keepIf_eq_ofList {test : Tuple → Except Error Bool}
    (h : (L.flatMap fun t => keepIf (test t) t) = ofList us) :
    ∃ ts, L = ofList ts ∧ (∀ t ∈ ts, ∃ v, test t = .ok v) ∧ us = ts.filter (test · = .ok true) := by
  obtain ⟨ts, hL, hts⟩ := flatMap_eq_ofList h
  have hok : ∀ t ∈ ts, ∃ v, test t = .ok v := by
    intro t ht
    obtain ⟨vs, hvs⟩ := hts t ht
    exact keepIf_eq_ofList hvs
  refine ⟨ts, hL, hok, ?_⟩
  rw [hL, keepIf_ofList hok] at h
  exact (ofList_injective h).symm

end Listing

theorem filter_decide_congr {α : Type} {p q : α → Prop} [DecidablePred p] [DecidablePred q]
    {xs : List α} (h : ∀ x ∈ xs, (p x ↔ q x)) : xs.filter (p ·) = xs.filter (q ·) := by
  refine List.filter_congr ?_
  intro x hx
  rw [decide_eq_decide]
  exact h x hx

/-! ## Sieves -/

/-- Whether all conjuncts are true for a choice. -/
def Passes (verdict : Expr → List Tuple → Except Error Bool) (es : List Expr) (cs : List Tuple) :
    Prop :=
  ∀ e ∈ es, verdict e cs = .ok true

instance (verdict : Expr → List Tuple → Except Error Bool) (es : List Expr) :
    DecidablePred (Passes verdict es) :=
  fun cs => inferInstanceAs (Decidable (∀ e ∈ es, verdict e cs = .ok true))

/-- Whether some conjunct is false for a choice. -/
def Fails (verdict : Expr → List Tuple → Except Error Bool) (es : List Expr) (cs : List Tuple) :
    Prop :=
  ∃ e ∈ es, verdict e cs = .ok false

/-- Whether a listing is what conjuncts leave of a product. That the conjuncts are safe is meant to
exclude that the listing ends in an error. -/
structure Sieved (verdict : Expr → List Tuple → Except Error Bool) (safe : Expr → Prop)
    (es : List Expr) (product : List (List Tuple)) (L : Listing) : Prop where
  rows_eq : ∀ ts, L = .ofList ts → ts = (product.filter (Passes verdict es)).map Tuple.concat
  decided : ∀ ts, L = .ofList ts → ∀ cs ∈ product, Passes verdict es cs ∨ Fails verdict es cs
  ends : (∀ e ∈ es, safe e) → ∃ ts, L = .ofList ts

/-- Whether conjuncts can be evaluated for a choice one after the other, up to the first that is not
true. -/
def Settles (verdict : Expr → List Tuple → Except Error Bool) (es : List Expr) (cs : List Tuple) :
    Prop :=
  ∃ v, conjoin (es.map (verdict · cs)) = .ok v

section Sieves

variable {verdict single : Expr → List Tuple → Except Error Bool} {safe : Expr → Prop}
  {es ds : List Expr} {product : List (List Tuple)} {rows : List Tuple} {L M : Listing}

theorem passes_append {cs : List Tuple} :
    Passes verdict (es ++ ds) cs ↔ Passes verdict es cs ∧ Passes verdict ds cs :=
  List.forall_mem_append

theorem Fails.append_left {cs : List Tuple} (h : Fails verdict es cs) :
    Fails verdict (es ++ ds) cs := by
  obtain ⟨e, he, hfalse⟩ := h
  exact ⟨e, List.mem_append_left _ he, hfalse⟩

theorem Fails.append_right {cs : List Tuple} (h : Fails verdict ds cs) :
    Fails verdict (es ++ ds) cs := by
  obtain ⟨e, he, hfalse⟩ := h
  exact ⟨e, List.mem_append_right _ he, hfalse⟩

theorem conjoin_eq_true_iff {cs : List Tuple} :
    conjoin (es.map (verdict · cs)) = .ok true ↔ Passes verdict es cs := by
  rw [(conjoins_conjoin _).true_iff, List.forall_mem_map]
  exact Iff.rfl

theorem passes_congr {cs cs' : List Tuple} (h : ∀ e ∈ es, verdict e cs = single e cs') :
    Passes verdict es cs ↔ Passes single es cs' :=
  forall₂_congr fun e he => by rw [h e he]

theorem settles_congr {cs cs' : List Tuple} (h : ∀ e ∈ es, verdict e cs = single e cs') :
    Settles verdict es cs ↔ Settles single es cs' := by
  unfold Settles
  rw [List.map_congr_left h]

/-- Further conjuncts are evaluated only if the first ones pass. -/
theorem settles_append {cs : List Tuple} :
    Settles verdict (es ++ ds) cs ↔
      Settles verdict es cs ∧ (Passes verdict es cs → Settles verdict ds cs) := by
  rw [← conjoin_eq_true_iff]
  unfold Settles
  rw [List.map_append, conjoin_append]
  cases conjoin (es.map (verdict · cs)) with
  | error e =>
    constructor
    · rintro ⟨v, hv⟩
      cases hv
    · rintro ⟨⟨v, hv⟩, -⟩
      cases hv
  | ok v =>
    cases v with
    | false =>
      refine ⟨fun _ => ⟨⟨false, rfl⟩, fun hpass => ?_⟩, fun _ => ⟨false, rfl⟩⟩
      cases hpass
    | true => exact ⟨fun h => ⟨⟨true, rfl⟩, fun _ => h⟩, fun h => h.2 rfl⟩

/-- The rows of one table before any selection. -/
theorem Sieved.table (verdict : Expr → List Tuple → Except Error Bool) (safe : Expr → Prop)
    (rows : List Tuple) : Sieved verdict safe [] (choices [rows]) (.ofList rows) where
  rows_eq := by
    intro ts hts
    rw [← Listing.ofList_injective hts, concat_choices_singleton, eq_comm, List.filter_eq_self]
    exact fun u _ => decide_eq_true (by simp [Passes])
  decided := by
    intro ts _ cs _
    exact .inl (by simp [Passes])
  ends := fun _ => ⟨rows, rfl⟩

/-- A sieve depends on the verdicts on its product only. -/
theorem Sieved.congr (h : Sieved single safe es product L)
    (heq : ∀ e ∈ es, ∀ cs ∈ product, verdict e cs = single e cs) :
    Sieved verdict safe es product L := by
  have hpasses : ∀ cs ∈ product, (Passes verdict es cs ↔ Passes single es cs) :=
    fun cs hcs => passes_congr fun e he => heq e he cs hcs
  refine ⟨?_, ?_, h.ends⟩
  · intro ts hts
    rw [h.rows_eq ts hts, filter_decide_congr hpasses]
  · intro ts hts cs hcs
    rw [hpasses cs hcs]
    rcases h.decided ts hts cs hcs with hpass | ⟨e, he, hfalse⟩
    · exact .inl hpass
    · exact .inr ⟨e, he, by rw [heq e he cs hcs, hfalse]⟩

/-- A selection sieves by the conjuncts of its predicate as well. -/
theorem Sieved.keep {test : Tuple → Except Error Bool} (h : Sieved verdict safe es product L)
    (htest : ∀ cs ∈ product, test (Tuple.concat cs) = conjoin (ds.map (verdict · cs)))
    (hsafe : ∀ e ∈ ds, safe e → ∀ cs ∈ product, ∃ v, verdict e cs = .ok v) :
    Sieved verdict safe (es ++ ds) product (L.flatMap fun t => .keepIf (test t) t) := by
  have hconjoins : ∀ cs ∈ product, Conjoins (test (Tuple.concat cs)) (ds.map (verdict · cs)) := by
    intro cs hcs
    rw [htest cs hcs]
    exact conjoins_conjoin _
  -- what the test says about a choice
  have hpasses : ∀ cs ∈ product, (test (Tuple.concat cs) = .ok true ↔ Passes verdict ds cs) := by
    intro cs hcs
    rw [htest cs hcs, conjoin_eq_true_iff]
  refine ⟨?_, ?_, ?_⟩
  · intro us hus
    obtain ⟨ts, hL, -, rfl⟩ := Listing.flatMap_keepIf_eq_ofList hus
    rw [h.rows_eq ts hL, List.filter_map, List.filter_filter]
    refine congrArg (List.map Tuple.concat) (List.filter_congr ?_)
    intro cs hcs
    show (decide (test (Tuple.concat cs) = .ok true) && decide (Passes verdict es cs)) = _
    rw [← Bool.decide_and, decide_eq_decide, passes_append, hpasses cs hcs]
    exact and_comm
  · intro us hus cs hcs
    obtain ⟨ts, hL, hok, -⟩ := Listing.flatMap_keepIf_eq_ofList hus
    rcases h.decided ts hL cs hcs with hpass | hfail
    · -- a choice that came through before was tested
      have hmem : Tuple.concat cs ∈ ts := by
        rw [h.rows_eq ts hL]
        exact List.mem_map_of_mem (List.mem_filter.2 ⟨hcs, decide_eq_true hpass⟩)
      obtain ⟨v, hv⟩ := hok _ hmem
      cases v with
      | true => exact .inl (passes_append.2 ⟨hpass, (hpasses cs hcs).1 hv⟩)
      | false =>
        obtain ⟨x, hx, hfalse⟩ := (hconjoins cs hcs).false_of hv
        obtain ⟨e, he, rfl⟩ := List.mem_map.1 hx
        exact .inr (Fails.append_right ⟨e, he, hfalse⟩)
    · exact .inr hfail.append_left
  · intro hall
    obtain ⟨hes, hds⟩ := List.forall_mem_append.1 hall
    obtain ⟨ts, hL⟩ := h.ends hes
    rw [hL, Listing.keepIf_ofList]
    · exact ⟨_, rfl⟩
    · intro t ht
      rw [h.rows_eq ts hL] at ht
      obtain ⟨cs, hcs, rfl⟩ := List.mem_map.1 ht
      have hmem := (List.mem_filter.1 hcs).1
      apply (hconjoins cs hmem).ok_of
      intro x hx
      obtain ⟨e, he, rfl⟩ := List.mem_map.1 hx
      exact hsafe e he (hds e he) cs hmem

/-- A selection ends well exactly when what it selects from does and its conjuncts can be evaluated
on all rows that came through before. -/
theorem Sieved.ends_keep_iff {test : Tuple → Except Error Bool}
    (h : Sieved verdict safe es product L)
    (htest : ∀ cs ∈ product, test (Tuple.concat cs) = conjoin (ds.map (verdict · cs))) :
    (∃ us, (L.flatMap fun t => .keepIf (test t) t) = .ofList us) ↔
      (∃ ts, L = .ofList ts) ∧ ∀ cs ∈ product, Passes verdict es cs → Settles verdict ds cs := by
  constructor
  · rintro ⟨us, hus⟩
    obtain ⟨ts, hL, hok, -⟩ := Listing.flatMap_keepIf_eq_ofList hus
    refine ⟨⟨ts, hL⟩, ?_⟩
    intro cs hcs hpass
    rw [Settles, ← htest cs hcs]
    apply hok
    rw [h.rows_eq ts hL]
    exact List.mem_map_of_mem (List.mem_filter.2 ⟨hcs, decide_eq_true hpass⟩)
  · rintro ⟨⟨ts, rfl⟩, hsettles⟩
    refine ⟨_, Listing.keepIf_ofList ?_⟩
    intro t ht
    rw [h.rows_eq ts rfl] at ht
    obtain ⟨cs, hcs, rfl⟩ := List.mem_map.1 ht
    obtain ⟨hmem, hpass⟩ := List.mem_filter.1 hcs
    rw [htest cs hmem]
    exact hsettles cs hmem (of_decide_eq_true hpass)

/-! ### Nested loops -/

/-- A nested loop without a predicate over listings that end well. -/
theorem pairs_none_ofList (ts us : List Tuple) :
    Plan.pairs none (.ofList ts) (.ofList us) =
      .ofList (ts.flatMap fun t => us.map fun u => t ++ u) := by
  apply Listing.flatMap_ofList
  intro t _
  rw [List.map_eq_flatMap]
  apply Listing.flatMap_ofList
  intro u _
  rfl

/-- A nested loop that ends well over a left side with a tuple has a right side that ends well. -/
theorem ofList_of_pairs_none {ts us : List Tuple} (hts : ts ≠ [])
    (h : Plan.pairs none (.ofList ts) M = .ofList us) : ∃ vs, M = .ofList vs := by
  obtain ⟨ts', hts', hinner⟩ := Listing.flatMap_eq_ofList h
  obtain rfl := Listing.ofList_injective hts'
  obtain ⟨t, ht⟩ := List.exists_mem_of_ne_nil ts hts
  obtain ⟨vs, hvs⟩ := hinner t ht
  obtain ⟨us', hM, -⟩ := Listing.flatMap_eq_ofList hvs
  exact ⟨us', hM⟩

/-- The joined choices that pass are those of which both parts do. -/
theorem filter_passes_cross
    (hleft : ∀ e ∈ es, ∀ cs ∈ product, ∀ u ∈ rows, verdict e (cs ++ [u]) = verdict e cs)
    (hright : ∀ e ∈ ds, ∀ cs ∈ product, ∀ u ∈ rows, verdict e (cs ++ [u]) = single e [u]) :
    (product.flatMap fun cs => rows.map fun u => cs ++ [u]).filter (Passes verdict (es ++ ds)) =
      (product.filter (Passes verdict es)).flatMap fun cs =>
        (rows.filter fun u => Passes single ds [u]).map fun u => cs ++ [u] := by
  have hjoined : ∀ cs ∈ product, ∀ u ∈ rows, (Passes verdict (es ++ ds) (cs ++ [u]) ↔
      Passes verdict es cs ∧ Passes single ds [u]) := by
    intro cs hcs u hu
    rw [passes_append]
    apply and_congr
    · exact passes_congr fun e he => hleft e he cs hcs u hu
    · exact passes_congr fun e he => hright e he cs hcs u hu
  clear hleft hright
  rw [List.filter_flatMap]
  induction product with
  | nil => rfl
  | cons cs product ih =>
    obtain ⟨hhead, htail⟩ := List.forall_mem_cons.1 hjoined
    rw [List.flatMap_cons, ih htail, List.filter_map]
    -- a choice on the left that does not pass takes all its pairs with it
    by_cases hcs : Passes verdict es cs
    · rw [List.filter_cons_of_pos (by simpa using hcs), List.flatMap_cons]
      apply congrArg (List.map _ · ++ _)
      apply List.filter_congr
      intro u hu
      show decide (Passes verdict (es ++ ds) (cs ++ [u])) = _
      rw [decide_eq_decide, hhead u hu]
      exact and_iff_right hcs
    · rw [List.filter_cons_of_neg (by simpa using hcs)]
      have hnone : rows.filter ((fun cs => decide (Passes verdict (es ++ ds) cs)) ∘
          fun u => cs ++ [u]) = [] := by
        apply List.filter_eq_nil_iff.2
        intro u hu
        simp only [Function.comp_apply, decide_eq_true_eq, hhead u hu]
        exact fun h => hcs h.1
      rw [hnone]
      rfl

/-- When a nested loop over a sieved listing ends well, that listing does, and so does the right
side unless nothing on the left passes. -/
theorem Sieved.sides (hL : Sieved verdict safe es product L) {xs : List Tuple}
    (hxs : Plan.pairs none L M = .ofList xs) :
    L = .ofList ((product.filter (Passes verdict es)).map Tuple.concat) ∧
      ((∃ cs ∈ product, Passes verdict es cs) → ∃ us, M = .ofList us) := by
  obtain ⟨ts, rfl, -⟩ := Listing.flatMap_eq_ofList hxs
  have hts := hL.rows_eq ts rfl
  refine ⟨congrArg Listing.ofList hts, ?_⟩
  rintro ⟨cs, hcs, hpass⟩
  refine ofList_of_pairs_none ?_ hxs
  rw [hts]
  refine List.ne_nil_of_mem (a := Tuple.concat cs) ?_
  exact List.mem_map_of_mem (List.mem_filter.2 ⟨hcs, decide_eq_true hpass⟩)

/-- A nested loop ends well exactly when its left side does, and its right side as well unless
nothing on the left passes. -/
theorem Sieved.ends_cross_iff (h : Sieved verdict safe es product L) :
    (∃ xs, Plan.pairs none L M = .ofList xs) ↔
      (∃ ts, L = .ofList ts) ∧ ((∃ cs ∈ product, Passes verdict es cs) → ∃ us, M = .ofList us) := by
  constructor
  · rintro ⟨xs, hxs⟩
    obtain ⟨hleft, hright⟩ := h.sides hxs
    exact ⟨⟨_, hleft⟩, hright⟩
  · rintro ⟨⟨ts, rfl⟩, hright⟩
    by_cases hsome : ∃ cs ∈ product, Passes verdict es cs
    · obtain ⟨us, rfl⟩ := hright hsome
      exact ⟨_, pairs_none_ofList ts us⟩
    · have hempty : ts = [] := by
        rw [h.rows_eq ts rfl, List.map_eq_nil_iff, List.filter_eq_nil_iff]
        intro cs hcs hpass
        exact hsome ⟨cs, hcs, of_decide_eq_true hpass⟩
      rw [hempty]
      exact ⟨[], rfl⟩

/-- **A nested loop over two sieved listings is sieved** by the conjuncts of both from the product
of both, where the right side is one table. -/
theorem Sieved.cross (hL : Sieved verdict safe es product L)
    (hM : Sieved single safe ds (choices [rows]) M)
    (hleft : ∀ e ∈ es, ∀ cs ∈ product, ∀ u ∈ rows, verdict e (cs ++ [u]) = verdict e cs)
    (hright : ∀ e ∈ ds, ∀ cs ∈ product, ∀ u ∈ rows, verdict e (cs ++ [u]) = single e [u]) :
    Sieved verdict safe (es ++ ds) (product.flatMap fun cs => rows.map fun u => cs ++ [u])
      (Plan.pairs none L M) := by
  refine ⟨?_, ?_, ?_⟩
  · intro xs hxs
    obtain ⟨hleftEnds, hrightEnds⟩ := hL.sides hxs
    rw [filter_passes_cross hleft hright]
    by_cases hnone : ∃ cs ∈ product, Passes verdict es cs
    · obtain ⟨us, rfl⟩ := hrightEnds hnone
      have hus : us = rows.filter fun u => Passes single ds [u] := by
        rw [hM.rows_eq us rfl, concat_choices_singleton]
      rw [hleftEnds, pairs_none_ofList] at hxs
      rw [← Listing.ofList_injective hxs, hus, List.flatMap_map, List.map_flatMap]
      simp only [List.map_map, Function.comp_def, Tuple.concat_append, Tuple.concat_singleton]
    · -- the right side was never looked at, so nothing is known about it
      have hempty : product.filter (Passes verdict es) = [] := by
        apply List.filter_eq_nil_iff.2
        intro cs hcs hpass
        exact hnone ⟨cs, hcs, of_decide_eq_true hpass⟩
      rw [hleftEnds, hempty] at hxs
      rw [hempty]
      have hnil : Listing.ofList [] = .ofList xs := hxs
      exact (Listing.ofList_injective hnil).symm
  · intro xs hxs joined hjoined
    obtain ⟨hleftEnds, hrightEnds⟩ := hL.sides hxs
    obtain ⟨cs, hcs, hmem⟩ := List.mem_flatMap.1 hjoined
    obtain ⟨u, hu, rfl⟩ := List.mem_map.1 hmem
    rcases hL.decided _ hleftEnds cs hcs with hpass | ⟨e, he, hfalse⟩
    · obtain ⟨us, hus⟩ := hrightEnds ⟨cs, hcs, hpass⟩
      have hsingle : [u] ∈ choices [rows] := by
        rw [choices_singleton]
        exact List.mem_map_of_mem hu
      rcases hM.decided us hus [u] hsingle with hpass' | ⟨e, he, hfalse⟩
      · left
        refine passes_append.2 ⟨?_, ?_⟩
        · intro e he
          rw [hleft e he cs hcs u hu]
          exact hpass e he
        · intro e he
          rw [hright e he cs hcs u hu]
          exact hpass' e he
      · exact .inr ⟨e, List.mem_append_right _ he, by rw [hright e he cs hcs u hu, hfalse]⟩
    · exact .inr ⟨e, List.mem_append_left _ he, by rw [hleft e he cs hcs u hu, hfalse]⟩
  · intro hall
    obtain ⟨hes, hds⟩ := List.forall_mem_append.1 hall
    obtain ⟨ts, rfl⟩ := hL.ends hes
    obtain ⟨us, rfl⟩ := hM.ends hds
    exact ⟨_, pairs_none_ofList ts us⟩

/-- A join is a nested loop with a selection on top. -/
theorem pairs_eq_keep (predicate : Option Predicate) (L M : Listing) :
    Plan.pairs predicate L M =
      (Plan.pairs none L M).flatMap fun t => .keepIf (accepts predicate t) t := by
  unfold Plan.pairs
  rw [Listing.flatMap_flatMap]
  apply congrArg (Listing.flatMap · L)
  funext t
  rw [Listing.flatMap_flatMap]
  apply congrArg (Listing.flatMap · M)
  funext u
  exact (Listing.append_nil _).symm

end Sieves

end FlatQuery
