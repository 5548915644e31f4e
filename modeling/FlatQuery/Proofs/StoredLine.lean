import FlatQuery.Proofs.Storage

set_option autoImplicit false

/-! # The grammar of stored lines

Which lines are read as tuples, and what the others are refused for. A piece between commas stands
for a value if it is a numeral of a number in range, with blank space around it or without
(`Text.IsValue`). Carriage returns at the end of a line are blank, so dropping them first has no
effect (`Tuple.read_eq`). The main result is `read_numerals`. -/

namespace FlatQuery

namespace Text

/-! ## Cutting a list -/

/-- A list without a separator, or one cut at its first separator. -/
theorem cut_induction {α : Type} (a : α) {P : List α → Prop} (piece : ∀ xs, a ∉ xs → P xs)
    (cut : ∀ xs ys, a ∉ xs → P ys → P (xs ++ a :: ys)) (xs : List α) : P xs := by
  by_cases h : a ∈ xs
  · obtain ⟨before, after, rfl, hbefore⟩ := List.eq_append_cons_of_mem h
    exact cut before after hbefore (cut_induction a piece cut after)
  · exact piece xs h
termination_by xs.length

/-- What is appended behind the last separator belongs to the last piece. -/
theorem map_splitOn_append {α β : Type} [BEq α] [LawfulBEq α] {a : α} {f : List α → β}
    {ys : List α} (hys : a ∉ ys) (hf : ∀ piece, f (piece ++ ys) = f piece) (xs : List α) :
    ((xs ++ ys).splitOn a).map f = (xs.splitOn a).map f := by
  induction xs using cut_induction a with
  | piece xs hxs =>
    have hboth : a ∉ xs ++ ys := by simp [hxs, hys]
    rw [List.splitOn_eq_singleton hboth, List.splitOn_eq_singleton hxs, List.map_singleton,
      List.map_singleton, hf]
  | cut xs zs hxs ih =>
    rw [List.append_assoc, List.cons_append, List.splitOn_append_cons_self_of_not_mem hxs,
      List.splitOn_append_cons_self_of_not_mem hxs, List.map_cons, List.map_cons, ih]

/-! ## Blank space -/

/-- Whether a text holds blank space only. -/
def OnlyBlank (cs : List Char) : Prop := ∀ c ∈ cs, isBlank c = true

instance (cs : List Char) : Decidable (OnlyBlank cs) := inferInstanceAs (Decidable (∀ c ∈ cs, _))

/-- Nothing is left of a text exactly when it is blank. -/
theorem trim_eq_nil_iff {cs : List Char} : trim cs = [] ↔ OnlyBlank cs := by
  have htrim : trim cs = (cs.dropWhile isBlank).rdropWhile isBlank := rfl
  rw [htrim, List.rdropWhile_eq_nil_iff]
  constructor
  · intro h
    by_contra hnot
    have hne : cs.dropWhile isBlank ≠ [] := fun hnil => hnot (List.dropWhile_eq_nil_iff.1 hnil)
    have hhead := List.head_dropWhile_not isBlank hne
    rw [h _ (List.head_mem hne)] at hhead
    cases hhead
  · intro h c hc
    exact h c ((List.dropWhile_sublist isBlank).mem hc)

/-- Blank space at the end is dropped. -/
theorem trim_append {ys : List Char} (hys : OnlyBlank ys) (xs : List Char) :
    trim (xs ++ ys) = trim xs := by
  have hend (zs : List Char) : trimEndWhere isBlank (zs ++ ys) = trimEndWhere isBlank zs := by
    rw [trimEndWhere, List.reverse_append, List.dropWhile_append_of_pos, trimEndWhere]
    intro c hc
    exact hys c (List.mem_reverse.1 hc)
  rw [trim, List.dropWhile_append]
  by_cases hxs : (xs.dropWhile isBlank).isEmpty = true
  · rw [if_pos hxs, List.dropWhile_eq_nil_iff.2 hys, trim, List.isEmpty_iff.1 hxs]
  · rw [if_neg hxs, hend, trim]

/-! ## Values -/

/-- Whether a piece stands for a value: it is a numeral of a number in range, with blank space at
its ends or without. -/
def IsValue (piece : List Char) : Prop := ∃ n, Numeral (trim piece) n ∧ Value.InRange n

theorem isValue_iff {piece : List Char} :
    IsValue piece ↔ ∃ v : Value, Numeral (trim piece) v.toInt := by
  rw [IsValue, ← Value.isSome_read?_iff, Option.isSome_iff_exists]
  simp only [Value.read?_eq_some_iff]

end Text

open Text

namespace Tuple

variable {line : List Char} {t : Tuple} {e : ReadError}

/-! ## Reading -/

theorem readValue_eq_ok_iff {piece : List Char} {v : Value} :
    readValue (trim piece) = .ok v ↔ Numeral (trim piece) v.toInt := by
  rw [← Value.read?_eq_some_iff, readValue]
  cases Value.read? (trim piece) with
  | none => simp
  | some w => simp

theorem readValue_eq_error_iff {piece : List Char} :
    readValue (trim piece) = .error e ↔ ¬ IsValue piece ∧ e = .invalidInteger (trim piece) := by
  rw [isValue_iff]
  simp only [← Value.read?_eq_some_iff, readValue]
  cases Value.read? (trim piece) with
  | none => simp [eq_comm]
  | some w => simp

/-- The carriage returns at the end of a line are blank and do not separate pieces. -/
theorem exists_returns (line : List Char) :
    ∃ returns, trimEndWhere (· == '\r') line ++ returns = line ∧ ',' ∉ returns ∧
      OnlyBlank returns := by
  have hreturns : ∀ c ∈ line.rtakeWhile (· == '\r'), c = '\r' := by
    intro c hc
    have hc := List.mem_rtakeWhile_imp hc
    exact beq_iff_eq.1 hc
  refine ⟨line.rtakeWhile (· == '\r'), List.rdropWhile_append_rtakeWhile, ?_, ?_⟩
  · intro hcomma
    exact absurd (hreturns _ hcomma) (by decide)
  · intro c hc
    rw [hreturns c hc]
    decide

theorem pieces_trimEndWhere (line : List Char) :
    pieces (trimEndWhere (· == '\r') line) = (line.splitOn ',').map trim := by
  obtain ⟨returns, hline, hcomma, hblank⟩ := exists_returns line
  rw [pieces, splitWhere_eq_splitOn, ← map_splitOn_append hcomma (trim_append hblank), hline]

theorem trim_trimEndWhere (line : List Char) :
    trim (trimEndWhere (· == '\r') line) = trim line := by
  obtain ⟨returns, hline, -, hblank⟩ := exists_returns line
  rw [← trim_append hblank, hline]

/-- A line is refused if it is blank, and otherwise its pieces are read one after the other. -/
theorem read_eq (line : List Char) :
    read line = if OnlyBlank line then .error .emptyLine
      else (((line.splitOn ',').map trim).mapM readValue).map mk := by
  have hblank : (trim (trimEndWhere (· == '\r') line)).isEmpty = true ↔ OnlyBlank line := by
    rw [trim_trimEndWhere, List.isEmpty_iff, trim_eq_nil_iff]
  simp only [read, hblank, pieces_trimEndWhere]

/-- What is read from a line: the numbers of its pieces, in order. -/
theorem read_eq_ok_iff : read line = .ok t ↔ ¬ OnlyBlank line ∧
    List.Forall₂ (fun piece v => Numeral (trim piece) v.toInt) (line.splitOn ',') t.values := by
  obtain ⟨values⟩ := t
  rw [read_eq]
  by_cases hblank : OnlyBlank line
  · simp [hblank]
  · have hvalues : (((line.splitOn ',').map trim).mapM readValue).map mk = .ok ⟨values⟩ ↔
        ((line.splitOn ',').map trim).mapM readValue = .ok values := by
      cases ((line.splitOn ',').map trim).mapM readValue <;> simp [Except.map]
    rw [if_neg hblank, hvalues, mapM_eq_ok_iff, List.forall₂_map_left_iff]
    simp only [readValue_eq_ok_iff, hblank, not_false_eq_true, true_and]

/-- What a line is refused for, as the message says it. -/
inductive Refused (line : List Char) : String → Prop
  /-- The line is blank. -/
  | blank (h : OnlyBlank line) : Refused line "empty line"
  /-- One of its pieces is the first that stands for no value. -/
  | piece {before after : List (List Char)} {piece : List Char} (hline : ¬ OnlyBlank line)
    (hsplit : line.splitOn ',' = before ++ piece :: after) (hbefore : ∀ q ∈ before, IsValue q)
    (hpiece : ¬ IsValue piece) :
    Refused line ("invalid integer " ++ String.ofList (quoted (trim piece)))

theorem refused_of_read (h : read line = .error e) : Refused line e.message := by
  rw [read_eq] at h
  by_cases hblank : OnlyBlank line
  · rw [if_pos hblank] at h
    cases h
    exact .blank hblank
  · have hpieces : ((line.splitOn ',').map trim).mapM readValue = .error e := by
      rw [if_neg hblank] at h
      cases hvalues : ((line.splitOn ',').map trim).mapM readValue with
      | error e' =>
        rw [hvalues] at h
        cases h
        rfl
      | ok values =>
        rw [hvalues] at h
        cases h
    rw [List.mapM_map] at hpieces
    obtain ⟨before, piece, after, hsplit, hbefore, hstop⟩ := exists_of_mapM_error hpieces
    obtain ⟨hpiece, rfl⟩ := readValue_eq_error_iff.1 hstop
    refine .piece hblank hsplit (fun q hq => ?_) hpiece
    obtain ⟨v, hv⟩ := hbefore q hq
    exact isValue_iff.2 ⟨v, readValue_eq_ok_iff.1 hv⟩

/-- A line that is read has as many values as pieces, and so at least one. -/
theorem values_ne_nil_of_read (h : read line = .ok t) : t.values ≠ [] := by
  have hlength := (read_eq_ok_iff.1 h).2.length_eq
  rw [Ne, ← List.length_eq_zero_iff, ← hlength, List.length_eq_zero_iff]
  exact List.splitOn_ne_nil ',' line

/-- A line is read exactly when it is not blank and each of its pieces stands for a value. -/
theorem exists_read_iff :
    (∃ t, read line = .ok t) ↔ ¬ OnlyBlank line ∧ ∀ piece ∈ line.splitOn ',', IsValue piece := by
  constructor
  · rintro ⟨t, ht⟩
    obtain ⟨hblank, hvalues⟩ := read_eq_ok_iff.1 ht
    refine ⟨hblank, fun piece hpiece => ?_⟩
    obtain ⟨k, hk⟩ := List.getElem?_of_mem hpiece
    obtain ⟨v, -, hv⟩ := forall₂_getElem? hvalues hk
    exact isValue_iff.2 ⟨v, hv⟩
  · rintro ⟨hblank, hpieces⟩
    cases hread : read line with
    | ok t => exact ⟨t, rfl⟩
    | error e =>
      have hrefused := refused_of_read hread
      generalize e.message = m at hrefused
      cases hrefused with
      | blank h => exact absurd h hblank
      | piece _ hsplit _ hpiece => exact absurd (hpieces _ (by simp [hsplit])) hpiece

/-- **The grammar of stored lines.** A line is read exactly when it is not blank and each piece
between its commas is a numeral in range, with blank space around it or without. It is read as the
numbers of its pieces, in order, and the line written for them is read as the same tuple, which is
written as the same line. Otherwise it is refused as blank, or for the first piece that is no such
numeral. -/
theorem read_numerals (line : List Char) :
    ((∃ t, read line = .ok t) ↔
        ¬ OnlyBlank line ∧ ∀ piece ∈ line.splitOn ',', IsValue piece) ∧
      match read line with
      | .ok t =>
        List.Forall₂ (fun piece v => Numeral (trim piece) v.toInt) (line.splitOn ',') t.values ∧
          t.values ≠ [] ∧ read t.text.toList = .ok t ∧
          (read t.text.toList).map text = .ok t.text
      | .error e => Refused line e.message := by
  refine ⟨exists_read_iff, ?_⟩
  cases h : read line with
  | ok t =>
    have hvalues := values_ne_nil_of_read h
    have hback : read t.text.toList = .ok t := read_toList_text (List.length_pos_iff.2 hvalues)
    refine ⟨(read_eq_ok_iff.1 h).2, hvalues, hback, ?_⟩
    rw [hback]
    rfl
  | error e => exact refused_of_read h

-- a sign, leading zeros and blank space of any kind, and the least value
example : read " +007,\t-9223372036854775808 \r".toList = .ok ⟨[7, -9223372036854775808]⟩ := by decide

end Tuple

end FlatQuery
