import FlatQuery.Proofs.Dumping
import FlatQuery.Proofs.JoinTree
import Mathlib.Data.List.DropRight

set_option autoImplicit false

/-! # Stored output

What a tree writes can be read as a data file. A value is read back from its decimal text
(`Value.read?_text`) and a tuple from the line that stores it (`Tuple.read_text`), because no
character of a value separates values or lines. The lines of a dump are the tuples of the drain
(`dump_of_collect`, `linesOf_storedText`). The main result is `rescan_dump`: a scan of a file with
the dump yields the tuples again and then the end. -/

namespace FlatQuery

/-! ## Splitting and trimming -/

namespace Text

/-- Cutting at one element is the splitting of the library. -/
theorem splitWhere_eq_splitOn {α : Type} [BEq α] (a : α) (xs : List α) :
    splitWhere (· == a) xs = xs.splitOn a := by
  induction xs with
  | nil => rfl
  | cons x xs ih =>
    rw [splitWhere, List.splitOn_cons_eq_if_modifyHead, ih]
    by_cases hx : (x == a) = true
    · rw [if_pos hx, if_pos hx]
    · rw [if_neg hx, if_neg hx]
      cases hpieces : xs.splitOn a with
      | nil => exact absurd hpieces (List.splitOn_ne_nil a xs)
      | cons piece pieces => rfl

theorem trimEndWhere_eq_self {p : Char → Bool} {cs : List Char} (h : ∀ c ∈ cs, p c = false) :
    trimEndWhere p cs = cs := by
  refine List.rdropWhile_eq_self_iff.2 fun hne => ?_
  rw [h _ (List.getLast_mem hne)]
  exact Bool.false_ne_true

/-- A text without blank space stays as it is. -/
theorem trim_eq_self {cs : List Char} (h : ∀ c ∈ cs, isBlank c = false) : trim cs = cs := by
  have hstart : cs.dropWhile isBlank = cs := by
    refine List.dropWhile_eq_self_iff.2 fun hne => ?_
    rw [h _ (List.getElem_mem hne)]
    exact Bool.false_ne_true
  rw [trim, hstart, trimEndWhere_eq_self h]

/-! ## Decimal text -/

/-- The decimal digits of a number denote it. -/
theorem readNat?_toDigits (n : Nat) : readNat? (Nat.toDigits 10 n) = some n := by
  refine readNat?_eq_some_iff.2 ⟨Nat.toDigits_ne_nil, ?_, ?_⟩
  · intro c hc
    exact Nat.isDigit_of_mem_toDigits (by decide) (by decide) hc
  · exact (Nat.ofDigitChars_ten_toDigits).symm.trans Nat.ofDigitChars_eq_foldl

/-- Digits without a sign are read as they are. -/
theorem readInt?_of_readNat? {cs : List Char} {n : Nat} (h : readNat? cs = some n) :
    readInt? cs = some (n : Int) := by
  obtain ⟨-, hdigits, -⟩ := readNat?_eq_some_iff.1 h
  unfold readInt?
  split
  · exact absurd (hdigits '-' (List.mem_cons_self ..)) (by decide)
  · exact absurd (hdigits '+' (List.mem_cons_self ..)) (by decide)
  · rw [h]
    rfl

/-- The numerals of integers: one or more decimal digits, with or without a sign in front. -/
inductive Numeral : List Char → Int → Prop
  | unsigned {ds : List Char} (hne : ds ≠ []) (hdigits : ∀ d ∈ ds, d.isDigit = true) :
    Numeral ds (Nat.ofDigitChars 10 ds 0)
  | plus {ds : List Char} (hne : ds ≠ []) (hdigits : ∀ d ∈ ds, d.isDigit = true) :
    Numeral ('+' :: ds) (Nat.ofDigitChars 10 ds 0)
  | minus {ds : List Char} (hne : ds ≠ []) (hdigits : ∀ d ∈ ds, d.isDigit = true) :
    Numeral ('-' :: ds) (-(Nat.ofDigitChars 10 ds 0 : Int))

theorem digitsValue_eq (ds : List Char) : digitsValue ds = Nat.ofDigitChars 10 ds 0 :=
  Nat.ofDigitChars_eq_foldl.symm

theorem readNat?_eq_some_iff_ofDigitChars {ds : List Char} {k : Nat} : readNat? ds = some k ↔
    ds ≠ [] ∧ (∀ d ∈ ds, d.isDigit = true) ∧ k = Nat.ofDigitChars 10 ds 0 := by
  rw [readNat?_eq_some_iff, digitsValue_eq]

theorem readInt?_minus (ds : List Char) :
    readInt? ('-' :: ds) = (readNat? ds).map fun k => -Int.ofNat k := by
  rw [readInt?]
  cases readNat? ds <;> rfl

/-- What is read as an integer is its numerals. -/
theorem readInt?_eq_some_iff {cs : List Char} {n : Int} : readInt? cs = some n ↔ Numeral cs n := by
  constructor
  · intro h
    unfold readInt? at h
    split at h
    · next ds =>
      obtain ⟨k, hk, rfl⟩ := Option.map_eq_some_iff.1 ((readInt?_minus ds).symm.trans h)
      obtain ⟨hne, hdigits, rfl⟩ := readNat?_eq_some_iff_ofDigitChars.1 hk
      exact .minus hne hdigits
    · obtain ⟨k, hk, rfl⟩ := Option.map_eq_some_iff.1 h
      obtain ⟨hne, hdigits, rfl⟩ := readNat?_eq_some_iff_ofDigitChars.1 hk
      exact .plus hne hdigits
    · obtain ⟨k, hk, rfl⟩ := Option.map_eq_some_iff.1 h
      obtain ⟨hne, hdigits, rfl⟩ := readNat?_eq_some_iff_ofDigitChars.1 hk
      exact .unsigned hne hdigits
  · intro h
    cases h with
    | unsigned hne hdigits =>
      exact readInt?_of_readNat? (readNat?_eq_some_iff_ofDigitChars.2 ⟨hne, hdigits, rfl⟩)
    | plus hne hdigits =>
      rw [readInt?, readNat?_eq_some_iff_ofDigitChars.2 ⟨hne, hdigits, rfl⟩]
      rfl
    | minus hne hdigits =>
      rw [readInt?_minus, readNat?_eq_some_iff_ofDigitChars.2 ⟨hne, hdigits, rfl⟩]
      rfl

/-- Behind a minus sign stand the digits of the opposite number. -/
theorem Numeral.behind_minus {ds : List Char} {n m : Int} (h : Numeral ('-' :: ds) n) :
    Numeral ds m ↔ -m = n := by
  rw [← readInt?_eq_some_iff, readInt?_minus] at h
  obtain ⟨k, hk, rfl⟩ := Option.map_eq_some_iff.1 h
  rw [← readInt?_eq_some_iff, readInt?_of_readNat? hk, Option.some.injEq, Int.neg_inj]
  exact eq_comm

/-- The text of an integer: its digits, with a minus sign if it is negative. -/
theorem toList_toString_int (n : Int) :
    (toString n).toList =
      if 0 ≤ n then Nat.toDigits 10 n.toNat else '-' :: Nat.toDigits 10 (-n).toNat := by
  rw [Int.toString_eq_repr, Int.repr_eq_if]
  by_cases hn : 0 ≤ n
  · rw [if_pos hn, if_pos hn, Nat.toList_repr]
  · rw [if_neg hn, if_neg hn, String.toList_append, Nat.toList_repr]
    rfl

/-- An integer is read back from its text. -/
theorem readInt?_toString (n : Int) : readInt? (toString n).toList = some n := by
  rw [toList_toString_int]
  by_cases hn : 0 ≤ n
  · rw [if_pos hn, readInt?_of_readNat? (readNat?_toDigits _), Int.toNat_of_nonneg hn]
  · rw [if_neg hn, readInt?, readNat?_toDigits]
    show some (-((-n).toNat : Int)) = some n
    rw [Int.toNat_of_nonneg (by omega), Int.neg_neg]

/-! ## Characters of stored lines -/

/-- Whether a character lies in the run of code points that stored lines are made of, from the comma
to the digit nine. -/
def IsStored (c : Char) : Prop := 44 ≤ c.toNat ∧ c.toNat ≤ 57

theorem IsStored.isBlank {c : Char} (h : IsStored c) : isBlank c = false := by
  obtain ⟨hlow, hhigh⟩ := h
  simp only [Text.isBlank, Bool.or_eq_false_iff, Bool.and_eq_false_iff, decide_eq_false_iff_not,
    beq_eq_false_iff_ne]
  omega

theorem IsStored.ne {c : Char} (h : IsStored c) {d : Char} (hd : d.toNat < 44) : c ≠ d := by
  rintro rfl
  exact absurd h.1 (by omega)

end Text

open Text

/-! ## Values and tuples -/

namespace Value

/-- A value is read back from its text. -/
theorem read?_text (v : Value) : read? v.text.toList = some v := by
  rw [read?, text, readInt?_toString, Option.bind_some, ofInt?_toInt]

/-- What is read as a value is the numerals of integers in range. -/
theorem read?_eq_some_iff {cs : List Char} {v : Value} :
    read? cs = some v ↔ Numeral cs v.toInt := by
  simp only [read?, Option.bind_eq_some_iff, ofInt?_eq_some_iff, readInt?_eq_some_iff]
  exact ⟨fun ⟨n, hn, hv⟩ => hv ▸ hn, fun h => ⟨v.toInt, h, rfl⟩⟩

theorem isSome_read?_iff {cs : List Char} :
    (read? cs).isSome ↔ ∃ n, Numeral cs n ∧ InRange n := by
  simp only [Option.isSome_iff_exists, read?_eq_some_iff]
  constructor
  · rintro ⟨v, hv⟩
    exact ⟨v.toInt, hv, v.inRange_toInt⟩
  · rintro ⟨n, hn, hrange⟩
    exact ⟨Int64.ofInt n, (toInt_ofInt hrange).symm ▸ hn⟩

theorem toList_text_ne_nil (v : Value) : v.text.toList ≠ [] := by
  intro h
  have hread := read?_text v
  rw [h] at hread
  cases hread

/-- The text of a value has digits and a sign, and no comma. -/
theorem isStored_of_mem_text {v : Value} {c : Char} (h : c ∈ v.text.toList) :
    IsStored c ∧ c ≠ ',' := by
  have hdigit : ∀ n : Nat, c ∈ Nat.toDigits 10 n → IsStored c ∧ c ≠ ',' := by
    intro n hc
    have hisDigit := Nat.isDigit_of_mem_toDigits (by decide) (by decide) hc
    have hbounds := Char.isDigit_iff_toNat.1 hisDigit
    refine ⟨⟨Nat.le_trans (by decide) hbounds.1, hbounds.2⟩, ?_⟩
    rintro rfl
    exact absurd hbounds.1 (by decide)
  rw [text, toList_toString_int] at h
  by_cases hv : 0 ≤ v.toInt
  · rw [if_pos hv] at h
    exact hdigit _ h
  · rw [if_neg hv] at h
    rcases List.mem_cons.1 h with rfl | h
    · exact ⟨⟨by decide, by decide⟩, by decide⟩
    · exact hdigit _ h

end Value

namespace Tuple

theorem toList_text (t : Tuple) :
    t.text.toList = [','].intercalate (t.values.map fun v => v.text.toList) := by
  rw [text, String.toList_intercalate, List.map_map]
  rfl

/-- The line of a tuple has the characters of its values and commas. -/
theorem isStored_of_mem_text {t : Tuple} {c : Char} (h : c ∈ t.text.toList) : IsStored c := by
  rw [toList_text] at h
  obtain ⟨values⟩ := t
  induction values with
  | nil => simp at h
  | cons v values ih =>
    cases values with
    | nil =>
      rw [List.map_singleton, List.intercalate_singleton] at h
      exact (Value.isStored_of_mem_text h).1
    | cons w values =>
      rw [List.map_cons, List.map_cons, List.intercalate_cons_cons] at h
      rcases List.mem_append.1 h with h | h
      · rcases List.mem_append.1 h with h | h
        · exact (Value.isStored_of_mem_text h).1
        · obtain rfl := List.mem_singleton.1 h
          exact ⟨by decide, by decide⟩
      · exact ih h

/-- The pieces of the line of a tuple are the texts of its values. -/
theorem pieces_text {t : Tuple} (h : t.values ≠ []) :
    pieces t.text.toList = t.values.map fun v => v.text.toList := by
  have hcomma : ∀ piece ∈ t.values.map (fun v => v.text.toList), ',' ∉ piece := by
    intro piece hpiece hmem
    obtain ⟨v, -, rfl⟩ := List.mem_map.1 hpiece
    exact (Value.isStored_of_mem_text hmem).2 rfl
  have hne : t.values.map (fun v => v.text.toList) ≠ [] := by simpa using h
  rw [pieces, toList_text, splitWhere_eq_splitOn, List.splitOn_intercalate ',' hcomma hne,
    List.map_map]
  refine List.map_congr_left fun v _ => ?_
  exact trim_eq_self fun c hc => (Value.isStored_of_mem_text hc).1.isBlank

theorem mapM_readValue (values : List Value) :
    (values.map fun v => v.text.toList).mapM readValue = .ok values := by
  induction values with
  | nil => rfl
  | cons v values ih =>
    rw [List.map_cons, List.mapM_cons, ih, readValue, Value.read?_text]
    rfl

/-- **A tuple is read back from its line.** -/
theorem read_toList_text {t : Tuple} (h : 0 < t.length) : read t.text.toList = .ok t := by
  have hvalues : t.values ≠ [] := List.length_pos_iff.1 h
  have hreturns : trimEndWhere (· == '\r') t.text.toList = t.text.toList :=
    trimEndWhere_eq_self fun c hc => beq_false_of_ne ((isStored_of_mem_text hc).ne (by decide))
  have hblank : trim t.text.toList = t.text.toList :=
    trim_eq_self fun c hc => (isStored_of_mem_text hc).isBlank
  have hpieces := pieces_text hvalues
  -- A line without characters has one piece, which is the text of no value.
  have hne : t.text.toList.isEmpty = false := by
    rw [List.isEmpty_eq_false_iff]
    intro hnil
    obtain ⟨v, hv⟩ := List.exists_mem_of_ne_nil _ hvalues
    have hpiece := List.mem_map_of_mem (f := fun v : Value => v.text.toList) hv
    rw [← hpieces, hnil] at hpiece
    exact Value.toList_text_ne_nil v (List.mem_singleton.1 hpiece)
  simp only [read, hreturns, hblank, hne, hpieces, mapM_readValue]
  rfl

end Tuple

/-! ## Bytes -/

namespace Text

/-- The bytes that a text is stored as. -/
def bytes (s : String) : List UInt8 := s.toUTF8.data.toList

theorem bytes_append (s u : String) : bytes (s ++ u) = bytes s ++ bytes u := by
  simp only [bytes, String.toUTF8_eq_toByteArray, String.toByteArray_append, ByteArray.data_append,
    Array.toList_append]

/-- The bytes of stored characters are their code points. -/
theorem bytes_eq_map {s : String} (h : ∀ c ∈ s.toList, IsStored c) :
    bytes s = s.toList.map fun c => c.val.toUInt8 := by
  have hchar : ∀ c ∈ s.toList, String.utf8EncodeChar c = [c.val.toUInt8] := by
    intro c hc
    refine String.utf8EncodeChar_eq_singleton ?_
    rw [Char.utf8Size_eq_one_iff, UInt32.le_iff_toNat_le]
    exact Nat.le_trans (h c hc).2 (by decide)
  rw [bytes, String.toUTF8_eq_toByteArray, ← String.utf8Encode_toList, List.utf8Encode,
    List.toList_data_toByteArray, List.flatMap_congr hchar,
    ← List.map_eq_flatMap]

end Text

/-- A line is decoded to the text that its bytes store. -/
theorem decodeLine_bytes (s : String) : decodeLine (bytes s) = .ok s := by
  have harray : (⟨(bytes s).toArray⟩ : ByteArray) = s.toByteArray := rfl
  rw [decodeLine, harray, String.fromUTF8?, dif_pos s.isValidUTF8]
  rfl

/-- Lines that are terminated one by one are the lines of the whole. -/
theorem linesOf_flatMap {lines : List (List UInt8)}
    (h : ∀ line ∈ lines, (10 : UInt8) ∉ line ∧ (13 : UInt8) ∉ line) :
    linesOf (lines.flatMap (· ++ [10])) = lines := by
  unfold linesOf
  simp only [splitWhere_eq_splitOn]
  induction lines with
  | nil => rfl
  | cons line lines ih =>
    obtain ⟨⟨hfeed, hreturn⟩, hlines⟩ := List.forall_mem_cons.1 h
    have hlast : line.getLast? ≠ some 13 := fun hlast => hreturn (List.mem_of_getLast? hlast)
    have ih := ih hlines
    rw [List.flatMap_cons, List.append_assoc, List.singleton_append,
      List.splitOn_append_cons_self_of_not_mem hfeed]
    cases hpieces : (lines.flatMap (· ++ [10])).splitOn (10 : UInt8) with
    | nil => exact absurd hpieces (List.splitOn_ne_nil _ _)
    | cons piece pieces =>
      rw [hpieces] at ih
      rw [linesOfPieces, ih, dropReturn, if_neg hlast]

/-! ## Dumps -/

theorem bytes_storedText (ts : List Tuple) :
    bytes (storedText ts) = (ts.map fun t => bytes t.text).flatMap (· ++ [10]) := by
  induction ts with
  | nil => rfl
  | cons t ts ih =>
    have hrest : storedText (t :: ts) = t.text ++ "\n" ++ storedText ts := String.join_cons
    rw [hrest, bytes_append, bytes_append, ih, List.map_cons, List.flatMap_cons]
    rfl

/-- The lines of stored tuples are their texts. -/
theorem linesOf_storedText (ts : List Tuple) :
    linesOf (bytes (storedText ts)) = ts.map fun t => bytes t.text := by
  rw [bytes_storedText]
  refine linesOf_flatMap ?_
  intro line hline
  obtain ⟨t, -, rfl⟩ := List.mem_map.1 hline
  have hbytes := bytes_eq_map fun c hc => Tuple.isStored_of_mem_text (t := t) hc
  -- A control character is below all stored characters, and so is its byte.
  have hcontrol : ∀ b : UInt8, b.toNat < 44 → b ∉ bytes t.text := by
    intro b hb hmem
    rw [hbytes] at hmem
    obtain ⟨c, hc, rfl⟩ := List.mem_map.1 hmem
    obtain ⟨hlow, hhigh⟩ := Tuple.isStored_of_mem_text hc
    rw [UInt32.toNat_toUInt8] at hb
    have hval : c.val.toNat = c.toNat := rfl
    omega
  exact ⟨hcontrol 10 (by decide), hcontrol 13 (by decide)⟩

namespace Plan

variable {fs : FileStore} {p : Plan}

/-- The tuples of a drain are what a dump writes, one a line. -/
theorem dump_of_collect {s : p.State} {ts : List Tuple} (h : (p.collect fs s).1 = .ok ts) :
    (p.dump fs (.fresh none true) s).1 = .ok ts.length ∧
      (p.dump fs (.fresh none true) s).2.1.text = storedText ts := by
  rw [collect_eq_stream, Listing.outcome_eq_ok_iff] at h
  obtain ⟨hanswer, hsink⟩ := dump_eq_stream fs p (.fresh none true) s
  have hall : (Sink.fresh none true).Takes ts.length := nofun
  rw [h, Listing.rows_ofList] at hsink
  rw [hanswer, hsink, h, Sink.text_holding, Sink.fitting_of_takes hall]
  refine ⟨Sink.answer_eq_ok_iff.2 ⟨?_, Listing.ending_ofList ts, hall, rfl⟩, rfl⟩
  rw [Listing.rows_ofList]

end Plan

/-! ## Stored tuples -/

/-- Whether a path leads to a file with some content. -/
structure FileStore.Stores (fs : FileStore) (path : String) (content : List UInt8) : Prop where
  located : ∃ l, fs.locate path = .ok l ∧ fs.entry? l = some (.file content)
  /-- A path that ends in a separator leads to directories only. -/
  file : path.toList.getLast? ≠ some '/'

theorem FileStore.Stores.openFile {fs : FileStore} {path : String} {content : List UInt8}
    (h : fs.Stores path content) : fs.openFile path = .ok (.lines (linesOf content)) := by
  obtain ⟨⟨l, hlocate, hentry⟩, hfile⟩ := h
  simp only [FileStore.openFile, hlocate, bind, Except.bind, hentry, if_neg hfile]
  rfl

/-- A file with stored tuples holds them, if each has a value for each column. -/
theorem Source.holds_of_stores {fs : FileStore} {s : Source} {ts : List Tuple}
    (h : fs.Stores s.path (bytes (storedText ts))) (hcolumns : 0 < s.schema.length)
    (hwidths : ∀ t ∈ ts, t.length = s.schema.length) : s.Holds fs ts := by
  refine ⟨_, h.openFile, ?_⟩
  rw [LineSource.toList, linesOf_storedText, List.map_map, List.forall₂_map_left_iff,
    List.forall₂_same]
  intro t ht
  have hlength := hwidths t ht
  exact ⟨t.text, decodeLine_bytes t.text, Tuple.read_toList_text (by omega), hlength⟩

/-- A reader collects what it lists. -/
theorem Reader.collect_eq_outcome (r : Reader) : r.collect.1 = r.listing.outcome := by
  have hfollows := r.follows_step .nil
  unfold Reader.step at hfollows
  fun_induction Reader.collect r with
  | case1 r r' h =>
    rw [h] at hfollows
    have hrest : r.listing = .nil := hfollows.1
    rw [hrest]
    rfl
  | case2 r e r' h =>
    rw [h] at hfollows
    have hrest : r.listing = .fail e := hfollows
    rw [hrest]
    rfl
  | case3 r t r' h rest last hcollect ih =>
    rw [h] at hfollows
    have hrest : r.listing = .cons t r'.listing := hfollows.1
    have ih := ih (r'.follows_step .nil)
    rw [hcollect] at ih
    rw [hrest, Listing.outcome_cons, ← ih]

namespace Plan

variable {fs : FileStore} {p : Plan}

/-- Whether the file at a path gives back some tuples that were written to it as `text`. -/
structure Restores (fs : FileStore) (path table : String) (schema : Schema) (ts : List Tuple)
    (text : String) : Prop where
  /-- The pulls of a scan answer the tuples in order, and then the end. -/
  pulls : (scanFile table schema path).pulls fs (ts.length + 1) (scanFile table schema path).start =
    ts.map (fun t => .ok (some t)) ++ [.ok none]
  /-- A dump of the scan writes the same text. -/
  dump : ((scanFile table schema path).dump fs (.fresh none true)
    (scanFile table schema path).start).2.1.text = text
  /-- A reader of the same arity collects the tuples. -/
  reader : ∃ r, Reader.openFile fs path (some schema.length) = .ok r ∧ r.collect.1 = .ok ts

theorem restores_of_stores {path : String} (table : String) {schema : Schema} {ts : List Tuple}
    (h : fs.Stores path (bytes (storedText ts))) (hcolumns : 0 < schema.length)
    (hwidths : ∀ t ∈ ts, t.length = schema.length) :
    Restores fs path table schema ts (storedText ts) := by
  have hholds : Source.Holds fs ⟨table, table, schema, path⟩ ts :=
    Source.holds_of_stores h hcolumns hwidths
  have hlisting : (scanFile table schema path).listing fs = .ofList ts := hholds.listing_scan
  have hopen : (scanFile table schema path).Opens fs := by
    intro path' hpath
    obtain rfl := List.mem_singleton.1 hpath
    exact hholds.isOk_openFile
  have hpulls := pulls_eq_answers hopen (scanFile table schema path).start
  rw [outlook_start, hlisting, Listing.rows_ofList, Listing.answers, Listing.rows_ofList,
    Listing.ending_ofList] at hpulls
  have hcollect : ((scanFile table schema path).collect fs (scanFile table schema path).start).1 =
      .ok ts := by
    rw [collect_start hopen, hlisting, Listing.outcome_ofList]
  have hreader : openScan fs schema path =
      .ok ⟨path, .lines (linesOf (bytes (storedText ts))), 0, some schema.length⟩ := by
    rw [openScan, Reader.openFile, h.openFile]
  have hfile : Listing.ofFile fs schema path = .ofList ts := hlisting
  refine ⟨hpulls, (dump_of_collect hcollect).2, _, hreader, ?_⟩
  rw [Reader.collect_eq_outcome, listing_of_openScan hreader, hfile, Listing.outcome_ofList]

/-- **Output is valid storage.** Where a drain succeeds, a dump writes its tuples, one a line; a
file with that text gives back exactly these tuples to a scan or a reader with as many columns, and
the dump of the scan is the same text. In particular each tuple with a value is read back from its
line. -/
theorem rescan_dump {s : p.State} {ts : List Tuple} (h : (p.collect fs s).1 = .ok ts)
    (hcolumns : 0 < p.schema.length) (hwidths : ∀ t ∈ ts, t.length = p.schema.length) :
    (p.dump fs (.fresh none true) s).1 = .ok ts.length ∧
      (∀ (fs' : FileStore) (path table : String) (schema : Schema),
        fs'.Stores path (bytes (p.dump fs (.fresh none true) s).2.1.text) →
        schema.length = p.schema.length →
        Restores fs' path table schema ts (p.dump fs (.fresh none true) s).2.1.text) ∧
      ∀ t : Tuple, 0 < t.length → Tuple.read t.text.toList = .ok t := by
  obtain ⟨hcount, htext⟩ := dump_of_collect h
  rw [htext]
  refine ⟨hcount, ?_, fun t => Tuple.read_toList_text⟩
  intro fs' path table schema hstores hschema
  rw [← hschema] at hcolumns hwidths
  exact restores_of_stores table hstores hcolumns hwidths

/-! ### The least and the greatest value -/

/-- The tuples with the least and the greatest value. -/
def extremeRows : List Tuple :=
  [⟨[-9223372036854775808, 9223372036854775807]⟩, ⟨[9223372036854775807, -9223372036854775808]⟩]

/-- A sort of these tuples, in reverse order. -/
def extremeSort : Plan := (values ⟨[⟨"V", "A"⟩, ⟨"V", "B"⟩]⟩ extremeRows.reverse).sortAll

/-- A store with the dump of the sort. -/
def extremeStore : FileStore :=
  FileStore.empty.write "T"
    (bytes (extremeSort.dump .empty (.fresh none true) extremeSort.start).2.1.text)

/-- The sorted tuples come back from the file. -/
theorem rescan_dump_extremes :
    (extremeSort.collect .empty extremeSort.start).1 = .ok extremeRows ∧
      (scanFile "T" extremeSort.schema "T").pulls extremeStore 3
          (scanFile "T" extremeSort.schema "T").start =
        extremeRows.map (fun t => .ok (some t)) ++ [.ok none] := by
  have hcollect : (extremeSort.collect .empty extremeSort.start).1 = .ok extremeRows := by
    rw [collect_start (by decide)]
    decide +kernel
  have hstores : extremeStore.Stores "T"
      (bytes (extremeSort.dump .empty (.fresh none true) extremeSort.start).2.1.text) :=
    ⟨⟨⟨false, ["T"]⟩, by decide, rfl⟩, by decide⟩
  refine ⟨hcollect, ?_⟩
  have hrescan := (rescan_dump hcollect (by decide) (by decide)).2.1
  exact (hrescan extremeStore "T" "T" _ hstores rfl).pulls

end Plan

end FlatQuery
