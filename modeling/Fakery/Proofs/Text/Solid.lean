import Fakery.Text.Alphabet
import Fakery.Text.Blank
import Mathlib.Tactic

/-!
# Solid characters

The characters of a text that are no white space, by place and in sequence.  Blank
stretches of a text can be crossed without meeting one.
-/

namespace Fakery

/-- A character of a text that is no white space stands at an offset. -/
def Solid (text : List Char) (i : Nat) : Prop :=
  ∃ c, text[i]? = some c ∧ Text.isBlank c = false

namespace Text

theorem takeWhile_eq_left {p : Char → Bool} {kept rest : List Char}
    (hkept : ∀ c ∈ kept, p c = true) (hrest : ∀ c, rest.head? = some c → p c = false) :
    (kept ++ rest).takeWhile p = kept := by
  rw [List.takeWhile_append_of_pos hkept]
  cases rest with
  | nil => simp
  | cons c rest => simp [hrest c rfl]

theorem length_takeWhile_le {p : Char → Bool} {cs : List Char} {i : Nat} {c : Char}
    (hc : cs[i]? = some c) (hstop : p c = false) : (cs.takeWhile p).length ≤ i := by
  induction cs generalizing i with
  | nil => simp
  | cons d rest ih =>
      cases i with
      | zero =>
          cases hc
          simp [hstop]
      | succ i =>
          have hrest := ih hc
          by_cases hd : p d <;> simp [hd, hrest]

/-- The characters of a text that are no white space, in order. -/
def solids (cs : List Char) : List Char :=
  cs.filter fun c => !isBlank c

@[simp]
theorem solids_nil : solids [] = [] := rfl

@[simp]
theorem solids_append (left right : List Char) :
    solids (left ++ right) = solids left ++ solids right :=
  List.filter_append ..

theorem solids_eq_nil {cs : List Char} : solids cs = [] ↔ isBlankText cs = true := by
  simp [solids, isBlankText]

theorem slice_append_slice (cs : List Char) {a b c : Nat} (hab : a ≤ b) (hbc : b ≤ c) :
    slice cs a b ++ slice cs b c = slice cs a c := by
  have hb : slice cs a b = (slice cs a c).take (b - a) := by
    simp only [slice, List.take_drop, List.take_take]
    congr 2
    omega
  have hc : slice cs b c = (slice cs a c).drop (b - a) := by
    simp only [slice, List.drop_drop]
    congr 1
    omega
  rw [hb, hc, List.take_append_drop]

theorem slice_append_drop (cs : List Char) {a b : Nat} (hab : a ≤ b) :
    slice cs a b ++ cs.drop b = cs.drop a := by
  have hsplit := slice_append_slice cs hab (Nat.le_max_left b cs.length)
  have hrest : ∀ i, slice cs i (max b cs.length) = cs.drop i := by
    intro i
    rw [slice, List.take_of_length_le (Nat.le_max_right ..)]
  rwa [hrest, hrest] at hsplit

theorem take_append_slice (cs : List Char) {a b : Nat} (hab : a ≤ b) :
    cs.take a ++ slice cs a b = cs.take b :=
  slice_append_slice cs (Nat.zero_le a) hab

theorem slice_add (cs : List Char) (a n : Nat) : slice cs a (a + n) = (cs.drop a).take n :=
  List.take_drop.symm

theorem getElem?_slice (cs : List Char) {a b i : Nat} (hi : a + i < b) :
    (slice cs a b)[i]? = cs[a + i]? := by
  rw [slice, List.getElem?_drop, List.getElem?_take_of_lt hi]

theorem mem_slice {cs : List Char} {c : Char} {a b i : Nat} (hi : cs[i]? = some c) (ha : a ≤ i)
    (hb : i < b) : c ∈ slice cs a b := by
  refine List.mem_of_getElem? (i := i - a) ?_
  rw [getElem?_slice cs (by omega), Nat.add_sub_of_le ha, hi]

theorem slice_succ (cs : List Char) (i : Nat) : slice cs i (i + 1) = cs[i]?.toList := by
  rw [slice, List.take_add_one, List.drop_append]
  rcases Nat.lt_or_ge i cs.length with hlt | hge
  · simp [hlt.le]
  · simp [hge]

/-- A stretch of a text, character by character. -/
theorem flatMap_range' (cs : List Char) (a n : Nat) :
    (List.range' a n).flatMap (fun i => cs[i]?.toList) = slice cs a (a + n) := by
  induction n with
  | zero => simp [slice]
  | succ n ih =>
      rw [List.range'_1_concat, List.flatMap_append, ih, List.flatMap_singleton, ← slice_succ,
        slice_append_slice cs (Nat.le_add_right a n) (Nat.le_succ _)]
      rfl

/-- A stretch of a text is blank if no solid character stands in it. -/
theorem isBlankText_slice {cs : List Char} {a b : Nat} :
    isBlankText (slice cs a b) = true ↔ ∀ i, a ≤ i → i < b → ¬ Solid cs i := by
  simp only [isBlankText, List.all_eq_true]
  constructor
  · rintro hblank i hai hib ⟨c, hc, hsolid⟩
    rw [hblank c (mem_slice hc hai hib)] at hsolid
    exact absurd hsolid (by simp)
  · intro hnone c hc
    obtain ⟨i, hi⟩ := List.mem_iff_getElem?.1 hc
    have hlt : a + i < b := by
      have hlength := (List.getElem?_eq_some_iff.1 hi).1
      simp only [slice, List.length_drop, List.length_take] at hlength
      omega
    rw [getElem?_slice cs hlt] at hi
    by_contra hsolid
    exact hnone (a + i) (by omega) hlt ⟨c, hi, Bool.eq_false_iff.2 hsolid⟩

/-- A solid character in front of the end of a blank stretch is in front of its start. -/
theorem lt_of_solid {cs : List Char} {a b i : Nat} (hblank : isBlankText (slice cs a b) = true)
    (hsolid : Solid cs i) (hi : i < b) : i < a := by
  by_contra hge
  exact isBlankText_slice.1 hblank i (Nat.le_of_not_lt hge) hi hsolid

/-- A solid character behind the start of a blank stretch is behind its end. -/
theorem le_of_solid {cs : List Char} {a b i : Nat} (hblank : isBlankText (slice cs a b) = true)
    (hsolid : Solid cs i) (hi : a ≤ i) : b ≤ i := by
  by_contra hlt
  exact isBlankText_slice.1 hblank i hi (Nat.lt_of_not_le hlt) hsolid

/-- How many solid characters stand before an offset. -/
def solidCount (cs : List Char) (i : Nat) : Nat :=
  (solids (cs.take i)).length

theorem solids_take_add (cs : List Char) {a b : Nat} (hab : a ≤ b) :
    solids (cs.take b) = solids (cs.take a) ++ solids (slice cs a b) := by
  rw [← solids_append, take_append_slice cs hab]

/-- Crossing a blank stretch meets no solid character. -/
theorem solidCount_eq {cs : List Char} {a b : Nat} (hab : a ≤ b)
    (hblank : isBlankText (slice cs a b) = true) : solidCount cs a = solidCount cs b := by
  rw [solidCount, solidCount, solids_take_add cs hab, solids_eq_nil.2 hblank, List.append_nil]

theorem take_solidCount (cs : List Char) (i : Nat) :
    (solids cs).take (solidCount cs i) = solids (cs.take i) := by
  have hsplit : solids cs = solids (cs.take i) ++ solids (cs.drop i) := by
    rw [← solids_append, List.take_append_drop]
  rw [hsplit, solidCount, List.take_left]

theorem drop_solidCount (cs : List Char) (i : Nat) :
    (solids cs).drop (solidCount cs i) = solids (cs.drop i) := by
  have hsplit : solids cs = solids (cs.take i) ++ solids (cs.drop i) := by
    rw [← solids_append, List.take_append_drop]
  rw [hsplit, solidCount, List.drop_left]

/-- The solid characters of a stretch are a stretch of the solid characters. -/
theorem solids_slice (cs : List Char) {a b : Nat} (hab : a ≤ b) :
    solids (slice cs a b) = slice (solids cs) (solidCount cs a) (solidCount cs b) := by
  rw [slice.eq_def (solids cs), take_solidCount, solids_take_add cs hab, solidCount,
    List.drop_left]

theorem dropWhile_isBlank {blanks text : List Char} (hblanks : ∀ c ∈ blanks, isBlank c = true)
    (hfirst : ∀ c ∈ text.head?, isBlank c = false) :
    (blanks ++ text).dropWhile isBlank = text := by
  rw [List.dropWhile_append_of_pos hblanks]
  cases text with
  | nil => rfl
  | cons c text => rw [List.dropWhile_cons_of_neg (by simp [hfirst c rfl])]

/-- Trimming takes away the blanks around a text that neither begins nor ends with one. -/
theorem trim_append {before text after : List Char} (hbefore : ∀ c ∈ before, isBlank c = true)
    (hfirst : ∀ c ∈ text.head?, isBlank c = false) (hlast : ∀ c ∈ text.getLast?, isBlank c = false)
    (hafter : ∀ c ∈ after, isBlank c = true) : trim (before ++ (text ++ after)) = text := by
  cases htext : text with
  | nil =>
      have hblank : ∀ c ∈ before ++ ([] ++ after), isBlank c = true := by
        simpa [or_imp, forall_and] using ⟨hbefore, hafter⟩
      have hnone := @dropWhile_isBlank _ [] hblank (by simp)
      rw [List.append_nil] at hnone
      rw [trim, trimLeft, hnone]
      rfl
  | cons c cs =>
      rw [← htext]
      have hleft : ∀ d ∈ (text ++ after).head?, isBlank d = false := by
        rw [htext, List.cons_append, List.head?_cons]
        rw [htext, List.head?_cons] at hfirst
        exact hfirst
      have hright : ∀ d ∈ text.reverse.head?, isBlank d = false := by
        rwa [List.head?_reverse]
      rw [trim, trimLeft, dropWhile_isBlank hbefore hleft, trimRight, List.reverse_append,
        dropWhile_isBlank (by simpa using hafter) hright, List.reverse_reverse]

/-- Trimming keeps a text that neither begins nor ends with a blank. -/
theorem trim_eq {text : List Char} (hfirst : ∀ c ∈ text.head?, isBlank c = false)
    (hlast : ∀ c ∈ text.getLast?, isBlank c = false) : trim text = text := by
  simpa using @trim_append [] text [] (by simp) hfirst hlast (by simp)

/-! ## White space and letters -/

/-- The code points of white space. -/
def blankCodes : List Nat := [
  9, 10, 11, 12, 13, 28, 29, 30, 31, 32, 0x85, 0xA0, 0x1680, 0x2000, 0x2001, 0x2002, 0x2003,
  0x2004, 0x2005, 0x2006, 0x2007, 0x2008, 0x2009, 0x200A, 0x2028, 0x2029, 0x202F, 0x205F, 0x3000]

theorem toNat_mem_blankCodes {c : Char} (hc : isBlank c = true) : c.toNat ∈ blankCodes := by
  simp only [isBlank, Bool.or_eq_true, Bool.and_eq_true, decide_eq_true_eq, beq_iff_eq] at hc
  simp only [blankCodes, List.mem_cons, List.not_mem_nil, or_false]
  rcases hc with ((((((((((hc | hc) | hc) | hc) | hc) | hc) | hc) | hc) | hc) | hc) | hc) <;> omega

/-- No letter or number is white space. -/
theorem all_wordRanges :
    (wordRanges.toList.all fun range => blankCodes.all fun n =>
      Nat.blt n range.1 || Nat.blt range.2 n) = true := by
  decide +kernel

theorem not_inRanges_wordRanges {n : Nat} (hn : n ∈ blankCodes) :
    inRanges wordRanges n = false := by
  rw [inRanges, ← Array.any_toList, List.any_eq_false]
  intro range hrange
  have h := List.all_eq_true.1 (List.all_eq_true.1 all_wordRanges range hrange) n hn
  simp only [Bool.or_eq_true, Nat.blt_eq] at h
  simp only [Bool.and_eq_true, decide_eq_true_eq]
  omega

end Text

end Fakery
