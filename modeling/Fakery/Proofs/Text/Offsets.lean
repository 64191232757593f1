import Fakery.Proofs.Text.Solid
import Fakery.Proofs.Text.Utf8

/-!
# Byte offsets and character offsets

The table of character offsets is exact: it has an entry for every byte and one for the end,
and between two boundaries of characters it cuts the text as the bytes are cut.  On ASCII
texts, and on no others, the table is the identity.
-/

namespace Fakery.Text.Utf8

/-! ## Encoded stretches -/

theorem encode_append (left right : List Char) :
    encode (left ++ right) = encode left ++ encode right :=
  List.flatMap_append

theorem length_encode_cons (c : Char) (cs : List Char) :
    (encode (c :: cs)).length = c.utf8Size + (encode cs).length := by
  rw [encode_cons, List.length_append, String.length_utf8EncodeChar]

/-- The bytes of a stretch of a text lie between the byte lengths of what stands before its
two ends. -/
theorem encode_slice (cs : List Char) {i j : Nat} (hij : i ≤ j) :
    encode (slice cs i j) =
      ((encode cs).take (encode (cs.take j)).length).drop (encode (cs.take i)).length := by
  have hrest : encode cs = encode (cs.take j) ++ encode (cs.drop j) := by
    rw [← encode_append, List.take_append_drop]
  rw [hrest, List.take_left, ← take_append_slice cs hij, encode_append, List.drop_left]

/-! ## Boundaries of characters -/

/-- A byte offset at which a character begins or the text ends: no tail byte stands there. -/
def IsBoundary (bytes : List UInt8) (offset : Nat) : Prop :=
  offset ≤ bytes.length ∧ bytes[offset]?.all (fun b => !isTail b) = true

instance (bytes : List UInt8) (offset : Nat) : Decidable (IsBoundary bytes offset) :=
  inferInstanceAs (Decidable (_ ∧ _))

/-- A character is written as a byte that is no tail byte and tail bytes behind it. -/
theorem encodeChar_eq_cons (c : Char) :
    ∃ lead tails, String.utf8EncodeChar c = lead :: tails ∧ isTail lead = false ∧
      ∀ b ∈ tails, isTail b = true := by
  have hlast : c.val.toNat < 0x110000 := by
    rcases c.valid with hlow | hhigh <;> omega
  simp only [← Bool.not_eq_true, isTail_iff, String.utf8EncodeChar]
  split_ifs
  all_goals
    refine ⟨_, _, rfl, ?_, ?_⟩
    · simp only [UInt8.toNat_ofNat']
      omega
    · simp only [List.forall_mem_cons, List.not_mem_nil, false_implies, implies_true, and_true,
        UInt8.toNat_ofNat'] <;> omega

/-- The boundaries behind the first character are those of the rest, moved by its size. -/
theorem isBoundary_encode_cons {c : Char} {cs : List Char} {offset : Nat} :
    IsBoundary (encode (c :: cs)) offset ↔
      offset = 0 ∨ c.utf8Size ≤ offset ∧ IsBoundary (encode cs) (offset - c.utf8Size) := by
  obtain ⟨lead, tails, hc, hlead, htails⟩ := encodeChar_eq_cons c
  have hsize : c.utf8Size = tails.length + 1 := by
    rw [← String.length_utf8EncodeChar, hc, List.length_cons]
  rw [encode_cons, hc, hsize]
  cases offset with
  | zero => simp [IsBoundary, hlead]
  | succ offset =>
      rcases Nat.lt_or_ge offset tails.length with hinside | hbehind
      · -- Inside the character stands a tail byte.
        have htail := htails _ (List.getElem_mem hinside)
        refine iff_of_false (fun h => ?_) (by omega)
        have hnoTail := h.2
        rw [List.cons_append, List.getElem?_cons_succ, List.getElem?_append_left hinside,
          List.getElem?_eq_getElem hinside, Option.all_some, htail] at hnoTail
        cases hnoTail
      · have hbyte : (lead :: tails ++ encode cs)[offset + 1]? =
            (encode cs)[offset - tails.length]? := by
          rw [List.cons_append, List.getElem?_cons_succ, List.getElem?_append_right hbehind]
        simp only [IsBoundary, hbyte, Nat.add_sub_add_right, List.length_append, List.length_cons]
        constructor
        · rintro ⟨hle, hnoTail⟩
          exact .inr ⟨by omega, by omega, hnoTail⟩
        · rintro (hzero | ⟨-, hle, hnoTail⟩)
          · cases hzero
          · exact ⟨by omega, hnoTail⟩

/-- The boundaries are the byte lengths of the beginnings of a text. -/
theorem isBoundary_encode_iff {cs : List Char} {offset : Nat} :
    IsBoundary (encode cs) offset ↔ ∃ i ≤ cs.length, offset = (encode (cs.take i)).length := by
  induction cs generalizing offset with
  | nil => simp [IsBoundary, encode]
  | cons c rest ih =>
      rw [isBoundary_encode_cons, ih]
      constructor
      · rintro (rfl | ⟨hsize, i, hi, hoffset⟩)
        · exact ⟨0, Nat.zero_le _, rfl⟩
        · refine ⟨i + 1, Nat.succ_le_succ hi, ?_⟩
          rw [List.take_succ_cons, length_encode_cons, ← hoffset, Nat.add_sub_of_le hsize]
      · rintro ⟨i, hi, rfl⟩
        cases i with
        | zero => exact .inl rfl
        | succ i =>
            rw [List.take_succ_cons, length_encode_cons, Nat.add_sub_cancel_left]
            exact .inr ⟨Nat.le_add_right .., i, Nat.le_of_succ_le_succ hi, rfl⟩

/-! ## Entries of the table -/

theorem length_charOffsetsFrom (first : Nat) (cs : List Char) :
    (charOffsetsFrom first cs).length = (encode cs).length + 1 := by
  induction cs generalizing first with
  | nil => rfl
  | cons c rest ih =>
      rw [charOffsetsFrom, List.length_append, List.length_replicate, ih, length_encode_cons,
        Nat.add_assoc]

theorem getElem?_charOffsetsFrom_cons (first : Nat) (c : Char) (rest : List Char) {k : Nat}
    (hk : k < c.utf8Size) : (charOffsetsFrom first (c :: rest))[k]? = some first := by
  rw [charOffsetsFrom, List.getElem?_append_left (by simpa using hk),
    List.getElem?_replicate_of_lt hk]

theorem getElem?_charOffsetsFrom_zero (first : Nat) (cs : List Char) :
    (charOffsetsFrom first cs)[0]? = some first := by
  cases cs with
  | nil => rfl
  | cons c rest => exact getElem?_charOffsetsFrom_cons first c rest c.utf8Size_pos

/-- Behind the bytes of the first characters, the table goes on as the table of the rest. -/
theorem drop_charOffsetsFrom (first : Nat) (before after : List Char) :
    (charOffsetsFrom first (before ++ after)).drop (encode before).length =
      charOffsetsFrom (first + before.length) after := by
  induction before generalizing first with
  | nil => rfl
  | cons c rest ih =>
      rw [List.cons_append, charOffsetsFrom, length_encode_cons, ← List.drop_drop,
        List.drop_left' List.length_replicate, ih, List.length_cons, Nat.add_assoc,
        Nat.add_comm 1]

theorem getElem?_charOffsets_add (cs : List Char) {i : Nat} (hi : i ≤ cs.length) (k : Nat) :
    (charOffsets cs)[(encode (cs.take i)).length + k]? = (charOffsetsFrom i (cs.drop i))[k]? := by
  have hdrop := drop_charOffsetsFrom 0 (cs.take i) (cs.drop i)
  rw [List.take_append_drop, List.length_take_of_le hi, Nat.zero_add] at hdrop
  rw [← List.getElem?_drop, charOffsets, hdrop]

theorem getElem?_charOffsets_take (cs : List Char) {i : Nat} (hi : i ≤ cs.length) :
    (charOffsets cs)[(encode (cs.take i)).length]? = some i := by
  have hentry := getElem?_charOffsets_add cs hi 0
  rwa [Nat.add_zero, getElem?_charOffsetsFrom_zero] at hentry

/-- All bytes of one character share its offset. -/
theorem getElem?_charOffsets_within {cs : List Char} {i k : Nat} {c : Char}
    (hc : cs[i]? = some c) (hk : k < c.utf8Size) :
    (charOffsets cs)[(encode (cs.take i)).length + k]? = some i := by
  obtain ⟨hi, rfl⟩ := List.getElem?_eq_some_iff.1 hc
  rw [getElem?_charOffsets_add cs hi.le, List.drop_eq_getElem_cons hi,
    getElem?_charOffsetsFrom_cons _ _ _ hk]

theorem le_of_mem_charOffsetsFrom {first entry : Nat} {cs : List Char}
    (h : entry ∈ charOffsetsFrom first cs) : first ≤ entry := by
  induction cs generalizing first with
  | nil => exact (List.mem_singleton.1 h).ge
  | cons c rest ih =>
      rcases List.mem_append.1 h with hown | hrest
      · exact (List.eq_of_mem_replicate hown).ge
      · exact Nat.le_of_succ_le (ih hrest)

theorem pairwise_charOffsetsFrom (first : Nat) (cs : List Char) :
    (charOffsetsFrom first cs).Pairwise (· ≤ ·) := by
  induction cs generalizing first with
  | nil => exact List.pairwise_singleton _ _
  | cons c rest ih =>
      refine List.pairwise_append.2 ⟨List.pairwise_replicate.2 (.inr le_rfl), ih _, ?_⟩
      intro own hown later hlater
      rw [List.eq_of_mem_replicate hown]
      exact Nat.le_of_succ_le (le_of_mem_charOffsetsFrom hlater)

theorem le_of_getElem?_charOffsets {cs : List Char} {start stop i j : Nat} (hle : start ≤ stop)
    (hi : (charOffsets cs)[start]? = some i) (hj : (charOffsets cs)[stop]? = some j) : i ≤ j := by
  obtain ⟨hstart, rfl⟩ := List.getElem?_eq_some_iff.1 hi
  obtain ⟨hstop, rfl⟩ := List.getElem?_eq_some_iff.1 hj
  exact (pairwise_charOffsetsFrom 0 cs).rel_get_of_le
    (show (⟨start, hstart⟩ : Fin (charOffsets cs).length) ≤ ⟨stop, hstop⟩ from hle)

/-- Between two boundaries the table cuts the text as the bytes are cut. -/
theorem encode_slice_of_isBoundary {cs : List Char} {start stop : Nat} (hle : start ≤ stop)
    (hstart : IsBoundary (encode cs) start) (hstop : IsBoundary (encode cs) stop) :
    ∃ i j, (charOffsets cs)[start]? = some i ∧ (charOffsets cs)[stop]? = some j ∧
      encode (slice cs i j) = ((encode cs).take stop).drop start := by
  obtain ⟨i, hi, rfl⟩ := isBoundary_encode_iff.1 hstart
  obtain ⟨j, hj, rfl⟩ := isBoundary_encode_iff.1 hstop
  have hfirst := getElem?_charOffsets_take cs hi
  have hsecond := getElem?_charOffsets_take cs hj
  exact ⟨i, j, hfirst, hsecond, encode_slice cs (le_of_getElem?_charOffsets hle hfirst hsecond)⟩

/-! ## ASCII texts -/

theorem isAscii_iff {cs : List Char} : isAscii cs = true ↔ ∀ c ∈ cs, c.utf8Size = 1 := by
  simp only [isAscii, List.all_eq_true, decide_eq_true_eq, Char.utf8Size_eq_one_iff,
    UInt32.le_iff_toNat_le]
  exact forall₂_congr fun c _ => Nat.lt_succ_iff

theorem length_le_length_encode (cs : List Char) : cs.length ≤ (encode cs).length := by
  induction cs with
  | nil => exact Nat.zero_le _
  | cons c rest ih =>
      have hpos := c.utf8Size_pos
      rw [length_encode_cons, List.length_cons]
      omega

/-- A text has as many bytes as characters exactly if it is ASCII. -/
theorem length_encode_eq_iff {cs : List Char} :
    (encode cs).length = cs.length ↔ isAscii cs = true := by
  rw [isAscii_iff]
  induction cs with
  | nil => simp [encode]
  | cons c rest ih =>
      have hpos := c.utf8Size_pos
      have hle := length_le_length_encode rest
      rw [length_encode_cons, List.length_cons, List.forall_mem_cons, ← ih]
      omega

theorem charOffsetsFrom_of_isAscii (first : Nat) {cs : List Char} (h : isAscii cs = true) :
    charOffsetsFrom first cs = List.range' first (cs.length + 1) := by
  rw [isAscii_iff] at h
  induction cs generalizing first with
  | nil => rfl
  | cons c rest ih =>
      rw [List.forall_mem_cons] at h
      rw [charOffsetsFrom, h.1, ih _ h.2, List.length_cons, List.range'_succ]
      rfl

/-- The table is the identity on ASCII texts only: its last entry counts the characters. -/
theorem charOffsets_eq_range_iff {cs : List Char} :
    charOffsets cs = List.range ((encode cs).length + 1) ↔ isAscii cs = true := by
  constructor
  · intro h
    have hlast := getElem?_charOffsets_take cs (Nat.le_refl _)
    rw [List.take_length, h, List.getElem?_range (Nat.lt_succ_self _), Option.some.injEq] at hlast
    exact length_encode_eq_iff.1 hlast
  · intro h
    rw [charOffsets, charOffsetsFrom_of_isAscii 0 h, length_encode_eq_iff.2 h,
      List.range_eq_range']

/-- Looking up an offset without a table agrees with the table. -/
theorem charOffset?_eq {cs : List Char} {byte : Nat} (h : byte ≤ (encode cs).length) :
    charOffset? cs byte = (charOffsets cs)[byte]? := by
  rw [charOffset?]
  split
  · next hascii =>
      rw [charOffsets_eq_range_iff.2 hascii, List.getElem?_range (Nat.lt_succ_of_le h)]
  · rfl

theorem textBetween?_eq {cs : List Char} {start stop i j : Nat}
    (hi : charOffset? cs start = some i) (hj : charOffset? cs stop = some j) :
    textBetween? cs start stop = some (slice cs i j) := by
  rw [textBetween?, hi, hj]
  rfl

/-- The table has an entry for every byte and one for the end.  The entry at the byte length
of the first characters is their number, the bytes of one character share an entry, and
entries never decrease.  So what stands between two boundaries encodes to the bytes between
them.  The table is the identity exactly on ASCII texts, and doing without it there changes
no offset. -/
theorem charOffsets_exact (cs : List Char) :
    (charOffsets cs).length = (encode cs).length + 1 ∧
    (∀ i ≤ cs.length, (charOffsets cs)[(encode (cs.take i)).length]? = some i) ∧
    (∀ i k c, cs[i]? = some c → k < c.utf8Size →
      (charOffsets cs)[(encode (cs.take i)).length + k]? = some i) ∧
    (charOffsets cs).Pairwise (· ≤ ·) ∧
    (∀ start stop, start ≤ stop → IsBoundary (encode cs) start → IsBoundary (encode cs) stop →
      ∃ i j, (charOffsets cs)[start]? = some i ∧ (charOffsets cs)[stop]? = some j ∧
        textBetween? cs start stop = some (slice cs i j) ∧
        encode (slice cs i j) = ((encode cs).take stop).drop start) ∧
    (charOffsets cs = List.range ((encode cs).length + 1) ↔ isAscii cs = true) ∧
    ∀ byte ≤ (encode cs).length, charOffset? cs byte = (charOffsets cs)[byte]? := by
  refine ⟨length_charOffsetsFrom 0 cs, fun i hi => getElem?_charOffsets_take cs hi,
    fun i k c hc hk => getElem?_charOffsets_within hc hk, pairwise_charOffsetsFrom 0 cs, ?_,
    charOffsets_eq_range_iff, fun byte hbyte => charOffset?_eq hbyte⟩
  intro start stop hle hstart hstop
  obtain ⟨i, j, hi, hj, hbytes⟩ := encode_slice_of_isBoundary hle hstart hstop
  have htext := textBetween?_eq ((charOffset?_eq hstart.1).trans hi)
    ((charOffset?_eq hstop.1).trans hj)
  exact ⟨i, j, hi, hj, htext, hbytes⟩

/-- Characters of one to four bytes, cut between the second and the last. -/
theorem charOffsets_exact_widths :
    charOffsets ['a', 'é', '€', '👋', 'b'] = [0, 1, 1, 2, 2, 2, 3, 3, 3, 3, 4, 5] ∧
    IsBoundary (encode ['a', 'é', '€', '👋', 'b']) 1 ∧
    IsBoundary (encode ['a', 'é', '€', '👋', 'b']) 10 ∧
    ∃ i j, (charOffsets ['a', 'é', '€', '👋', 'b'])[1]? = some i ∧
      (charOffsets ['a', 'é', '€', '👋', 'b'])[10]? = some j ∧
      textBetween? ['a', 'é', '€', '👋', 'b'] 1 10 =
        some (slice ['a', 'é', '€', '👋', 'b'] i j) ∧
      encode (slice ['a', 'é', '€', '👋', 'b'] i j) =
        ((encode ['a', 'é', '€', '👋', 'b']).take 10).drop 1 :=
  have hstart : IsBoundary (encode ['a', 'é', '€', '👋', 'b']) 1 := by decide
  have hstop : IsBoundary (encode ['a', 'é', '€', '👋', 'b']) 10 := by decide
  ⟨by decide, hstart, hstop,
    (charOffsets_exact ['a', 'é', '€', '👋', 'b']).2.2.2.2.1 1 10 (by decide) hstart hstop⟩

end Fakery.Text.Utf8
