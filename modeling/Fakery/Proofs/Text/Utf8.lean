import Fakery.Text.Lines
import Fakery.Text.Utf8
import Mathlib.Tactic

/-!
# Decoding and encoding

A decoded text encodes to the bytes that it was read from.  Reading line ends keeps a text
exactly if it has no carriage return.
-/

namespace Fakery

theorem eq_ok_of_toOption {ε α : Type} {result : Except ε α} {a : α}
    (h : result.toOption = some a) : result = .ok a := by
  cases result with
  | error fault => cases h
  | ok b =>
      cases h
      rfl

namespace Text

namespace Utf8

/-! ## Lead and tail bytes -/

/-- The lead bytes of each width. -/
theorem width_cases (a : UInt8) :
    width a = 1 ∧ a.toNat ≤ 127 ∨ width a = 2 ∧ 194 ≤ a.toNat ∧ a.toNat ≤ 223 ∨
      width a = 3 ∧ 224 ≤ a.toNat ∧ a.toNat ≤ 239 ∨ width a = 4 ∧ 240 ≤ a.toNat ∧ a.toNat ≤ 244 ∨
      width a = 0 ∧ (128 ≤ a.toNat ∧ a.toNat ≤ 193 ∨ 245 ≤ a.toNat) := by
  simp only [width, UInt8.le_iff_toNat_le, Bool.and_eq_true, decide_eq_true_eq, UInt8.reduceToNat]
  repeat' split
  all_goals omega

theorem isTail_iff {b : UInt8} : isTail b = true ↔ 128 ≤ b.toNat ∧ b.toNat ≤ 191 := by
  simp [isTail, UInt8.le_iff_toNat_le]

theorem isSecond_iff {a b : UInt8} : isSecond a b = true ↔ isTail b = true ∧
    (a.toNat = 224 → 160 ≤ b.toNat) ∧ (a.toNat = 237 → b.toNat ≤ 159) ∧
    (a.toNat = 240 → 144 ≤ b.toNat) ∧ (a.toNat = 244 → b.toNat ≤ 143) := by
  simp only [isSecond, Bool.and_eq_true, Bool.or_eq_true, bne_iff_ne, ne_eq, decide_eq_true_eq,
    UInt8.le_iff_toNat_le, ← UInt8.toNat_inj]
  simp [imp_iff_not_or, and_assoc]

/-! ## One character -/

theorem toNat_ofNat {n : Nat} (h : n < 0xD800 ∨ 0xDFFF < n ∧ n < 0x110000) :
    (Char.ofNat n).val.toNat = n := by
  have hvalid : n.isValidChar := h
  rw [Char.ofNat, dif_pos hvalid]
  rfl

theorem ofNat_eq {a : UInt8} {n : Nat} (h : n = a.toNat) : UInt8.ofNat n = a := by
  rw [h, UInt8.ofNat_toNat]

theorem encodeChar_one {a : UInt8} (ha : width a = 1) :
    String.utf8EncodeChar (Char.ofNat a.toNat) = [a] := by
  have hlead := width_cases a
  have hvalue : (Char.ofNat a.toNat).val.toNat = a.toNat := toNat_ofNat (by omega)
  simp only [String.utf8EncodeChar, hvalue]
  rw [if_pos (by omega), UInt8.ofNat_toNat]

theorem encodeChar_two {a b : UInt8} (ha : width a = 2) (hb : isTail b = true) :
    String.utf8EncodeChar (Char.ofNat (a.toNat % 32 * 64 + tailBits b)) = [a, b] := by
  have hlead := width_cases a
  rw [isTail_iff] at hb
  unfold tailBits
  have hvalue : (Char.ofNat (a.toNat % 32 * 64 + b.toNat % 64)).val.toNat = _ :=
    toNat_ofNat (by omega)
  simp only [String.utf8EncodeChar, hvalue]
  rw [if_neg (by omega), if_pos (by omega), ofNat_eq (a := a) (by omega),
    ofNat_eq (a := b) (by omega)]

theorem encodeChar_three {a b c : UInt8} (ha : width a = 3) (hb : isSecond a b = true)
    (hc : isTail c = true) :
    String.utf8EncodeChar (Char.ofNat (a.toNat % 16 * 4096 + tailBits b * 64 + tailBits c)) =
      [a, b, c] := by
  have hlead := width_cases a
  rw [isSecond_iff, isTail_iff] at hb
  rw [isTail_iff] at hc
  unfold tailBits
  have hvalue : (Char.ofNat (a.toNat % 16 * 4096 + b.toNat % 64 * 64 + c.toNat % 64)).val.toNat =
      _ := toNat_ofNat (by omega)
  simp only [String.utf8EncodeChar, hvalue]
  rw [if_neg (by omega), if_neg (by omega), if_pos (by omega), ofNat_eq (a := a) (by omega),
    ofNat_eq (a := b) (by omega), ofNat_eq (a := c) (by omega)]

theorem encodeChar_four {a b c d : UInt8} (ha : width a = 4) (hb : isSecond a b = true)
    (hc : isTail c = true) (hd : isTail d = true) :
    String.utf8EncodeChar (Char.ofNat
        (a.toNat % 8 * 262144 + tailBits b * 4096 + tailBits c * 64 + tailBits d)) =
      [a, b, c, d] := by
  have hlead := width_cases a
  rw [isSecond_iff, isTail_iff] at hb
  rw [isTail_iff] at hc hd
  unfold tailBits
  have hvalue : (Char.ofNat (a.toNat % 8 * 262144 + b.toNat % 64 * 4096 + c.toNat % 64 * 64 +
      d.toNat % 64)).val.toNat = _ := toNat_ofNat (by omega)
  simp only [String.utf8EncodeChar, hvalue]
  rw [if_neg (by omega), if_neg (by omega), if_neg (by omega), ofNat_eq (a := a) (by omega),
    ofNat_eq (a := b) (by omega), ofNat_eq (a := c) (by omega), ofNat_eq (a := d) (by omega)]

/-! ## Texts -/

theorem encode_cons (c : Char) (cs : List Char) :
    encode (c :: cs) = String.utf8EncodeChar c ++ encode cs :=
  List.flatMap_cons

theorem encode_of_bind {result : Except Fault (List Char)} {rest piece : List UInt8} {c : Char}
    {text : List Char} (hrest : ∀ {more}, result = .ok more → encode more = rest)
    (hpiece : String.utf8EncodeChar c = piece)
    (h : (do return c :: (← result)) = Except.ok text) : encode text = piece ++ rest := by
  cases result with
  | error fault => cases h
  | ok more =>
      cases h
      rw [encode_cons, hpiece, hrest rfl]

/-- A decoded text encodes to the bytes that it was read from. -/
theorem encode_of_decodeFrom {position : Nat} {bytes : List UInt8} {text : List Char}
    (h : decodeFrom position bytes = .ok text) : encode text = bytes := by
  fun_induction decodeFrom position bytes generalizing text with
  | case1 =>
      cases h
      rfl
  | case2 _ a _ hwidth ih => exact encode_of_bind ih (encodeChar_one hwidth) h
  | case4 _ a hwidth b _ hb ih => exact encode_of_bind ih (encodeChar_two hwidth hb) h
  | case11 _ a hwidth b c _ hb hc ih =>
      exact encode_of_bind ih (encodeChar_three hwidth (by simpa using hb) (by simpa using hc)) h
  | case21 _ a hwidth b c d _ hb hc hd ih =>
      exact encode_of_bind ih
        (encodeChar_four hwidth (by simpa using hb) (by simpa using hc) (by simpa using hd)) h
  | _ => cases h

theorem encode_injective : Function.Injective encode := by
  intro cs ds h
  have hbytes : cs.utf8Encode = ds.utf8Encode := congrArg List.toByteArray h
  have hdecoded := congrArg ByteArray.utf8Decode? hbytes
  rw [List.utf8Decode?_utf8Encode, List.utf8Decode?_utf8Encode, Option.some.injEq] at hdecoded
  exact congrArg Array.toList hdecoded

end Utf8

/-! ## Line ends -/

theorem not_mem_normalizeNewlines (cs : List Char) : '\r' ∉ normalizeNewlines cs := by
  fun_induction normalizeNewlines cs with
  | case1 => simp
  | case2 rest ih => simpa using ih
  | case3 c rest _ ih =>
      rw [List.mem_cons, not_or]
      refine ⟨?_, ih⟩
      split
      · decide
      · next hc => exact fun heq => hc (by simp [← heq])

theorem normalizeNewlines_of_not_mem {cs : List Char} (h : '\r' ∉ cs) :
    normalizeNewlines cs = cs := by
  fun_induction normalizeNewlines cs with
  | case1 => rfl
  | case2 rest ih => simp at h
  | case3 c rest _ ih =>
      rw [List.mem_cons, not_or] at h
      rw [if_neg (by simpa using Ne.symm h.1), ih h.2]

/-- Reading line ends keeps the texts without carriage returns. -/
theorem normalizeNewlines_eq_self_iff {cs : List Char} :
    normalizeNewlines cs = cs ↔ '\r' ∉ cs := by
  constructor
  · intro h
    rw [← h]
    exact not_mem_normalizeNewlines cs
  · exact normalizeNewlines_of_not_mem

end Text

end Fakery
