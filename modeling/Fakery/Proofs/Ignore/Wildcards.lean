import Fakery.Proofs.Run.Canonical

/-!
# Wildcards

What the patterns of ignore files mean as patterns: `?` stands for one character and `*` for
any number of them.  The matcher of ignore rules lets both stand for slashes.
-/

namespace Fakery

/-- A text is covered by a pattern whose wildcards stand for free characters. -/
def Covers (free : Char → Bool) : (glob text : List Char) → Prop
  | [], text => text = []
  | c :: glob, text =>
    if c = '*' then
      ∃ taken rest, text = taken ++ rest ∧ (∀ d ∈ taken, free d = true) ∧ Covers free glob rest
    else
      ∃ d rest, text = d :: rest ∧ (if c = '?' then free d = true else d = c) ∧
        Covers free glob rest

namespace Covers

variable {free other : Char → Bool} {c : Char} {glob text : List Char}

theorem cons_iff (hc : c ≠ '*') :
    Covers free (c :: glob) text ↔ ∃ d rest, text = d :: rest ∧
      (if c = '?' then free d = true else d = c) ∧ Covers free glob rest := by
  rw [Covers, if_neg hc]

theorem char_iff (hc : c ≠ '*') (hone : c ≠ '?') :
    Covers free (c :: glob) text ↔ ∃ rest, text = c :: rest ∧ Covers free glob rest := by
  rw [cons_iff hc]
  simp only [hone, if_false]
  constructor
  · rintro ⟨d, rest, rfl, rfl, hrest⟩
    exact ⟨rest, rfl, hrest⟩
  · rintro ⟨rest, rfl, hrest⟩
    exact ⟨c, rest, rfl, rfl, hrest⟩

/-- The same wildcards, if they may stand for the same characters of the text. -/
theorem congr (h : ∀ d ∈ text, free d = other d) : Covers free glob text ↔ Covers other glob text := by
  induction glob generalizing text with
  | nil => exact Iff.rfl
  | cons c glob ih =>
      unfold Covers
      split
      · apply exists₂_congr
        intro taken rest
        apply and_congr_right
        rintro rfl
        rw [List.forall_mem_append] at h
        rw [ih h.2]
        exact and_congr_left fun _ => forall₂_congr fun d hd => by rw [h.1 d hd]
      · apply exists₂_congr
        intro d rest
        apply and_congr_right
        rintro rfl
        rw [List.forall_mem_cons] at h
        rw [ih h.2, h.1]

/-- A glob covers no fewer texts when more characters are free. -/
theorem mono (hfree : ∀ d, free d = true → other d = true) (h : Covers free glob text) :
    Covers other glob text := by
  induction glob generalizing text with
  | nil => exact h
  | cons c glob ih =>
      unfold Covers at h ⊢
      split at h
      · next hc =>
          obtain ⟨taken, rest, htext, htaken, hrest⟩ := h
          rw [if_pos hc]
          exact ⟨taken, rest, htext, fun d hd => hfree d (htaken d hd), ih hrest⟩
      · next hc =>
          obtain ⟨d, rest, htext, hd, hrest⟩ := h
          rw [if_neg hc]
          refine ⟨d, rest, htext, ?_, ih hrest⟩
          split
          · next hone =>
              rw [if_pos hone] at hd
              exact hfree d hd
          · next hone =>
              rw [if_neg hone] at hd
              exact hd

theorem self (hstar : free '*' = true) (hone : free '?' = true) (glob : List Char) :
    Covers free glob glob := by
  induction glob with
  | nil => rfl
  | cons c glob ih =>
      unfold Covers
      split
      · next hc => exact ⟨[c], glob, rfl, by simpa [hc] using hstar, ih⟩
      · refine ⟨c, glob, rfl, ?_, ih⟩
        split
        · next hc => rw [hc, hone]
        · rfl

/-- A pattern without wildcards covers itself alone. -/
theorem literal_iff (hstar : '*' ∉ glob) (hone : '?' ∉ glob) :
    Covers free glob text ↔ text = glob := by
  induction glob generalizing text with
  | nil => exact Iff.rfl
  | cons c glob ih =>
      rw [List.mem_cons, not_or] at hstar hone
      rw [char_iff (Ne.symm hstar.1) (Ne.symm hone.1)]
      simp only [ih hstar.2 hone.2, exists_eq_right]

/-- A pattern that ends in its only wildcard covers the texts that begin with the rest. -/
theorem literal_star_iff (hstar : '*' ∉ glob) (hone : '?' ∉ glob) :
    Covers free (glob ++ ['*']) text ↔
      ∃ taken, text = glob ++ taken ∧ ∀ d ∈ taken, free d = true := by
  induction glob generalizing text with
  | nil =>
      simp only [List.nil_append, Covers, if_true]
      constructor
      · rintro ⟨taken, rest, htext, hfree, hrest⟩
        exact ⟨taken, by rw [htext, show rest = [] from hrest, List.append_nil], hfree⟩
      · rintro ⟨taken, rfl, hfree⟩
        exact ⟨_, [], (List.append_nil _).symm, hfree, rfl⟩
  | cons c glob ih =>
      rw [List.mem_cons, not_or] at hstar hone
      rw [List.cons_append, char_iff (Ne.symm hstar.1) (Ne.symm hone.1)]
      constructor
      · rintro ⟨rest, rfl, hrest⟩
        obtain ⟨taken, rfl, hfree⟩ := (ih hstar.2 hone.2).1 hrest
        exact ⟨taken, rfl, hfree⟩
      · rintro ⟨taken, rfl, hfree⟩
        exact ⟨glob ++ taken, rfl, (ih hstar.2 hone.2).2 ⟨taken, rfl, hfree⟩⟩

instance decidable (free : Char → Bool) : (glob text : List Char) → Decidable (Covers free glob text)
  | [], text => inferInstanceAs (Decidable (text = []))
  | c :: glob, text =>
    have hdecidable : ∀ rest, Decidable (Covers free glob rest) := decidable free glob
    if hc : c = '*' then
      decidable_of_iff ((List.range (text.length + 1)).any (fun count =>
        (text.take count).all free && decide (Covers free glob (text.drop count))) = true) (by
          subst hc
          simp only [Covers, if_true, List.any_eq_true, Bool.and_eq_true, List.all_eq_true,
            decide_eq_true_eq, List.mem_range]
          constructor
          · rintro ⟨count, -, hfree, hrest⟩
            exact ⟨_, _, (List.take_append_drop count text).symm, hfree, hrest⟩
          · rintro ⟨taken, rest, rfl, hfree, hrest⟩
            refine ⟨taken.length, by rw [List.length_append]; omega, ?_, ?_⟩
            · rwa [List.take_left]
            · rwa [List.drop_left])
    else
      match text with
      | [] => isFalse (by
          rw [cons_iff hc]
          rintro ⟨d, rest, hnil, -⟩
          cases hnil)
      | d :: rest =>
        decidable_of_iff ((if c = '?' then free d = true else d = c) ∧ Covers free glob rest) (by
          rw [cons_iff hc]
          simp)

end Covers

namespace Glob

/-- The piece that a character stands for outside of a set. -/
def pieceOf (c : Char) : GlobPiece :=
  if c = '*' then .anyText else if c = '?' then .anyChar else .char c

theorem ofPattern_eq {pattern : List Char} (h : '[' ∉ pattern) :
    ofPattern pattern = pattern.map pieceOf := by
  rw [ofPattern]
  induction pattern with
  | nil => rfl
  | cons c pattern ih =>
      rw [List.mem_cons, not_or] at h
      rw [List.length_cons, readPieces, List.map_cons, pieceOf, ih h.2]
      by_cases hstar : c = '*'
      · simp [hstar]
      by_cases hone : c = '?'
      · simp [hone]
      simp [hstar, hone, Ne.symm h.1]

theorem anyEnd_iff {test : List Char → Bool} {text : List Char} :
    anyEnd test text = true ↔ ∃ taken rest, text = taken ++ rest ∧ test rest = true := by
  induction text with
  | nil => simp [anyEnd]
  | cons c text ih =>
      rw [anyEnd, Bool.or_eq_true, ih]
      constructor
      · rintro (h | ⟨taken, rest, rfl, h⟩)
        · exact ⟨[], c :: text, rfl, h⟩
        · exact ⟨c :: taken, rest, rfl, h⟩
      · rintro ⟨taken, rest, htext, h⟩
        cases taken with
        | nil =>
            rw [List.nil_append] at htext
            exact .inl (htext ▸ h)
        | cons d taken =>
            obtain ⟨rfl, rfl⟩ := List.cons.inj htext
            exact .inr ⟨taken, rest, rfl, h⟩

/-- The matcher lets wildcards stand for all characters. -/
theorem matchesPieces_iff {pattern text : List Char} :
    matchesPieces (pattern.map pieceOf) text = true ↔ Covers (fun _ => true) pattern text := by
  induction pattern generalizing text with
  | nil => simp [matchesPieces, Covers]
  | cons c pattern ih =>
      rw [List.map_cons, pieceOf, Covers]
      by_cases hstar : c = '*'
      · simp [hstar, matchesPieces, anyEnd_iff, ih]
      rw [if_neg hstar, if_neg hstar]
      cases text with
      | nil => by_cases hone : c = '?' <;> simp [hone, matchesPieces]
      | cons d text =>
          by_cases hone : c = '?' <;> simp [hone, matchesPieces, GlobPiece.accepts, ih]

end Glob

end Fakery
