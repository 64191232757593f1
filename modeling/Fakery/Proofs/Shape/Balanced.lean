import Fakery.Shape.WrittenType
import Mathlib.Tactic

/-!
# Balanced texts

The two scans of a type text count brackets, and they take the tip of an arrow for none.
A balanced text leaves the count as it was.  A scan therefore passes over it, as long as it
stands inside a bracket or has no colon outside of its own brackets.
-/

namespace Fakery.WrittenType

/-- The characters that change the course of a scan. -/
def scanned : List Char := ['[', '(', '<', ']', ')', '>', ':', '-']

/-- Texts that close the brackets they open.  In a text of the kind `colons` a colon may
stand outside of the brackets. -/
inductive Balanced : Bool → List Char → Prop where
  | nil {colons : Bool} : Balanced colons []
  | char {colons : Bool} {c : Char} {rest : List Char} (hc : c ∉ scanned)
      (hrest : Balanced colons rest) : Balanced colons (c :: rest)
  | colon {rest : List Char} (hrest : Balanced true rest) : Balanced true (':' :: rest)
  | arrow {colons : Bool} {rest : List Char} (hrest : Balanced colons rest) :
      Balanced colons ('-' :: '>' :: rest)
  | bracket {colons : Bool} {opening closing : Char} {inside rest : List Char}
      (hopening : opensBracket opening = true) (hclosing : closing ∈ [']', ')', '>'])
      (hinside : Balanced true inside) (hrest : Balanced colons rest) :
      Balanced colons (opening :: (inside ++ closing :: rest))

/-! ## One character -/

theorem opensBracket_of_not_mem {c : Char} (hc : c ∉ scanned) : opensBracket c = false := by
  simp only [scanned, List.mem_cons, not_or] at hc
  simp [opensBracket, hc]

theorem closesBracket_of_not_mem {c : Char} (hc : c ∉ scanned) (previous : Option Char) :
    closesBracket previous c = false := by
  simp only [scanned, List.mem_cons, not_or] at hc
  simp [closesBracket, hc]

theorem ne_of_not_mem {c d : Char} (hc : c ∉ scanned) (hd : d ∈ scanned) : c ≠ d :=
  fun heq => hc (heq ▸ hd)

/-- A closing bracket counts as one unless it is the tip of an arrow. -/
theorem closesBracket_of_mem {c : Char} (hc : c ∈ [']', ')', '>']) {previous : Option Char}
    (hprevious : previous ≠ some '-') :
    opensBracket c = false ∧ closesBracket previous c = true ∧ c ≠ '-' := by
  simp only [List.mem_cons, List.not_mem_nil, or_false] at hc
  obtain rfl | rfl | rfl := hc <;> simp [opensBracket, closesBracket, hprevious]

/-- A scan that counts brackets and goes on while the depth stays at `lowest` or above.
Outside of all brackets a colon may stop it. -/
structure IsScan {Answer : Type} (lowest : Int)
    (scan : Option Char → Int → Nat → List Char → Answer) : Prop where
  nonneg : 0 ≤ lowest
  opening : ∀ {previous depth offset c rest}, opensBracket c = true →
    scan previous depth offset (c :: rest) = scan (some c) (depth + 1) (offset + 1) rest
  closing : ∀ {previous depth offset c rest}, opensBracket c = false →
    closesBracket previous c = true → lowest < depth →
    scan previous depth offset (c :: rest) = scan (some c) (depth - 1) (offset + 1) rest
  other : ∀ {previous depth offset c rest}, opensBracket c = false →
    closesBracket previous c = false → c ≠ ':' ∨ 0 < depth →
    scan previous depth offset (c :: rest) = scan (some c) depth (offset + 1) rest

theorem isScan_closingOffset : IsScan 1 closingOffset where
  nonneg := by decide
  opening := by
    intro previous depth offset c rest hopens
    rw [closingOffset, if_pos hopens]
  closing := by
    intro previous depth offset c rest hopens hcloses hdepth
    have hinside : depth - 1 ≠ 0 := by omega
    simp [closingOffset, hopens, hcloses, hinside]
  other := by
    intro previous depth offset c rest hopens hcloses _
    simp [closingOffset, hopens, hcloses]

theorem isScan_hasOuterColon : IsScan 0 fun previous depth _ => hasOuterColon previous depth where
  nonneg := le_rfl
  opening := by
    intro previous depth _ c rest hopens
    rw [hasOuterColon, if_pos hopens]
  closing := by
    intro previous depth _ c rest hopens hcloses _
    simp [hasOuterColon, hopens, hcloses]
  other := by
    intro previous depth _ c rest hopens hcloses hcolon
    have hstop : ¬ (c = ':' ∧ depth = 0) := by
      rintro ⟨hc, hdepth⟩
      exact hcolon.elim (fun hne => hne hc) (by omega)
    rw [hasOuterColon, if_neg (by simp [hopens]), if_neg (by simp [hcloses]),
      if_neg (by simpa using hstop)]

/-! ## Whole texts -/

namespace Balanced

variable {colons : Bool} {text : List Char}

theorem append {more : List Char} (h : Balanced colons text) (hmore : Balanced colons more) :
    Balanced colons (text ++ more) := by
  induction h with
  | nil => exact hmore
  | char hc _ ih => exact char hc (ih hmore)
  | colon _ ih => exact colon (ih hmore)
  | arrow _ ih => exact arrow (ih hmore)
  | bracket hopening hclosing hinside _ _ ih =>
      rw [List.cons_append, List.append_assoc]
      exact bracket hopening hclosing hinside (ih hmore)

/-- A text stays balanced inside a bracket. -/
theorem within (h : Balanced colons text) : Balanced true text := by
  induction h with
  | nil => exact nil
  | char hc _ ih => exact char hc ih
  | colon _ ih => exact colon ih
  | arrow _ ih => exact arrow ih
  | bracket hopening hclosing hinside _ _ ih => exact bracket hopening hclosing hinside ih

theorem of_not_mem (h : ∀ c ∈ text, c ∉ scanned) : Balanced colons text := by
  induction text with
  | nil => exact nil
  | cons c text ih =>
      rw [List.forall_mem_cons] at h
      exact char h.1 (ih h.2)

theorem joinWith {separator : List Char} (hseparator : Balanced colons separator)
    {texts : List (List Char)} (htexts : ∀ text ∈ texts, Balanced colons text) :
    Balanced colons (Text.joinWith separator texts) := by
  fun_induction Text.joinWith separator texts with
  | case1 => exact nil
  | case2 text => exact htexts text (by simp)
  | case3 text texts _ ih =>
      rw [List.forall_mem_cons] at htexts
      exact (htexts.1.append hseparator).append (ih htexts.2)

/-- A scan passes over a balanced text.  What it has last seen is no dash, so that a bracket
behind the text closes. -/
theorem scan_append {Answer : Type} {lowest : Int}
    {scan : Option Char → Int → Nat → List Char → Answer} (hscan : IsScan lowest scan)
    (h : Balanced colons text) {previous : Option Char} (hprevious : previous ≠ some '-')
    {depth : Int} (hdepth : lowest ≤ depth) (hcolons : colons = false ∨ 0 < depth) (offset : Nat) :
    ∃ last, last ≠ some '-' ∧ ∀ rest, scan previous depth offset (text ++ rest) =
      scan last depth (offset + text.length) rest := by
  induction h generalizing previous depth offset with
  | nil => exact ⟨previous, hprevious, fun _ => rfl⟩
  | @char _ c text hc _ ih =>
      have hdash : some c ≠ some '-' := by simpa using ne_of_not_mem hc (by decide)
      obtain ⟨last, hlast, hpass⟩ := ih hdash hdepth hcolons (offset + 1)
      refine ⟨last, hlast, fun rest => ?_⟩
      rw [List.cons_append, hscan.other (opensBracket_of_not_mem hc)
        (closesBracket_of_not_mem hc previous) (.inl (ne_of_not_mem hc (by decide))), hpass,
        List.length_cons, Nat.add_right_comm, Nat.add_assoc]
  | @colon text _ ih =>
      obtain ⟨last, hlast, hpass⟩ := ih (show some ':' ≠ some '-' by decide) hdepth hcolons
        (offset + 1)
      refine ⟨last, hlast, fun rest => ?_⟩
      rw [List.cons_append, hscan.other rfl (by simp [closesBracket])
        (.inr (hcolons.resolve_left (by decide))), hpass, List.length_cons, Nat.add_right_comm,
        Nat.add_assoc]
  | @arrow _ text _ ih =>
      obtain ⟨last, hlast, hpass⟩ := ih (show some '>' ≠ some '-' by decide) hdepth hcolons
        (offset + 2)
      refine ⟨last, hlast, fun rest => ?_⟩
      rw [List.cons_append, List.cons_append, hscan.other rfl (by simp [closesBracket])
        (.inl (by decide)), hscan.other rfl rfl (.inl (by decide)), hpass]
      congr 1
      simp only [List.length_cons]
      omega
  | @bracket _ opening closing inside text hopening hclosing _ _ ihinside ih =>
      -- The text inside of the brackets stands one level deeper, where colons do not matter.
      have hdash : some opening ≠ some '-' := by
        rintro ⟨⟩
        exact absurd hopening (by decide)
      obtain ⟨last, hlast, hinside⟩ := ihinside hdash (show lowest ≤ depth + 1 by omega)
        (.inr (by have := hscan.nonneg; omega)) (offset + 1)
      obtain ⟨hopens, hcloses, hne⟩ := closesBracket_of_mem hclosing hlast
      obtain ⟨final, hfinal, hpass⟩ := ih (show some closing ≠ some '-' by simpa using hne) hdepth
        hcolons (offset + 1 + inside.length + 1)
      refine ⟨final, hfinal, fun rest => ?_⟩
      rw [List.cons_append, hscan.opening hopening, List.append_assoc, hinside, List.cons_append,
        hscan.closing hopens hcloses (by omega), add_sub_cancel_right, hpass]
      congr 1
      simp only [List.length_cons, List.length_append]
      omega

/-- A balanced text in square brackets is closed by the last of them. -/
theorem isBracketed (h : Balanced colons text) :
    WrittenType.isBracketed ('[' :: (text ++ [']'])) = true := by
  obtain ⟨last, hlast, hpass⟩ := scan_append isScan_closingOffset h
    (show some '[' ≠ some '-' by decide) le_rfl (.inr one_pos) 1
  obtain ⟨hopens, hcloses, -⟩ := closesBracket_of_mem (show ']' ∈ [']', ')', '>'] by decide) hlast
  have hclosing : closingOffset none 0 0 ('[' :: (text ++ [']'])) = some (1 + text.length) := by
    rw [isScan_closingOffset.opening rfl, zero_add, hpass, closingOffset, hopens, hcloses]
    rfl
  simp [WrittenType.isBracketed, hclosing, Nat.add_comm]

/-- The scan for a colon outside of all brackets passes over a text without one. -/
theorem hasOuterColon_append (h : Balanced false text) :
    ∃ last, ∀ rest, hasOuterColon none 0 (text ++ rest) = hasOuterColon last 0 rest := by
  obtain ⟨last, -, hpass⟩ := scan_append isScan_hasOuterColon h (show none ≠ some '-' by decide)
    le_rfl (.inl rfl) 0
  exact ⟨last, hpass⟩

theorem hasOuterColon_eq_false (h : Balanced false text) : hasOuterColon none 0 text = false := by
  obtain ⟨last, hpass⟩ := h.hasOuterColon_append
  simpa [hasOuterColon] using hpass []

theorem hasOuterColon_colon (h : Balanced false text) (rest : List Char) :
    hasOuterColon none 0 (text ++ ':' :: rest) = true := by
  obtain ⟨last, hpass⟩ := h.hasOuterColon_append
  simp [hpass, hasOuterColon, opensBracket, closesBracket]

end Balanced

end Fakery.WrittenType
