import Fakery.Proofs.Text.Solid

/-!
# Well-bracketed texts

Round, square and curly brackets in a text open and close.  Reading a text from left to right
keeps the closing brackets that are awaited, innermost first.  A well-bracketed text closes
only what it opened, and all of it, so it can stand inside any other text without changing
what that text awaits.
-/

namespace Fakery.Text

/-! ## Awaited brackets -/

/-- The bracket that closes what a bracket opens. -/
def closerOf? : Char → Option Char
  | '(' => some ')'
  | '[' => some ']'
  | '\x7b' => some '\x7d'
  | _ => none

theorem closerOf?_brace : closerOf? '\x7b' = some '\x7d' := rfl

def isBracket (c : Char) : Bool :=
  "()[]\x7b\x7d".toList.contains c

/-- What is awaited behind a character.  None if the character closes what is not open. -/
def awaitedNext (waiting : List Char) (c : Char) : Option (List Char) :=
  match closerOf? c with
  | some closing => some (closing :: waiting)
  | none =>
    if isBracket c then
      match waiting with
      | [] => none
      | closing :: outer => if c = closing then some outer else none
    else some waiting

/-- What is awaited behind a text. -/
def awaited (waiting text : List Char) : Option (List Char) :=
  text.foldlM awaitedNext waiting

/-- Every bracket of the text closes what is open, and nothing is left open. -/
def WellBracketed (text : List Char) : Prop :=
  awaited [] text = some []

instance (text : List Char) : Decidable (WellBracketed text) :=
  inferInstanceAs (Decidable (awaited [] text = some []))

theorem awaited_cons (waiting : List Char) (c : Char) (text : List Char) :
    awaited waiting (c :: text) = (awaitedNext waiting c).bind (awaited · text) := by
  rw [awaited, List.foldlM_cons]
  rfl

theorem awaited_append (waiting text more : List Char) :
    awaited waiting (text ++ more) = (awaited waiting text).bind (awaited · more) := by
  rw [awaited, List.foldlM_append]
  rfl

theorem awaited_cons_opening {opening closing : Char} (h : closerOf? opening = some closing)
    (waiting text : List Char) :
    awaited waiting (opening :: text) = awaited (closing :: waiting) text := by
  simp [awaited_cons, awaitedNext, h]

/-- A closing bracket opens nothing. -/
theorem closerOf?_closing {opening closing : Char} (h : closerOf? opening = some closing) :
    closerOf? closing = none ∧ isBracket closing = true := by
  unfold closerOf? at h
  split at h
  all_goals cases h
  all_goals exact ⟨rfl, rfl⟩

theorem awaited_cons_closing {opening closing : Char} (h : closerOf? opening = some closing)
    (waiting text : List Char) :
    awaited (closing :: waiting) (closing :: text) = awaited waiting text := by
  obtain ⟨hnone, hbracket⟩ := closerOf?_closing h
  rw [awaited_cons, awaitedNext, hnone]
  simp [hbracket]

theorem awaited_cons_of_not_bracket {c : Char} (hc : isBracket c = false)
    (waiting text : List Char) : awaited waiting (c :: text) = awaited waiting text := by
  have hnone : closerOf? c = none := by
    unfold closerOf?
    split <;> first | rfl | exact absurd hc (by decide)
  simp [awaited_cons, awaitedNext, hnone, hc]

/-! ## The brackets of a text -/

def brackets (text : List Char) : List Char :=
  text.filter isBracket

@[simp]
theorem brackets_append (text more : List Char) :
    brackets (text ++ more) = brackets text ++ brackets more :=
  List.filter_append ..

theorem brackets_eq_nil {text : List Char} :
    brackets text = [] ↔ ∀ c ∈ text, isBracket c = false := by
  simp [brackets, List.filter_eq_nil_iff]

/-- What a text awaits depends on its brackets alone. -/
theorem awaited_brackets (waiting text : List Char) :
    awaited waiting (brackets text) = awaited waiting text := by
  induction text generalizing waiting with
  | nil => rfl
  | cons c text ih =>
      cases hc : isBracket c with
      | true =>
          rw [brackets, List.filter_cons_of_pos hc, awaited_cons, awaited_cons]
          exact congrArg _ (funext ih)
      | false =>
          rw [brackets, List.filter_cons_of_neg (by simp [hc]), awaited_cons_of_not_bracket hc]
          exact ih waiting

/-- No character of a kind is among characters that are not of this kind. -/
theorem contains_eq_false {chars : List Char} {p : Char → Bool}
    (hp : chars.all (!p ·) = true) {c : Char} (hc : p c = true) : chars.contains c = false := by
  rw [Bool.eq_false_iff]
  intro hcontains
  simpa [hc] using List.all_eq_true.1 hp c (List.contains_iff_mem.1 hcontains)

theorem isBracket_of_isBlank {c : Char} (hc : isBlank c = true) : isBracket c = false :=
  contains_eq_false (by decide) hc

theorem brackets_of_isBlank {text : List Char} (h : ∀ c ∈ text, isBlank c = true) :
    brackets text = [] :=
  brackets_eq_nil.2 fun c hc => isBracket_of_isBlank (h c hc)

/-! ## Well-bracketed texts -/

/-- A character that does not close what is awaited around it leaves that as it is. -/
theorem awaitedNext_frame {waiting next : List Char} {c : Char}
    (h : awaitedNext waiting c = some next) (outer : List Char) :
    awaitedNext (waiting ++ outer) c = some (next ++ outer) := by
  unfold awaitedNext at h ⊢
  cases hopens : closerOf? c with
  | some closing =>
      simp only [hopens, Option.some.injEq] at h
      simp [← h]
  | none =>
      simp only [hopens] at h
      cases waiting with
      | nil =>
          split at h
          · cases h
          · simp_all
      | cons closing waiting => split at h <;> simp_all

/-- What is awaited around a text does not matter to it, as long as the text does not close
it. -/
theorem awaited_frame {waiting after text : List Char} (h : awaited waiting text = some after)
    (outer : List Char) : awaited (waiting ++ outer) text = some (after ++ outer) := by
  induction text generalizing waiting with
  | nil =>
      cases h
      rfl
  | cons c text ih =>
      rw [awaited_cons, Option.bind_eq_some_iff] at h
      obtain ⟨next, hnext, hrest⟩ := h
      rw [awaited_cons, awaitedNext_frame hnext, Option.bind_some]
      exact ih hrest

namespace WellBracketed

variable {text more : List Char}

theorem awaited_eq (h : WellBracketed text) (waiting : List Char) :
    awaited waiting text = some waiting :=
  awaited_frame h waiting

theorem awaited_append (h : WellBracketed text) (waiting more : List Char) :
    awaited waiting (text ++ more) = awaited waiting more := by
  rw [Text.awaited_append, h.awaited_eq, Option.bind_some]

theorem congr_brackets (h : brackets text = brackets more) :
    WellBracketed text ↔ WellBracketed more := by
  rw [WellBracketed, WellBracketed, ← awaited_brackets, h, awaited_brackets]

theorem of_brackets_eq_nil (h : brackets text = []) : WellBracketed text :=
  (congr_brackets (show brackets text = brackets [] from h)).2 rfl

theorem append (h : WellBracketed text) (hmore : WellBracketed more) :
    WellBracketed (text ++ more) := by
  rw [WellBracketed, h.awaited_append]
  exact hmore

theorem enclosed {opening closing : Char} (hclosing : closerOf? opening = some closing)
    (h : WellBracketed text) (hmore : WellBracketed more) :
    WellBracketed (opening :: (text ++ closing :: more)) := by
  rw [WellBracketed, awaited_cons_opening hclosing, h.awaited_append, awaited_cons_closing hclosing]
  exact hmore

theorem flatMap {α : Type} {items : List α} {write : α → List Char}
    (h : ∀ item ∈ items, WellBracketed (write item)) : WellBracketed (items.flatMap write) := by
  induction items with
  | nil => rfl
  | cons item items ih =>
      rw [List.forall_mem_cons] at h
      exact h.1.append (ih h.2)

theorem intercalate {separator : List Char} (hseparator : WellBracketed separator)
    {texts : List (List Char)} (h : ∀ text ∈ texts, WellBracketed text) :
    WellBracketed (separator.intercalate texts) := by
  induction texts with
  | nil => rfl
  | cons text texts ih =>
      rw [List.forall_mem_cons] at h
      cases texts with
      | nil =>
          rw [List.intercalate_singleton]
          exact h.1
      | cons next texts =>
          rw [List.intercalate_cons_cons]
          exact (h.1.append hseparator).append (ih h.2)

/-- The beginning of a well-bracketed text closes only what is open. -/
theorem exists_awaited_of_prefix (h : WellBracketed text) (hmore : more <+: text) :
    ∃ waiting, awaited [] more = some waiting := by
  obtain ⟨rest, rfl⟩ := hmore
  rw [WellBracketed, Text.awaited_append, Option.bind_eq_some_iff] at h
  obtain ⟨waiting, hwaiting, -⟩ := h
  exact ⟨waiting, hwaiting⟩

end WellBracketed

/-! ## Brackets that belong together -/

/-- The bracket at `closing` closes the one at `opening`: read from the opening bracket on,
something is awaited as far as the closing one, and nothing behind it. -/
structure Closes (text : List Char) (opening closing : Nat) : Prop where
  lt : opening < closing
  awaits : ∀ stop, opening < stop → stop ≤ closing →
    ∃ c waiting, awaited [] (slice text opening stop) = some (c :: waiting)
  settled : WellBracketed (slice text opening (closing + 1))

theorem slice_append_length (before text : List Char) (n : Nat) :
    slice (before ++ text) before.length (before.length + n) = text.take n := by
  rw [slice_add, List.drop_left]

/-- Around a well-bracketed text, brackets of one kind belong together. -/
theorem closes_append {opening closing : Char} (hclosing : closerOf? opening = some closing)
    {inside : List Char} (hinside : WellBracketed inside) (before after : List Char) :
    Closes (before ++ opening :: (inside ++ closing :: after)) before.length
      (before.length + (inside.length + 1)) where
  lt := by omega
  awaits stop hopen hclose := by
    obtain ⟨n, rfl⟩ := Nat.exists_eq_add_of_lt hopen
    have hn : n ≤ inside.length := by omega
    obtain ⟨waiting, hwaiting⟩ := hinside.exists_awaited_of_prefix (List.take_prefix n inside)
    have hframe := awaited_frame hwaiting [closing]
    rw [List.nil_append] at hframe
    rw [Nat.add_assoc, slice_append_length, List.take_succ_cons, List.take_append_of_le_length hn,
      awaited_cons_opening hclosing, hframe]
    cases waiting with
    | nil => exact ⟨closing, [], rfl⟩
    | cons c waiting => exact ⟨c, waiting ++ [closing], rfl⟩
  settled := by
    have htake : (opening :: (inside ++ closing :: after)).take (inside.length + 1 + 1) =
        opening :: (inside ++ [closing]) := by
      rw [List.take_succ_cons, List.take_length_add_append]
      rfl
    rw [Nat.add_assoc, slice_append_length, htake]
    exact hinside.enclosed hclosing rfl

end Fakery.Text
