import Fakery.Proofs.Edit.Substitution

/-!
# Edits made at once

Edits whose ranges do not overlap can be made all at once, even where they touch one another
at their borders.  Applying them back to front does just that: the result has the stretches
between the edits and their replacements in the order of the text, and each character that
no edit touches has a known place in it.
-/

namespace Fakery.Edit

/-- Edits that can be made all at once: their ranges lie inside the text, no two are at one
place, and of any two one ends where the other begins or earlier. -/
structure Compatible (source : List Char) (edits : List Edit) : Prop where
  fits : ∀ edit ∈ edits, edit.Fits source
  distinct : edits.Pairwise fun a b => (a.start, a.stop) ≠ (b.start, b.stop)
  apart : edits.Pairwise fun a b => a.stop ≤ b.start ∨ b.stop ≤ a.start

/-- One edit is in front of another by its start, and by its end if they start together. -/
def Earlier (a b : Edit) : Prop :=
  a.start < b.start ∨ a.start = b.start ∧ a.stop < b.stop

theorem Before.earlier {a b : Edit} (h : a.Before b) : a.Earlier b := by
  have hprecedes := h.2
  simp only [Edit.precedes, Bool.or_eq_false_iff, Bool.and_eq_false_iff, decide_eq_false_iff_not,
    beq_eq_false_iff_ne] at hprecedes
  rw [Earlier]
  omega

/-- An edit that ends in front of another one of a different place is before it. -/
theorem before_of_le {source : List Char} {a b : Edit} (ha : a.Fits source) (hb : b.Fits source)
    (hplace : (a.start, a.stop) ≠ (b.start, b.stop)) (hle : a.stop ≤ b.start) : a.Before b := by
  refine ⟨hle, ?_⟩
  have hab := ha.1
  have hbb := hb.1
  simp only [ne_eq, Prod.mk.injEq] at hplace
  simp only [precedes, Bool.or_eq_false_iff, Bool.and_eq_false_iff, decide_eq_false_iff_not,
    beq_eq_false_iff_ne]
  omega

theorem Compatible.before_or_before {source : List Char} {edits : List Edit}
    (h : Compatible source edits) :
    edits.Pairwise fun a b => a.Before b ∨ b.Before a := by
  refine ((h.distinct.and h.apart).imp_of_mem ?_)
  rintro a b ha hb ⟨hplace, hle | hle⟩
  · exact Or.inl (before_of_le (h.fits a ha) (h.fits b hb) hplace hle)
  · exact Or.inr (before_of_le (h.fits b hb) (h.fits a ha) hplace.symm hle)

/-- An offset whose character an edit replaces. -/
def Touched (edits : List Edit) (i : Nat) : Prop :=
  ∃ edit ∈ edits, edit.start ≤ i ∧ i < edit.stop

instance (edits : List Edit) (i : Nat) : Decidable (Touched edits i) :=
  inferInstanceAs (Decidable (∃ edit ∈ edits, edit.start ≤ i ∧ i < edit.stop))

theorem touched_cons {edit : Edit} {rest : List Edit} {i : Nat} :
    Touched (edit :: rest) i ↔ edit.start ≤ i ∧ i < edit.stop ∨ Touched rest i := by
  simp [Touched]

/-- An offset that is not touched is in front of an edit or behind it. -/
theorem untouched_cons {edit : Edit} {rest : List Edit} {i : Nat}
    (h : ¬ Touched (edit :: rest) i) : i < edit.start ∨ edit.stop ≤ i ∧ ¬ Touched rest i := by
  rw [touched_cons, not_or] at h
  by_cases hstart : i < edit.start
  · exact Or.inl hstart
  · exact Or.inr ⟨by omega, h.2⟩

/-- How many characters the edits that end at an offset or before put into the text. -/
def putBefore (edits : List Edit) (i : Nat) : Nat :=
  ((edits.filter (·.stop ≤ i)).map (·.replacement.length)).sum

/-- How many characters the edits that end at an offset or before take out of the text. -/
def takenBefore (edits : List Edit) (i : Nat) : Nat :=
  ((edits.filter (·.stop ≤ i)).map fun edit => edit.stop - edit.start).sum

theorem putBefore_cons_of_le {edit : Edit} {rest : List Edit} {i : Nat} (h : edit.stop ≤ i) :
    putBefore (edit :: rest) i = edit.replacement.length + putBefore rest i := by
  simp [putBefore, h]

theorem takenBefore_cons_of_le {edit : Edit} {rest : List Edit} {i : Nat} (h : edit.stop ≤ i) :
    takenBefore (edit :: rest) i = edit.stop - edit.start + takenBefore rest i := by
  simp [takenBefore, h]

/-- The place in the edited text of a character that no edit touches. -/
def landing (edits : List Edit) (i : Nat) : Nat :=
  i + putBefore edits i - takenBefore edits i

/-- The character at an offset, unless an edit touches it. -/
def keptAt (source : List Char) (edits : List Edit) (i : Nat) : List Char :=
  if Touched edits i then [] else source[i]?.toList

/-- The characters of a text that no edit touches. -/
def untouched (source : List Char) (edits : List Edit) : List Char :=
  (List.range source.length).flatMap (keptAt source edits)

/-- Edits in the order of the text, from an offset on. -/
inductive Follows (source : List Char) : (offset : Nat) → List Edit → Prop
  | nil {offset : Nat} (hoffset : offset ≤ source.length) : Follows source offset []
  | cons {offset : Nat} {edit : Edit} {rest : List Edit} (hstart : offset ≤ edit.start)
      (hle : edit.start ≤ edit.stop) (hrest : Follows source edit.stop rest) :
      Follows source offset (edit :: rest)

namespace Follows

variable {source : List Char} {edits : List Edit} {offset i j : Nat}

theorem of_before (hfits : ∀ edit ∈ edits, edit.Fits source) (hordered : edits.Pairwise Before)
    (hoffset : ∀ edit ∈ edits, offset ≤ edit.start) (hlength : offset ≤ source.length) :
    Follows source offset edits := by
  induction edits generalizing offset with
  | nil => exact .nil hlength
  | cons edit rest ih =>
      obtain ⟨hbefore, hordered⟩ := List.pairwise_cons.1 hordered
      obtain ⟨hle, hstop⟩ := hfits edit List.mem_cons_self
      refine .cons (hoffset edit List.mem_cons_self) hle (ih ?_ hordered ?_ hstop)
      · exact fun other hother => hfits other (List.mem_cons_of_mem _ hother)
      · exact fun other hother => (hbefore other hother).1

theorem offset_le_length (h : Follows source offset edits) : offset ≤ source.length := by
  induction h with
  | nil hoffset => exact hoffset
  | cons hstart hle _ ih => exact hstart.trans (hle.trans ih)

theorem bounds (h : Follows source offset edits) :
    ∀ edit ∈ edits, offset ≤ edit.start ∧ edit.start ≤ edit.stop := by
  induction h with
  | nil => simp
  | cons hstart hle _ ih =>
      intro other hother
      rcases List.mem_cons.1 hother with rfl | hother
      · exact ⟨hstart, hle⟩
      · exact (ih other hother).imp_left (hstart.trans hle).trans

theorem not_touched (h : Follows source offset edits) (hi : i < offset) : ¬ Touched edits i := by
  rintro ⟨edit, hedit, htouched⟩
  have hbounds := h.bounds edit hedit
  omega

/-- Nothing is put or taken in front of the first edit. -/
theorem none_before (h : Follows source offset edits) (hi : i < offset) :
    putBefore edits i = 0 ∧ takenBefore edits i = 0 := by
  have hnone : edits.filter (·.stop ≤ i) = [] := by
    rw [List.filter_eq_nil_iff]
    intro edit hedit
    have hbounds := h.bounds edit hedit
    simp only [decide_eq_true_eq]
    omega
  simp [putBefore, takenBefore, hnone]

theorem takenBefore_le (h : Follows source offset edits) (hi : offset ≤ i)
    (huntouched : ¬ Touched edits i) : offset + takenBefore edits i ≤ i := by
  induction h with
  | nil => simpa [takenBefore] using hi
  | @cons offset edit rest hstart hle hrest ih =>
      rcases untouched_cons huntouched with hbefore | ⟨hbehind, hother⟩
      · have hnone := none_before (.cons (Nat.le_refl _) hle hrest) hbefore
        omega
      · have htaken := ih hbehind hother
        rw [takenBefore_cons_of_le hbehind]
        omega

/-- Every character that no edit touches is in the edited text. -/
theorem getElem?_weave (h : Follows source offset edits) (hi : offset ≤ i)
    (huntouched : ¬ Touched edits i) :
    (weave source offset edits)[landing edits i - offset]? = source[i]? := by
  induction h with
  | nil =>
      rw [weave, List.getElem?_drop, landing, putBefore, takenBefore]
      simp [hi]
  | @cons offset edit rest hstart hle hrest ih =>
      have hlength := hrest.offset_le_length
      have hslice : (Text.slice source offset edit.start).length = edit.start - offset := by
        simp only [Text.slice, List.length_drop, List.length_take]
        omega
      rw [weave, landing]
      rcases untouched_cons huntouched with hbefore | ⟨hbehind, hother⟩
      · obtain ⟨hput, htaken⟩ := none_before (.cons (Nat.le_refl _) hle hrest) hbefore
        rw [hput, htaken, Nat.add_zero, Nat.sub_zero, List.append_assoc,
          List.getElem?_append_left (by omega), Text.getElem?_slice source (by omega),
          Nat.add_sub_of_le hi]
      · have htaken := hrest.takenBefore_le hbehind hother
        have hfront : (Text.slice source offset edit.start ++ edit.replacement).length =
            edit.start - offset + edit.replacement.length := by
          rw [List.length_append, hslice]
        rw [← ih hbehind hother, landing, putBefore_cons_of_le hbehind,
          takenBefore_cons_of_le hbehind, List.getElem?_append_right (by omega), hfront]
        congr 1
        omega

/-- Characters that no edit touches stay in their order. -/
theorem landing_lt_landing (h : Follows source offset edits) (hi : offset ≤ i) (hij : i < j)
    (hi' : ¬ Touched edits i) (hj' : ¬ Touched edits j) : landing edits i < landing edits j := by
  induction h with
  | nil => simpa [landing, putBefore, takenBefore] using hij
  | @cons offset edit rest hstart hle hrest ih =>
      have hfollows : Follows source edit.start (edit :: rest) := .cons (Nat.le_refl _) hle hrest
      rw [landing, landing]
      rcases untouched_cons hi' with hbefore | ⟨hbehind, hother⟩
      · have hnone := hfollows.none_before hbefore
        rcases untouched_cons hj' with hbefore' | ⟨hbehind', hother'⟩
        · have hnone' := hfollows.none_before hbefore'
          omega
        · have htaken := hfollows.takenBefore_le (hle.trans hbehind') hj'
          omega
      · obtain hbefore' | ⟨hbehind', hother'⟩ := untouched_cons hj'
        · omega
        · have hlt := ih hbehind hother hother'
          have htaken := hrest.takenBefore_le hbehind hother
          have htaken' := hrest.takenBefore_le hbehind' hother'
          rw [landing, landing] at hlt
          rw [putBefore_cons_of_le hbehind, putBefore_cons_of_le hbehind',
            takenBefore_cons_of_le hbehind, takenBefore_cons_of_le hbehind']
          omega

theorem length_weave (h : Follows source offset edits) :
    (weave source offset edits).length + offset +
        (edits.map fun edit => edit.stop - edit.start).sum =
      source.length + (edits.map (·.replacement.length)).sum := by
  induction h with
  | nil hoffset =>
      simp only [weave, List.length_drop, List.map_nil, List.sum_nil]
      omega
  | @cons offset edit rest hstart hle hrest ih =>
      have hlength := hrest.offset_le_length
      simp only [weave, List.length_append, Text.slice, List.length_drop, List.length_take,
        List.map_cons, List.sum_cons]
      omega

/-- From its start on, an edit hides the text up to its stop. -/
theorem flatMap_keptAt_cons {edit : Edit} {rest : List Edit} (hstart : offset ≤ edit.start)
    (hle : edit.start ≤ edit.stop) (hrest : Follows source edit.stop rest) :
    (List.range' offset (source.length - offset)).flatMap (keptAt source (edit :: rest)) =
      Text.slice source offset edit.start ++
        (List.range' edit.stop (source.length - edit.stop)).flatMap (keptAt source rest) := by
  have hlength := hrest.offset_le_length
  have hbefore : (List.range' offset (edit.start - offset)).flatMap (keptAt source (edit :: rest)) =
      Text.slice source offset edit.start := by
    rw [← Nat.add_sub_of_le hstart, Nat.add_sub_cancel_left, ← Text.flatMap_range']
    have hfollows : Follows source edit.start (edit :: rest) := .cons (Nat.le_refl _) hle hrest
    refine List.flatMap_congr fun i hi => if_neg (hfollows.not_touched ?_)
    have hi := List.mem_range'_1.1 hi
    omega
  have hhidden : (List.range' edit.start (edit.stop - edit.start)).flatMap
      (keptAt source (edit :: rest)) = [] := by
    rw [List.flatMap_eq_nil_iff]
    intro i hi
    have hi := List.mem_range'_1.1 hi
    exact if_pos (touched_cons.2 (Or.inl (by omega)))
  have hbehind : ∀ i ∈ List.range' edit.stop (source.length - edit.stop),
      keptAt source (edit :: rest) i = keptAt source rest i := by
    intro i hi
    have hi := List.mem_range'_1.1 hi
    have htouched : Touched (edit :: rest) i ↔ Touched rest i :=
      touched_cons.trans (or_iff_right (by omega))
    simp only [keptAt, htouched]
  rw [range'_split hstart (hle.trans hlength), range'_split hle hlength, List.flatMap_append,
    List.flatMap_append, hbefore, hhidden, List.nil_append, List.flatMap_congr hbehind]

/-- Weaving keeps the characters outside the edits and adds the replacements, up to order. -/
theorem weave_perm (h : Follows source offset edits) :
    (weave source offset edits).Perm
      ((List.range' offset (source.length - offset)).flatMap (keptAt source edits) ++
        edits.flatMap (·.replacement)) := by
  induction h with
  | @nil offset hoffset =>
      have hkept : keptAt source [] = fun i => source[i]?.toList := by
        funext i
        simp [keptAt, Touched]
      rw [hkept, Text.flatMap_range', Nat.add_sub_of_le hoffset, weave]
      simp [Text.slice]
  | @cons offset edit rest hstart hle hrest ih =>
      rw [flatMap_keptAt_cons hstart hle hrest, weave, List.flatMap_cons, List.append_assoc,
        List.append_assoc]
      refine List.Perm.append_left _ ((ih.append_left _).trans ?_)
      rw [← List.append_assoc, ← List.append_assoc]
      exact List.perm_append_comm.append_right _

end Follows

/-- A text is what edits of another text leave, all made at once: the stretches between them
and their replacements in the order of the text.  Each character that no edit touches is
there once, in its order, and nothing else is but the replacements. -/
structure Substitutes (source : List Char) (edits : List Edit) (result : List Char) : Prop where
  woven : ∃ ordered : List Edit, ordered.Perm edits ∧ ordered.Pairwise Earlier ∧
    result = weave source 0 ordered
  survives : ∀ i, ¬ Touched edits i → result[landing edits i]? = source[i]?
  in_order : ∀ i j, i < j → ¬ Touched edits i → ¬ Touched edits j →
    landing edits i < landing edits j
  perm : result.Perm (untouched source edits ++ edits.flatMap (·.replacement))
  length_add : result.length + (edits.map fun edit => edit.stop - edit.start).sum =
    source.length + (edits.map (·.replacement.length)).sum

section Perm

variable {edits others : List Edit}

theorem touched_perm (h : edits.Perm others) (i : Nat) : Touched edits i ↔ Touched others i := by
  simp only [Touched, h.mem_iff]

theorem landing_perm (h : edits.Perm others) (i : Nat) : landing edits i = landing others i := by
  have hfilter := h.filter (·.stop ≤ i)
  have hput : putBefore edits i = putBefore others i := (hfilter.map _).sum_eq
  have htaken : takenBefore edits i = takenBefore others i := (hfilter.map _).sum_eq
  rw [landing, landing, hput, htaken]

theorem untouched_perm (source : List Char) (h : edits.Perm others) :
    untouched source edits = untouched source others := by
  have hkept : keptAt source edits = keptAt source others := by
    funext i
    simp only [keptAt, touched_perm h i]
  rw [untouched, untouched, hkept]

end Perm

/-- Edits that follow each other are substituted at once by weaving them. -/
theorem Follows.substitutes {source : List Char} {edits ordered : List Edit}
    (h : Follows source 0 ordered) (hearlier : ordered.Pairwise Earlier)
    (hperm : ordered.Perm edits) : Substitutes source edits (weave source 0 ordered) where
  woven := ⟨ordered, hperm, hearlier, rfl⟩
  survives i hi := by
    have hi' := (not_congr (touched_perm hperm i)).2 hi
    rw [← landing_perm hperm]
    exact h.getElem?_weave (Nat.zero_le i) hi'
  in_order i j hij hi hj := by
    rw [← landing_perm hperm, ← landing_perm hperm]
    exact h.landing_lt_landing (Nat.zero_le i) hij ((not_congr (touched_perm hperm i)).2 hi)
      ((not_congr (touched_perm hperm j)).2 hj)
  perm := by
    rw [← untouched_perm source hperm, untouched, List.range_eq_range']
    exact h.weave_perm.trans ((hperm.flatMap_right _).append_left _)
  length_add := by
    rw [← (hperm.map _).sum_eq, ← (hperm.map _).sum_eq]
    simpa using h.length_weave

/-- Edits of a text that are compatible are made all at once, whatever order they are given
in. -/
theorem applyAll_substitutes {source : List Char} {edits : List Edit}
    (h : Compatible source edits) :
    Substitutes source edits (applyAll source edits) ∧
      ∀ others : List Edit, others.Perm edits → applyAll source others = applyAll source edits := by
  obtain ⟨ordered, hperm, hordered⟩ := exists_ordered id (fun h => h) h.before_or_before
  have hfits : ∀ edit ∈ ordered, edit.Fits source :=
    fun edit hedit => h.fits edit (hperm.mem_iff.1 hedit)
  have hweave : ∀ others : List Edit, others.Perm edits →
      applyAll source others = weave source 0 ordered := by
    intro others hothers
    exact applyAll_eq_weave (hperm.trans hothers.symm)
      (fun edit hedit => h.fits edit (hothers.mem_iff.1 hedit)) hordered
  have hfollows : Follows source 0 ordered :=
    .of_before hfits hordered (fun _ _ => Nat.zero_le _) (Nat.zero_le _)
  rw [hweave edits (.refl _)]
  exact ⟨hfollows.substitutes (hordered.imp Before.earlier) hperm, hweave⟩

/-- Edits that touch one another at their borders, given out of order. -/
def touching : List Edit :=
  [⟨4, 5, []⟩, ⟨2, 4, "X".toList⟩, ⟨0, 0, "YZ".toList⟩, ⟨4, 4, "W".toList⟩]

theorem applyAll_substitutes_touching :
    Compatible "abcdef".toList touching ∧
      Substitutes "abcdef".toList touching "YZabXWf".toList ∧
      ∀ others : List Edit, others.Perm touching →
        applyAll "abcdef".toList others = "YZabXWf".toList := by
  have hcompatible : Compatible "abcdef".toList touching := by
    constructor
    · unfold Fits; decide
    · decide
    · decide
  have happly := applyAll_substitutes hcompatible
  have hresult : applyAll "abcdef".toList touching = "YZabXWf".toList := by
    have hordered : [⟨0, 0, "YZ".toList⟩, ⟨2, 4, "X".toList⟩, ⟨4, 4, "W".toList⟩,
        (⟨4, 5, []⟩ : Edit)].Pairwise Before := by
      unfold Before
      decide
    exact applyAll_eq_weave (by decide) hcompatible.fits hordered
  rw [hresult] at happly
  exact ⟨hcompatible, happly⟩

end Fakery.Edit
