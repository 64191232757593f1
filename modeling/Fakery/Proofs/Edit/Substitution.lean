import Fakery.Edit.Basic
import Fakery.Proofs.Text.Solid

/-!
# Edits as substitution

Edits that do not overlap are applied as if all at once: the edited text is made of
the stretches between the edits and of their replacements, in the order of the text.
-/

namespace Fakery.Edit

/-- The text from an offset on in which edits, given from front to back, have taken
their places. -/
def weave (source : List Char) : (offset : Nat) → List Edit → List Char
  | offset, [] => source.drop offset
  | offset, edit :: rest =>
    Text.slice source offset edit.start ++ edit.replacement ++ weave source edit.stop rest

/-- The range of an edit lies inside a text. -/
def Fits (source : List Char) (edit : Edit) : Prop :=
  edit.start ≤ edit.stop ∧ edit.stop ≤ source.length

instance (source : List Char) (edit : Edit) : Decidable (edit.Fits source) :=
  inferInstanceAs (Decidable (_ ∧ _))

/-- One edit ends where another begins or earlier, and is in front of it by place. -/
def Before (a b : Edit) : Prop :=
  a.stop ≤ b.start ∧ b.precedes a = false

instance (a b : Edit) : Decidable (a.Before b) :=
  inferInstanceAs (Decidable (_ ∧ _))

@[simp]
theorem applyAll_singleton (source : List Char) (edit : Edit) :
    applyAll source [edit] = edit.apply source := by
  simp [applyAll, backToFront]

theorem precedes_trans (a b c : Edit) (hab : a.precedes b = true) (hbc : b.precedes c = true) :
    a.precedes c = true := by
  simp only [precedes, Bool.or_eq_true, Bool.and_eq_true, decide_eq_true_eq, beq_iff_eq] at *
  omega

theorem precedes_total (a b : Edit) : (a.precedes b || b.precedes a) = true := by
  simp only [precedes, Bool.or_eq_true, Bool.and_eq_true, decide_eq_true_eq, beq_iff_eq]
  omega

theorem before_of_lt {a b : Edit} (hstop : a.stop ≤ b.start) (hlt : a.start < b.start) :
    a.Before b := by
  refine ⟨hstop, ?_⟩
  simp only [precedes, Bool.or_eq_false_iff, Bool.and_eq_false_iff, decide_eq_false_iff_not,
    beq_eq_false_iff_ne]
  omega

theorem Before.precedes {a b : Edit} (h : a.Before b) : a.precedes b = true := by
  have htotal := precedes_total a b
  rwa [h.2, Bool.or_false] at htotal

theorem Before.key_ne {a b : Edit} (h : a.Before b) : (a.start, a.stop) ≠ (b.start, b.stop) := by
  intro heq
  obtain ⟨hstart, hstop⟩ := Prod.mk.inj heq
  have hfalse := h.2
  simp [Edit.precedes, hstart, hstop] at hfalse

/-- Edits that lie apart are sorted in one way only. -/
theorem backToFront_eq {edits ordered : List Edit} (hperm : ordered.Perm edits)
    (hordered : ordered.Pairwise Before) : backToFront edits = ordered.reverse := by
  have hsorted : (backToFront edits).Pairwise fun a b => b.precedes a = true :=
    List.pairwise_mergeSort (fun a b c hab hbc => precedes_trans c b a hbc hab)
      (fun a b => precedes_total b a) edits
  have hreverse : ordered.reverse.Pairwise fun a b => b.precedes a = true :=
    List.pairwise_reverse.2 (hordered.imp Before.precedes)
  have hsame : (backToFront edits).Perm ordered.reverse :=
    (List.mergeSort_perm edits _).trans (hperm.symm.trans ordered.reverse_perm.symm)
  have hapart : ordered.Pairwise fun a b => a.Before b ∨ b.Before a :=
    hordered.imp Or.inl
  have hsymm : Std.Symm fun a b : Edit => a.Before b ∨ b.Before a := ⟨fun _ _ => Or.symm⟩
  refine List.Perm.eq_of_pairwise (fun a b ha hb hba hab => ?_) hsorted hreverse hsame
  by_contra hne
  have ha := List.mem_reverse.1 (hsame.mem_iff.1 ha)
  rcases hapart.forall ha (List.mem_reverse.1 hb) hne with hbefore | hbefore
  · rw [hbefore.2] at hba
    exact absurd hba (by simp)
  · rw [hbefore.2] at hab
    exact absurd hab (by simp)

/-- Items whose edits lie apart can be put in the order of the text. -/
theorem exists_ordered {α : Type} (edit : α → Edit) {r : α → α → Prop}
    (hr : ∀ {a b}, r a b → (edit a).Before (edit b)) {items : List α}
    (hapart : items.Pairwise fun a b => r a b ∨ r b a) :
    ∃ ordered : List α, ordered.Perm items ∧ ordered.Pairwise r := by
  have hperm := List.mergeSort_perm items fun a b => (edit a).precedes (edit b)
  have hsorted := @List.pairwise_mergeSort _ (fun a b : α => (edit a).precedes (edit b))
    (fun a b c => precedes_trans (edit a) (edit b) (edit c))
    (fun a b => precedes_total (edit a) (edit b)) items
  refine ⟨_, hperm, ?_⟩
  have hboth := ((hperm.pairwise_iff fun {_ _} => Or.symm).2 hapart).and hsorted
  refine hboth.imp fun {a b} ⟨hab, hle⟩ => ?_
  rcases hab with hab | hba
  · exact hab
  · exact absurd hle (by simp [(hr hba).2])

/-- Applying edits back to front weaves them front to back. -/
theorem foldl_apply_reverse {source : List Char} {edits : List Edit}
    (hfits : ∀ edit ∈ edits, edit.Fits source) (hordered : edits.Pairwise Before) :
    edits.reverse.foldl apply source = weave source 0 edits := by
  -- the induction peels the first edit, so it runs over the text from an offset on
  have hfrom : ∀ offset, (∀ edit ∈ edits, offset ≤ edit.start) → offset ≤ source.length →
      edits.reverse.foldl apply source = source.take offset ++ weave source offset edits := by
    induction edits with
    | nil =>
        intro offset _ _
        simp [weave]
    | cons edit rest ih =>
        intro offset hoffset hlength
        obtain ⟨hbefore, hordered⟩ := List.pairwise_cons.1 hordered
        obtain ⟨hle, hstop⟩ := hfits edit (List.mem_cons_self ..)
        have hstart := hoffset edit (List.mem_cons_self ..)
        have hrest := ih (fun other hother => hfits other (List.mem_cons_of_mem _ hother)) hordered
          edit.stop (fun other hother => (hbefore other hother).1) hstop
        rw [List.reverse_cons, List.foldl_append, hrest]
        have htake : (source.take edit.stop ++ weave source edit.stop rest).take edit.start =
            source.take edit.start := by
          rw [List.take_append_of_le_length (by simp; omega), List.take_take,
            Nat.min_eq_left hle]
        have hdrop : (source.take edit.stop ++ weave source edit.stop rest).drop edit.stop =
            weave source edit.stop rest := by
          rw [List.drop_append]
          simp [hstop]
        simp only [List.foldl_cons, List.foldl_nil, apply, weave, htake, hdrop]
        rw [← Text.take_append_slice source hstart]
        simp
  simpa using hfrom 0 (by simp) (Nat.zero_le _)

/-- Edits that lie apart are woven into the text, whatever order they are given in. -/
theorem applyAll_eq_weave {source : List Char} {edits ordered : List Edit}
    (hperm : ordered.Perm edits) (hfits : ∀ edit ∈ edits, edit.Fits source)
    (hordered : ordered.Pairwise Before) : applyAll source edits = weave source 0 ordered := by
  rw [applyAll, backToFront_eq hperm hordered]
  exact foldl_apply_reverse (fun edit hedit => hfits edit (hperm.mem_iff.1 hedit)) hordered

/-- An edit as the solid characters of the text see it. -/
def squeeze (source : List Char) (edit : Edit) : Edit :=
  ⟨Text.solidCount source edit.start, Text.solidCount source edit.stop,
    Text.solids edit.replacement⟩

/-- Taking the solid characters of a woven text weaves their squeezed edits. -/
theorem solids_weave {source : List Char} {edits : List Edit} {offset : Nat}
    (hfits : ∀ edit ∈ edits, edit.Fits source) (hordered : edits.Pairwise Before)
    (hoffset : ∀ edit ∈ edits, offset ≤ edit.start) :
    Text.solids (weave source offset edits) =
      weave (Text.solids source) (Text.solidCount source offset) (edits.map (squeeze source)) := by
  induction edits generalizing offset with
  | nil => exact (Text.drop_solidCount source offset).symm
  | cons edit rest ih =>
      obtain ⟨hbefore, hordered⟩ := List.pairwise_cons.1 hordered
      have hrest := ih (fun other hother => hfits other (List.mem_cons_of_mem _ hother)) hordered
        (fun other hother => (hbefore other hother).1)
      simp only [weave, List.map_cons, Text.solids_append, hrest, squeeze,
        Text.solids_slice source (hoffset edit (List.mem_cons_self ..))]

/-- What edited text has for one offset of the unedited one: what is put there, and
the character there unless an edit covers it. -/
def spot (source : List Char) (edits : List Edit) (i : Nat) : List Char :=
  (edits.filter (·.start == i)).flatMap (·.replacement) ++
    if edits.any (fun edit => edit.start ≤ i && i < edit.stop) then [] else source[i]?.toList

/-- What stands at an offset is what the first edit puts there, or what the other edits leave. -/
theorem spot_cons (source : List Char) (edit : Edit) (rest : List Edit) (i : Nat)
    (hrest : ∀ other ∈ rest, edit.stop ≤ other.start) :
    spot source (edit :: rest) i =
      (if edit.start = i then edit.replacement else []) ++
        if edit.start ≤ i ∧ i < edit.stop then [] else spot source rest i := by
  by_cases hcovered : edit.start ≤ i ∧ i < edit.stop
  · have hnone : rest.filter (·.start == i) = [] := by
      rw [List.filter_eq_nil_iff]
      intro other hother
      have hstop := hrest other hother
      simp only [beq_iff_eq]
      omega
    by_cases hstart : edit.start = i <;> simp [spot, hnone, hstart, hcovered]
  · have hopen : (decide (edit.start ≤ i) && decide (i < edit.stop)) = false := by
      simpa using hcovered
    simp only [spot, List.any_cons, hopen, Bool.false_or, if_neg hcovered]
    by_cases hstart : edit.start = i <;> simp [hstart]

/-- In front of all edits the text stays. -/
theorem spot_of_lt {source : List Char} {edits : List Edit} {i : Nat}
    (hfront : ∀ edit ∈ edits, i < edit.start) : spot source edits i = source[i]?.toList := by
  have hnone : edits.filter (·.start == i) = [] := by
    rw [List.filter_eq_nil_iff]
    intro edit hedit
    have hlt := hfront edit hedit
    simp only [beq_iff_eq]
    omega
  have hopen : edits.any (fun edit => edit.start ≤ i && i < edit.stop) = false := by
    rw [List.any_eq_false]
    intro edit hedit
    have hlt := hfront edit hedit
    simp only [Bool.and_eq_true, decide_eq_true_eq]
    omega
  simp [spot, hnone, hopen]

theorem range'_split {a b c : Nat} (hab : a ≤ b) (hbc : b ≤ c) :
    List.range' a (c - a) = List.range' a (b - a) ++ List.range' b (c - b) := by
  have hb : a + 1 * (b - a) = b := by omega
  have hc : b - a + (c - b) = c - a := by omega
  rw [← hc, ← List.range'_append, hb]

/-- From its start on, an edit puts its replacement and hides the text up to its stop. -/
theorem flatMap_spot_cons {source : List Char} {edit : Edit} {rest : List Edit}
    (hfits : edit.Fits source) (hrest : ∀ other ∈ rest, edit.stop ≤ other.start) :
    (List.range' edit.start (source.length + 1 - edit.start)).flatMap (spot source (edit :: rest)) =
      edit.replacement ++
        (List.range' edit.stop (source.length + 1 - edit.stop)).flatMap (spot source rest) := by
  obtain ⟨hle, hstop⟩ := hfits
  have hspot := fun i => spot_cons source edit rest i hrest
  have hput : (List.range' edit.start (source.length + 1 - edit.start)).flatMap
      (spot source (edit :: rest)) = edit.replacement ++
        (List.range' edit.start (source.length + 1 - edit.start)).flatMap fun i =>
          if edit.start ≤ i ∧ i < edit.stop then [] else spot source rest i := by
    have hsucc : source.length + 1 - edit.start = source.length - edit.start + 1 := by omega
    rw [hsucc, List.range'_succ, List.flatMap_cons, List.flatMap_cons, hspot edit.start,
      if_pos rfl, List.append_assoc]
    congr 2
    refine List.flatMap_congr fun i hi => ?_
    have hi := List.mem_range'_1.1 hi
    rw [hspot i, if_neg (by omega), List.nil_append]
  have hhidden : (List.range' edit.start (edit.stop - edit.start)).flatMap (fun i =>
      if edit.start ≤ i ∧ i < edit.stop then [] else spot source rest i) = [] := by
    rw [List.flatMap_eq_nil_iff]
    intro i hi
    have hi := List.mem_range'_1.1 hi
    exact if_pos (by omega)
  rw [hput, range'_split hle (Nat.le_succ_of_le hstop), List.flatMap_append, hhidden,
    List.nil_append, List.append_cancel_left_eq]
  refine List.flatMap_congr fun i hi => ?_
  have hi := List.mem_range'_1.1 hi
  exact if_neg (by omega)

/-- A woven text, offset by offset. -/
theorem weave_eq_flatMap_spot {source : List Char} {edits : List Edit} {offset : Nat}
    (hfits : ∀ edit ∈ edits, edit.Fits source) (hordered : edits.Pairwise Before)
    (hoffset : ∀ edit ∈ edits, offset ≤ edit.start) (hlength : offset ≤ source.length) :
    weave source offset edits =
      (List.range' offset (source.length + 1 - offset)).flatMap (spot source edits) := by
  induction edits generalizing offset with
  | nil =>
      have hspot : spot source [] = fun i => source[i]?.toList := by
        funext i
        simp [spot]
      rw [hspot, Text.flatMap_range', weave, Text.slice, List.take_of_length_le (by omega)]
  | cons edit rest ih =>
      obtain ⟨hbefore, hordered⟩ := List.pairwise_cons.1 hordered
      have hedit := hfits edit (List.mem_cons_self ..)
      have hstart := hoffset edit (List.mem_cons_self ..)
      have hrest : ∀ other ∈ rest, edit.stop ≤ other.start :=
        fun other hother => (hbefore other hother).1
      have hfront : (List.range' offset (edit.start - offset)).flatMap (spot source (edit :: rest)) =
          Text.slice source offset edit.start := by
        rw [← Nat.add_sub_of_le hstart, Nat.add_sub_cancel_left, ← Text.flatMap_range']
        refine List.flatMap_congr fun i hi => spot_of_lt fun other hother => ?_
        have hi := List.mem_range'_1.1 hi
        have hle := hedit.1
        rcases List.mem_cons.1 hother with rfl | hother
        · omega
        · have hother := hrest other hother
          omega
      rw [weave, ih (fun other hother => hfits other (List.mem_cons_of_mem _ hother)) hordered hrest
        hedit.2, range'_split hstart (Nat.le_succ_of_le (hedit.1.trans hedit.2)),
        List.flatMap_append, hfront, flatMap_spot_cons hedit hrest, List.append_assoc]

end Fakery.Edit
