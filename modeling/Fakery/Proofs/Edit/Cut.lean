import Fakery.Proofs.Edit.Extent

/-!
# Edits and their cores

The edits of an expansion reach over blanks around the text they are about.  Their
cores do not.  Up to white space both lead to one text, which is read off the cores
offset by offset.
-/

namespace Fakery

open Text

namespace Edit

/-- The order of edits that start at different offsets does not matter. -/
theorem spot_perm {source : List Char} {edits others : List Edit} (hperm : edits.Perm others)
    (hdistinct : edits.Pairwise fun a b => a.start ≠ b.start) :
    spot source edits = spot source others := by
  funext i
  have hany : edits.any (fun edit => edit.start ≤ i && i < edit.stop) =
      others.any (fun edit => edit.start ≤ i && i < edit.stop) := hperm.any_eq
  have hfilter := hperm.filter (·.start == i)
  have hsame : edits.filter (·.start == i) = others.filter (·.start == i) := by
    cases hfound : edits.filter (·.start == i) with
    | nil =>
        rw [hfound] at hfilter
        exact hfilter.nil_eq
    | cons edit rest =>
        have hnone : rest = [] := by
          rw [List.eq_nil_iff_forall_not_mem]
          intro other hother
          have hpair : (edit :: rest).Pairwise fun a b => a.start ≠ b.start :=
            hfound ▸ hdistinct.filter _
          have hstart : ∀ found ∈ edit :: rest, found.start = i := by
            intro found hmem
            rw [← hfound] at hmem
            exact beq_iff_eq.1 (List.mem_filter.1 hmem).2
          refine (List.pairwise_cons.1 hpair).1 other hother ?_
          rw [hstart edit (List.mem_cons_self ..), hstart other (List.mem_cons_of_mem _ hother)]
        rw [hfound, hnone] at hfilter
        rw [hnone]
        exact (List.perm_singleton.1 hfilter.symm).symm
  rw [spot, spot, hany, hsame]

end Edit

/-- An edit together with its core. -/
structure Cut where
  edit : Edit
  core : Edit

namespace Cut

def Before (a b : Cut) : Prop :=
  a.edit.Before b.edit ∧ a.core.start < b.core.start ∧ a.core.stop ≤ b.core.start

/-- A cut that is about text from `first` on and ends before the solid character at
`follow`, and whose edit and core differ by blanks. -/
structure Anchored (source : List Char) (first follow : Nat) (cut : Cut) : Prop where
  edit_le : cut.edit.start ≤ cut.edit.stop
  core_le : cut.core.start ≤ cut.core.stop
  edit_stop_le : cut.edit.stop ≤ follow
  core_stop_le : cut.core.stop ≤ follow
  core_start_eq : cut.core.start = first
  lt_edit_start : ∀ i, Solid source i → i < first → i < cut.edit.start
  solid_follow : Solid source follow
  squeeze_eq : cut.edit.squeeze source = cut.core.squeeze source

theorem Anchored.before {source : List Char} {a b : Cut} {first follow first' follow' : Nat}
    (ha : a.Anchored source first follow) (hb : b.Anchored source first' follow')
    (hlt : follow < first') : a.Before b := by
  have hstart := hb.lt_edit_start follow ha.solid_follow hlt
  have hedit := ha.edit_le.trans ha.edit_stop_le
  have hcore := ha.core_le.trans ha.core_stop_le
  refine ⟨Edit.before_of_lt (ha.edit_stop_le.trans hstart.le) (hedit.trans_lt hstart), ?_, ?_⟩
  · rw [hb.core_start_eq]
    exact hcore.trans_lt hlt
  · rw [hb.core_start_eq]
    exact ha.core_stop_le.trans hlt.le

/-- The cut that removes the text between two offsets. -/
def removing (source : List Char) (start stop : Nat) : Cut :=
  ⟨removal source start stop, ⟨start, stop, []⟩⟩

/-- The cut that inserts a block before a closing brace. -/
def inserting (source : List Char) (site : Site) (rendered unit : List Char) : Cut :=
  ⟨insertion source site rendered unit, ⟨site.bodyEnd, site.bodyEnd, rendered⟩⟩

theorem solid_lt_length {source : List Char} {i : Nat} (h : Solid source i) : i < source.length := by
  obtain ⟨c, hc, -⟩ := h
  exact (List.getElem?_eq_some_iff.1 hc).1

/-- A removal is anchored between the place it starts at and the next solid character. -/
theorem removing_anchored {source : List Char} {start stop follow : Nat} (hlt : start < stop)
    (hstop : stop ≤ follow) (hfollow : Solid source follow) :
    (removing source start stop).Anchored source start follow := by
  have hlength := solid_lt_length hfollow
  have hremoves := removal_removes hlt.le (hstop.trans hlength.le)
  have hstart := solidCount_eq hremoves.start_le hremoves.blank_before
  have hend := solidCount_eq hremoves.le_stop hremoves.blank_after
  exact {
    edit_le := hremoves.start_le.trans (hlt.le.trans hremoves.le_stop)
    core_le := hlt.le
    edit_stop_le := le_of_solid hremoves.blank_after hfollow hstop
    core_stop_le := hstop
    core_start_eq := rfl
    lt_edit_start := fun i hi hbefore => lt_of_solid hremoves.blank_before hi hbefore
    solid_follow := hfollow
    squeeze_eq := by
      simp only [removing, Edit.squeeze, hstart, ← hend, hremoves.replacement_eq] }

/-- An insertion is anchored at the brace that closes the body. -/
theorem inserting_anchored {source : List Char} {site : Site} {rendered unit : List Char}
    (hclose : Solid source site.bodyEnd) (hunit : solids unit = []) :
    (inserting source site rendered unit).Anchored source site.bodyEnd site.bodyEnd := by
  have hlength := solid_lt_length hclose
  have hinserts := @insertion_inserts _ _ rendered _ hlength.le hunit
  have hstart := solidCount_eq (hinserts.start_le.trans hinserts.stop_le) hinserts.blank
  have hend : solidCount source (insertion source site rendered unit).stop =
      solidCount source site.bodyEnd := by
    refine solidCount_eq hinserts.stop_le (isBlankText_slice.2 fun i hi => ?_)
    exact isBlankText_slice.1 hinserts.blank i (hinserts.start_le.trans hi)
  exact {
    edit_le := hinserts.start_le
    core_le := Nat.le_refl _
    edit_stop_le := hinserts.stop_le
    core_stop_le := Nat.le_refl _
    core_start_eq := rfl
    lt_edit_start := fun i hi hbefore => lt_of_solid hinserts.blank hi hbefore
    solid_follow := hclose
    squeeze_eq := by
      simp only [inserting, Edit.squeeze, hstart, hend, hinserts.solids_eq] }

/-- Two removals one behind the other, with nothing solid between them. -/
theorem removing_before {source : List Char} {a b c d : Nat} (hab : a < b) (hbc : b ≤ c)
    (hcd : c < d) (hd : d ≤ source.length) (hlast : Solid source (b - 1))
    (hfirst : Solid source c) : (removing source a b).Before (removing source c d) := by
  have hstop := removal_stop_le_start hab hbc hcd.le hd hlast hfirst
  have hleft := removal_removes hab.le (hbc.trans (hcd.le.trans hd))
  have hlt : (removal source a b).start < (removal source a b).stop :=
    hleft.start_le.trans_lt (hab.trans_le hleft.le_stop)
  exact ⟨Edit.before_of_lt hstop (hlt.trans_le hstop), hab.trans_le hbc, hbc⟩

section Apart

variable {source : List Char} {cuts : List Cut}

/-- Up to white space, applying the edits of cuts that lie apart puts what their cores
put, and hides what their cores hide. -/
theorem solids_applyAll
    (hanchored : ∀ cut ∈ cuts, ∃ first follow, cut.Anchored source first follow)
    (hapart : cuts.Pairwise fun a b => a.Before b ∨ b.Before a) :
    solids (Edit.applyAll source (cuts.map Cut.edit)) =
      solids ((List.range (source.length + 1)).flatMap (Edit.spot source (cuts.map Cut.core))) := by
  obtain ⟨ordered, hperm, hordered⟩ := Edit.exists_ordered Cut.edit (fun h => h.1) hapart
  have hedits : (ordered.map Cut.edit).Pairwise Edit.Before :=
    List.pairwise_map.2 (hordered.imp And.left)
  have hcores : (ordered.map Cut.core).Pairwise Edit.Before :=
    List.pairwise_map.2 (hordered.imp fun h => Edit.before_of_lt h.2.2 h.2.1)
  have hfits : ∀ cut ∈ cuts, cut.edit.Fits source ∧ cut.core.Fits source := by
    intro cut hcut
    obtain ⟨first, follow, hcut⟩ := hanchored cut hcut
    have hlength := solid_lt_length hcut.solid_follow
    exact ⟨⟨hcut.edit_le, hcut.edit_stop_le.trans hlength.le⟩,
      ⟨hcut.core_le, hcut.core_stop_le.trans hlength.le⟩⟩
  have hfits' : ∀ cut ∈ ordered, cut.edit.Fits source ∧ cut.core.Fits source :=
    fun cut hcut => hfits cut (hperm.mem_iff.1 hcut)
  have hsqueeze : (ordered.map Cut.edit).map (Edit.squeeze source) =
      (ordered.map Cut.core).map (Edit.squeeze source) := by
    simp only [List.map_map, List.map_inj_left]
    intro cut hcut
    obtain ⟨first, follow, hcut⟩ := hanchored cut (hperm.mem_iff.1 hcut)
    exact hcut.squeeze_eq
  have hspot : Edit.spot source (ordered.map Cut.core) = Edit.spot source (cuts.map Cut.core) := by
    refine Edit.spot_perm (hperm.map _) (List.pairwise_map.2 (hordered.imp fun h => ?_))
    exact Nat.ne_of_lt h.2.1
  calc solids (Edit.applyAll source (cuts.map Cut.edit))
      = solids (Edit.weave source 0 (ordered.map Cut.edit)) := by
        rw [Edit.applyAll_eq_weave (hperm.map _) (List.forall_mem_map.2 fun cut hcut =>
          (hfits cut hcut).1) hedits]
    _ = Edit.weave (solids source) (solidCount source 0)
          ((ordered.map Cut.edit).map (Edit.squeeze source)) := by
        refine Edit.solids_weave (List.forall_mem_map.2 fun cut hcut => (hfits' cut hcut).1) hedits ?_
        exact fun _ _ => Nat.zero_le _
    _ = solids (Edit.weave source 0 (ordered.map Cut.core)) := by
        rw [hsqueeze, Edit.solids_weave (List.forall_mem_map.2 fun cut hcut =>
          (hfits' cut hcut).2) hcores fun _ _ => Nat.zero_le _]
    _ = _ := by
        rw [Edit.weave_eq_flatMap_spot (List.forall_mem_map.2 fun cut hcut =>
          (hfits' cut hcut).2) hcores (fun _ _ => Nat.zero_le _) (Nat.zero_le _), hspot,
          List.range_eq_range']
        rfl

end Apart

end Cut

end Fakery
