import Fakery.Expansion
import Fakery.Proofs.Edit.Cut
import Fakery.Proofs.Source.Walk
import Fakery.Settings.Format

/-!
# Splicing keeps the text

The edits of an expansion lie apart from each other.  Up to white space, the text they
lead to is the source text without the attributes taken out and with the rendered
members before the closing braces.
-/

namespace Fakery

open Text

namespace TypeDecl

def cuts (source : List Char) (unit : String) (decl : TypeDecl) (generation : Generation) :
    List Cut :=
  decl.consumed.map (fun found => Cut.removing source found.start found.stop)
    ++ [Cut.inserting source decl.site (renderMembers unit generation.members).toList unit.toList]

theorem map_edit_cuts (source : List Char) (unit : String) (decl : TypeDecl)
    (generation : Generation) :
    (decl.cuts source unit generation).map Cut.edit = decl.edits source unit generation := by
  simp [cuts, edits, Cut.removing, Cut.inserting]

/-- A cut is about a place in the header of a declaration, in one of its direct
properties, or at its closing brace. -/
def Places (source : List Char) (decl : TypeDecl) (cut : Cut) : Prop :=
  ∃ first follow, cut.Anchored source first follow ∧ decl.header.start ≤ first ∧
    (follow ≤ decl.header.keywordStart ∨
      (∃ p, Member.property p ∈ decl.members ∧ p.start ≤ first ∧ follow < p.stop) ∨
      first = decl.header.bodyEnd ∧ follow = decl.header.bodyEnd)

section Stands

variable {source : List Char} {decl : TypeDecl}

theorem header_stands (h : decl.toMember.Stands source) : decl.header.Stands source := by
  cases h with
  | type hheader hbounds hapart hstands => exact hheader

theorem property_stands (h : decl.toMember.Stands source) {p : Property}
    (hp : Member.property p ∈ decl.members) : p.Stands source := by
  cases h with
  | type hheader hbounds hapart hstands =>
      cases hstands _ (List.mem_append_left _ hp) with
      | property hproperty => exact hproperty

theorem property_bounds (h : decl.toMember.Stands source) {p : Property}
    (hp : Member.property p ∈ decl.members) :
    decl.header.bodyStart < p.start ∧ p.start < p.stop ∧ p.stop ≤ decl.header.bodyEnd :=
  (laminar_of_stands h).members_between_braces _ (List.mem_append_left _ hp)

theorem solid_bodyEnd (h : decl.toMember.Stands source) : Solid source decl.header.bodyEnd :=
  ⟨'\x7d', (header_stands h).closing, rfl⟩

theorem mem_defaultAnnotations {found : Attribute} (hfound : found ∈ decl.defaultAnnotations) :
    ∃ p, Member.property p ∈ decl.members ∧ found ∈ p.attributes := by
  obtain ⟨p, hp, hfound⟩ := List.mem_flatMap.1 hfound
  obtain ⟨m, hm, hproperty⟩ := List.mem_filterMap.1 hp
  cases m with
  | property q =>
      cases hproperty
      exact ⟨p, hm, (List.mem_filter.1 hfound).1⟩
  | _ => cases hproperty

/-- An attribute of the header is cut out before the keyword. -/
theorem removing_header (h : decl.toMember.Stands source) {found : Attribute}
    (hfound : found ∈ decl.header.attributes) :
    decl.header.start ≤ found.start ∧
      (Cut.removing source found.start found.stop).Anchored source found.start
        decl.header.keywordStart := by
  have hheader := header_stands h
  obtain ⟨hstart, hlt, hstop⟩ := hheader.attributes.bounds found hfound
  exact ⟨hstart, Cut.removing_anchored hlt hstop hheader.keyword_solid⟩

/-- An attribute of a property is cut out inside the property. -/
theorem removing_property (h : decl.toMember.Stands source) {p : Property}
    (hp : Member.property p ∈ decl.members) {found : Attribute} (hfound : found ∈ p.attributes) :
    ∃ follow, p.start ≤ found.start ∧ follow < p.stop ∧
      (Cut.removing source found.start found.stop).Anchored source found.start follow := by
  obtain ⟨follow, hlt, hsolid, hattributes⟩ := property_stands h hp
  obtain ⟨hstart, hbounds, hstop⟩ := hattributes.bounds found hfound
  exact ⟨follow, hstart, hlt, Cut.removing_anchored hbounds hstop hsolid⟩

theorem inserting_bodyEnd (h : decl.toMember.Stands source) (rendered : List Char)
    {unit : List Char} (hunit : solids unit = []) :
    (Cut.inserting source decl.site rendered unit).Anchored source decl.header.bodyEnd
      decl.header.bodyEnd := by
  have hclose : Solid source decl.site.bodyEnd := solid_bodyEnd h
  exact Cut.inserting_anchored hclose hunit

theorem places_of_mem_header (h : decl.toMember.Stands source) {found : Attribute}
    (hfound : found ∈ decl.header.attributes) :
    decl.Places source (Cut.removing source found.start found.stop) := by
  obtain ⟨hstart, hanchored⟩ := removing_header h hfound
  exact ⟨_, _, hanchored, hstart, Or.inl (Nat.le_refl _)⟩

theorem places_of_mem_consumed (h : decl.toMember.Stands source) {found : Attribute}
    (hfound : found ∈ decl.consumed) :
    decl.Places source (Cut.removing source found.start found.stop) := by
  have hkeyword := (header_stands h).start_le
  have hbody := (header_stands h).keywordStart_lt
  rcases List.mem_append.1 hfound with hfound | hfound
  · exact places_of_mem_header h (List.mem_of_find?_eq_some (Option.mem_toList.1 hfound))
  · obtain ⟨p, hp, hfound⟩ := mem_defaultAnnotations hfound
    obtain ⟨follow, hstart, hlt, hanchored⟩ := removing_property h hp hfound
    have hbounds := property_bounds h hp
    exact ⟨_, _, hanchored, by omega, Or.inr (Or.inl ⟨p, hp, hstart, hlt⟩)⟩

/-- Every cut of a declaration has its place in it. -/
theorem places_of_mem_cuts (h : decl.toMember.Stands source) {unit : String}
    (hunit : solids unit.toList = []) {generation : Generation} {cut : Cut}
    (hcut : cut ∈ decl.cuts source unit generation) : decl.Places source cut := by
  rcases List.mem_append.1 hcut with hcut | hcut
  · obtain ⟨found, hfound, rfl⟩ := List.mem_map.1 hcut
    exact places_of_mem_consumed h hfound
  · rw [List.mem_singleton.1 hcut]
    have hkeyword := (header_stands h).start_le
    have hbody := (header_stands h).keywordStart_lt
    have hend := (header_stands h).bodyStart_lt
    exact ⟨_, _, inserting_bodyEnd h _ hunit, by omega, Or.inr (Or.inr ⟨rfl, rfl⟩)⟩

/-- The cuts of a declaration end with its closing brace. -/
theorem follow_le_bodyEnd (h : decl.toMember.Stands source) {first follow : Nat}
    (hplace : follow ≤ decl.header.keywordStart ∨
      (∃ p, Member.property p ∈ decl.members ∧ p.start ≤ first ∧ follow < p.stop) ∨
      first = decl.header.bodyEnd ∧ follow = decl.header.bodyEnd) :
    follow ≤ decl.header.bodyEnd := by
  have hbody := (header_stands h).keywordStart_lt
  have hend := (header_stands h).bodyStart_lt
  rcases hplace with hhead | ⟨p, hp, -, hlt⟩ | ⟨-, hclose⟩
  · omega
  · have hbounds := property_bounds h hp
    omega
  · omega

/-- The cuts of two declarations of one file lie apart, also if one declaration is nested
in the other. -/
theorem before_of_leads {later : TypeDecl} (h : decl.toMember.Stands source)
    (hlater : later.toMember.Stands source) (hleads : decl.Leads later) {a b : Cut}
    (ha : decl.Places source a) (hb : later.Places source b) : a.Before b ∨ b.Before a := by
  obtain ⟨first, follow, ha, -, hplace⟩ := ha
  obtain ⟨first', follow', hb, hstart', hplace'⟩ := hb
  have hfollow := follow_le_bodyEnd h hplace
  have hfollow' := follow_le_bodyEnd hlater hplace'
  rcases hleads with hbehind | ⟨inner, hinner, hwithin⟩
  · exact Or.inl (ha.before hb (by omega))
  · obtain ⟨hfront, -, hback⟩ := (laminar_of_stands h).members_between_braces _ hinner
    have hfront : decl.header.bodyStart < inner.header.start := hfront
    have hback : inner.header.bodyEnd + 1 ≤ decl.header.bodyEnd := hback
    have hbody := (header_stands h).keywordStart_lt
    obtain ⟨hinside, hinside'⟩ := hwithin
    rcases hplace with hhead | ⟨p, hp, hpstart, hlt⟩ | ⟨hfirst, -⟩
    · exact Or.inl (ha.before hb (by omega))
    · -- the property and the nested type are different members, so they lie apart
      have hsymm : Std.Symm Member.Apart := ⟨fun _ _ => Or.symm⟩
      have hne : Member.property p ≠ inner.toMember := by simp [toMember]
      have happart := (laminar_of_stands h).members_apart.forall (List.mem_append_left _ hp) hinner hne
      rcases happart with hbefore | hbefore
      · have hbefore : p.stop ≤ inner.header.start := hbefore
        exact Or.inl (ha.before hb (by omega))
      · have hbefore : inner.header.bodyEnd + 1 ≤ p.start := hbefore
        exact Or.inr (hb.before ha (by omega))
    · exact Or.inr (hb.before ha (by omega))

/-- The attributes of one property are cut out one behind the other. -/
theorem removing_pairwise (h : decl.toMember.Stands source) {p : Property}
    (hp : Member.property p ∈ decl.members) :
    p.attributes.Pairwise fun a b =>
      (Cut.removing source a.start a.stop).Before (Cut.removing source b.start b.stop) := by
  obtain ⟨follow, -, hsolid, hattributes⟩ := property_stands h hp
  refine hattributes.inOrder.imp_of_mem fun {a b} ha hb hab => ?_
  obtain ⟨-, hlt, -⟩ := hattributes.bounds a ha
  obtain ⟨-, hlt', hstop'⟩ := hattributes.bounds b hb
  have hlength := Cut.solid_lt_length hsolid
  exact Cut.removing_before hlt hab hlt' (by omega) (hattributes.last a ha)
    ⟨'@', hattributes.mark b hb, rfl⟩

theorem eq_property_of_property? {m : Member} {p : Property} (h : m.property? = some p) :
    m = .property p := by
  cases m with
  | property q =>
      cases h
      rfl
  | _ => cases h

/-- The default annotations of a declaration are cut out apart from each other. -/
theorem defaultAnnotations_apart (h : decl.toMember.Stands source) :
    decl.defaultAnnotations.Pairwise fun a b =>
      (Cut.removing source a.start a.stop).Before (Cut.removing source b.start b.stop) ∨
      (Cut.removing source b.start b.stop).Before (Cut.removing source a.start a.stop) := by
  have hmem : ∀ p ∈ decl.members.filterMap Member.property?, Member.property p ∈ decl.members := by
    intro p hp
    obtain ⟨m, hm, hproperty⟩ := List.mem_filterMap.1 hp
    rwa [← eq_property_of_property? hproperty]
  have hapart : (decl.members.filterMap Member.property?).Pairwise fun p q =>
      p.stop ≤ q.start ∨ q.stop ≤ p.start := by
    rw [List.pairwise_filterMap]
    refine (List.pairwise_append.1 (laminar_of_stands h).members_apart).1.imp ?_
    intro a b hab p hp q hq
    rw [eq_property_of_property? hp, eq_property_of_property? hq] at hab
    exact hab
  refine List.pairwise_flatMap.2 ⟨fun p hp => ?_, hapart.imp_of_mem fun {p q} hp hq hpq a ha b hb => ?_⟩
  · exact ((removing_pairwise h (hmem p hp)).filter _).imp Or.inl
  · obtain ⟨follow, hstart, hlt, ha⟩ := removing_property h (hmem p hp) (List.mem_filter.1 ha).1
    obtain ⟨follow', hstart', hlt', hb⟩ := removing_property h (hmem q hq) (List.mem_filter.1 hb).1
    rcases hpq with hpq | hqp
    · exact Or.inl (ha.before hb (by omega))
    · exact Or.inr (hb.before ha (by omega))

/-- The cuts of one declaration lie apart from each other. -/
theorem cuts_apart (h : decl.toMember.Stands source) {unit : String}
    (hunit : solids unit.toList = []) (generation : Generation) :
    (decl.cuts source unit generation).Pairwise fun a b => a.Before b ∨ b.Before a := by
  have hbody := (header_stands h).keywordStart_lt
  have hend := (header_stands h).bodyStart_lt
  have htrigger : ∀ found ∈ decl.trigger?.toList, found ∈ decl.header.attributes :=
    fun found hfound => List.mem_of_find?_eq_some (Option.mem_toList.1 hfound)
  have hinserting := inserting_bodyEnd h (renderMembers unit generation.members).toList hunit
  refine List.pairwise_append.2 ⟨?_, List.pairwise_singleton .., ?_⟩
  · rw [List.pairwise_map, consumed, List.pairwise_append]
    refine ⟨?_, defaultAnnotations_apart h, fun found hfound annotation hannotation => ?_⟩
    · cases decl.trigger? with
      | none => exact List.Pairwise.nil
      | some found => exact List.pairwise_singleton ..
    · obtain ⟨p, hp, hannotation⟩ := mem_defaultAnnotations hannotation
      obtain ⟨follow, hstart, -, hb⟩ := removing_property h hp hannotation
      have hbounds := property_bounds h hp
      exact Or.inl ((removing_header h (htrigger found hfound)).2.before hb (by omega))
  · intro a ha b hb
    obtain ⟨found, hfound, rfl⟩ := List.mem_map.1 ha
    rw [List.mem_singleton.1 hb]
    rcases List.mem_append.1 hfound with hfound | hfound
    · have ha := (removing_header h (htrigger found hfound)).2
      exact Or.inl (ha.before hinserting (by omega))
    · obtain ⟨p, hp, hfound⟩ := mem_defaultAnnotations hfound
      obtain ⟨follow, -, hlt, ha⟩ := removing_property h hp hfound
      have hbounds := property_bounds h hp
      exact Or.inl (ha.before hinserting (by omega))

end Stands

/-- The declarations that can carry a generator. -/
def IsSupported (decl : TypeDecl) : Prop :=
  decl.header.keyword ∈ ["struct", "class", "actor", "enum"]

/-- A supported declaration has a generation. -/
theorem exists_generation {decl : TypeDecl} (h : decl.IsSupported) :
    ∃ generation, Generation.ofDecl decl = .ok generation := by
  have hshape : (Report.ofDecl decl).shape.isNone = false := by
    simp only [IsSupported, List.mem_cons, List.not_mem_nil, or_false] at h
    rcases h with hk | hk | hk | hk <;> simp [Report.ofDecl, isStructLike, hk]
  have hgenerator : ∃ function, (Report.ofDecl decl).generator = .ok function := by
    rw [Report.generator, hshape]
    simp only [Bool.false_eq_true, if_false]
    repeat' split
    all_goals exact ⟨_, rfl⟩
  obtain ⟨function, hfunction⟩ := hgenerator
  exact ⟨⟨Report.ofDecl decl, function, (Report.ofDecl decl).helpers⟩, by
    rw [Generation.ofDecl, hfunction]
    rfl⟩

end TypeDecl

/-- All declarations of a list generate if each of them is supported. -/
theorem generateAll_eq_ok {decls : List TypeDecl} (h : ∀ decl ∈ decls, decl.IsSupported) :
    ∃ generated, generateAll decls = .ok generated ∧ generated.map Prod.fst = decls := by
  induction decls with
  | nil => exact ⟨[], rfl, rfl⟩
  | cons decl rest ih =>
      obtain ⟨generation, hdecl⟩ := TypeDecl.exists_generation (h decl (List.mem_cons_self ..))
      obtain ⟨generated, hrest, hmap⟩ := ih fun d hd => h d (List.mem_cons_of_mem _ hd)
      refine ⟨(decl, generation) :: generated, ?_, by rw [List.map_cons, hmap]⟩
      rw [generateAll, hdecl, hrest]
      rfl

theorem expand_eq_ok {language : Language} {unit filename : String} {source : List Char}
    {decls : List TypeDecl} {generated : List (TypeDecl × Generation)}
    (hparse : parse language source = .ok decls)
    (hgenerated : generateAll (annotated decls) = .ok generated) :
    expand language unit filename source = .ok (applyGenerated source unit generated) := by
  rw [expand, hparse]
  dsimp only
  rw [hgenerated]

theorem isSpaceOrTab_unit (format : Format) :
    ∀ c ∈ format.unit.toList, isSpaceOrTab c = true := by
  intro c hc
  rw [Format.unit] at hc
  split at hc
  · rw [List.mem_singleton.1 hc]
    rfl
  · rw [String.toList_ofList] at hc
    rw [List.eq_of_mem_replicate hc]
    rfl

theorem solids_unit (format : Format) : solids format.unit.toList = [] :=
  solids_eq_nil_of_isSpaceOrTab (isSpaceOrTab_unit format)

/-- A text without the spans of some attributes, and with blocks put in at offsets. -/
def spliced (source : List Char) (removed : List Attribute) (inserted : List (Nat × List Char)) :
    List Char :=
  (List.range source.length).flatMap fun i =>
    (inserted.filter (·.1 == i)).flatMap (·.2) ++
      if removed.any (fun found => found.start ≤ i && i < found.stop) then []
      else source[i]?.toList

/-- The blocks that an expansion puts in, each at the offset of a closing brace. -/
def insertedBlocks (unit : String) (generated : List (TypeDecl × Generation)) :
    List (Nat × List Char) :=
  generated.map fun (decl, generation) =>
    (decl.header.bodyEnd, (renderMembers unit generation.members).toList)

def removedAttributes (generated : List (TypeDecl × Generation)) : List Attribute :=
  generated.flatMap fun (decl, _) => decl.consumed

def collectedEdits (source : List Char) (unit : String)
    (generated : List (TypeDecl × Generation)) : List Edit :=
  generated.flatMap fun (decl, generation) => decl.edits source unit generation

section Generated

variable {source : List Char} {unit : String} {generated : List (TypeDecl × Generation)}

def coresOf (source : List Char) (unit : String) (generated : List (TypeDecl × Generation)) :
    List Edit :=
  (generated.flatMap fun (decl, generation) => decl.cuts source unit generation).map Cut.core

theorem coresOf_cons (decl : TypeDecl) (generation : Generation)
    (rest : List (TypeDecl × Generation)) :
    coresOf source unit ((decl, generation) :: rest) =
      decl.consumed.map (fun found => ⟨found.start, found.stop, []⟩) ++
        ⟨decl.header.bodyEnd, decl.header.bodyEnd, (renderMembers unit generation.members).toList⟩ ::
        coresOf source unit rest := by
  simp [coresOf, TypeDecl.cuts, Cut.removing, Cut.inserting, TypeDecl.site]

/-- Only the blocks put in replace anything. -/
theorem replacements_coresOf (i : Nat) :
    ((coresOf source unit generated).filter (·.start == i)).flatMap (·.replacement) =
      ((insertedBlocks unit generated).filter (·.1 == i)).flatMap (·.2) := by
  induction generated with
  | nil => rfl
  | cons pair rest ih =>
      obtain ⟨decl, generation⟩ := pair
      have hremoved : ((decl.consumed.map fun found : Attribute =>
          (⟨found.start, found.stop, []⟩ : Edit)).filter (·.start == i)).flatMap
            (·.replacement) = [] := by
        rw [List.flatMap_eq_nil_iff]
        intro edit hedit
        obtain ⟨found, -, rfl⟩ := List.mem_map.1 (List.mem_filter.1 hedit).1
        rfl
      rw [coresOf_cons, List.filter_append, List.flatMap_append, hremoved, List.nil_append]
      simp only [insertedBlocks, List.map_cons, List.filter_cons] at ih ⊢
      split <;> simp [ih]

/-- Only the attributes taken out hide anything. -/
theorem any_coresOf (i : Nat) :
    (coresOf source unit generated).any (fun edit => edit.start ≤ i && i < edit.stop) =
      (removedAttributes generated).any (fun found => found.start ≤ i && i < found.stop) := by
  induction generated with
  | nil => rfl
  | cons pair rest ih =>
      obtain ⟨decl, generation⟩ := pair
      have hempty : (decide (decl.header.bodyEnd ≤ i) && decide (i < decl.header.bodyEnd)) = false := by
        simp only [Bool.and_eq_false_iff, decide_eq_false_iff_not]
        omega
      rw [coresOf_cons, removedAttributes, List.flatMap_cons, List.any_append, List.any_append,
        List.any_cons, hempty, Bool.false_or, ih, List.any_map]
      rfl

/-- Spot by spot, the cores of the edits give the source with its blocks spliced in. -/
theorem flatMap_spot_coresOf (hinside : ∀ pair ∈ generated, pair.1.header.bodyEnd < source.length) :
    (List.range (source.length + 1)).flatMap (Edit.spot source (coresOf source unit generated)) =
      spliced source (removedAttributes generated) (insertedBlocks unit generated) := by
  have hspot : Edit.spot source (coresOf source unit generated) = fun i =>
      ((insertedBlocks unit generated).filter (·.1 == i)).flatMap (·.2) ++
        if (removedAttributes generated).any (fun found => found.start ≤ i && i < found.stop) then []
        else source[i]?.toList := by
    funext i
    rw [Edit.spot, replacements_coresOf, any_coresOf]
  have hnone : (insertedBlocks unit generated).filter (·.1 == source.length) = [] := by
    rw [List.filter_eq_nil_iff]
    intro block hblock
    obtain ⟨pair, hpair, rfl⟩ := List.mem_map.1 hblock
    have hlt := hinside pair hpair
    simp only [beq_iff_eq]
    omega
  rw [List.range_succ, List.flatMap_append, hspot]
  simp [spliced, hnone]

/-- All cuts of an expansion lie apart from each other. -/
theorem allCuts_apart (hstands : ∀ pair ∈ generated, pair.1.toMember.Stands source)
    (hleads : generated.Pairwise fun a b => a.1.Leads b.1) (hunit : solids unit.toList = []) :
    (generated.flatMap fun (decl, generation) => decl.cuts source unit generation).Pairwise
      fun a b => a.Before b ∨ b.Before a := by
  refine List.pairwise_flatMap.2 ⟨fun pair hpair => ?_, hleads.imp_of_mem ?_⟩
  · exact TypeDecl.cuts_apart (hstands pair hpair) hunit pair.2
  · intro outer later houter hlater hleads a ha b hb
    have houter := hstands outer houter
    have hlater := hstands later hlater
    exact TypeDecl.before_of_leads houter hlater hleads
      (TypeDecl.places_of_mem_cuts houter hunit ha) (TypeDecl.places_of_mem_cuts hlater hunit hb)

/-- Every cut of an expansion is anchored in the source. -/
theorem allCuts_anchored (hstands : ∀ pair ∈ generated, pair.1.toMember.Stands source)
    (hunit : solids unit.toList = []) :
    ∀ cut ∈ generated.flatMap (fun (decl, generation) => decl.cuts source unit generation),
      ∃ first follow, cut.Anchored source first follow := by
  intro cut hcut
  obtain ⟨pair, hpair, hcut⟩ := List.mem_flatMap.1 hcut
  obtain ⟨first, follow, hanchored, -⟩ :=
    TypeDecl.places_of_mem_cuts (hstands pair hpair) hunit hcut
  exact ⟨first, follow, hanchored⟩

theorem map_edit_allCuts :
    (generated.flatMap fun (decl, generation) => decl.cuts source unit generation).map Cut.edit =
      collectedEdits source unit generated := by
  rw [List.map_flatMap]
  exact List.flatMap_congr fun pair _ => TypeDecl.map_edit_cuts source unit pair.1 pair.2

theorem collectedEdits_fit (hstands : ∀ pair ∈ generated, pair.1.toMember.Stands source)
    (hunit : solids unit.toList = []) :
    ∀ edit ∈ collectedEdits source unit generated, edit.Fits source := by
  rw [← map_edit_allCuts]
  refine List.forall_mem_map.2 fun cut hcut => ?_
  obtain ⟨first, follow, hcut⟩ := allCuts_anchored hstands hunit cut hcut
  exact ⟨hcut.edit_le, hcut.edit_stop_le.trans (Cut.solid_lt_length hcut.solid_follow).le⟩

/-- What is generated is about declarations that stand in the text, in the order of a walk. -/
theorem generated_stands {language : Language} {decls : List TypeDecl}
    (hfaithful : language.Faithful source) (hparse : parse language source = .ok decls)
    (hmap : generated.map Prod.fst = annotated decls) :
    (∀ pair ∈ generated, pair.1.toMember.Stands source) ∧
      generated.Pairwise fun a b => a.1.Leads b.1 := by
  obtain ⟨hstands, hleads⟩ := walk_leads hfaithful hparse
  constructor
  · intro pair hpair
    have hannotated : pair.1 ∈ annotated decls := hmap ▸ List.mem_map_of_mem hpair
    exact hstands pair.1 (List.mem_filter.1 hannotated).1
  · rw [← List.pairwise_map (f := Prod.fst), hmap]
    exact hleads.filter _

end Generated

/-- The edits of an expansion lie inside the source text, do not overlap and differ in
their places.  Up to white space, the expanded text is the source text without the
attributes taken out and with the rendered members before the closing braces. -/
theorem expand_splices {language : Language} {source : List Char} {decls : List TypeDecl}
    (hfaithful : language.Faithful source) (hparse : parse language source = .ok decls)
    (hsupported : ∀ decl ∈ annotated decls, decl.IsSupported)
    (format : Format) (filename : String) :
    ∃ generated, generateAll (annotated decls) = .ok generated ∧
      generated.map Prod.fst = annotated decls ∧
      (∀ edit ∈ collectedEdits source format.unit generated,
        edit.start ≤ edit.stop ∧ edit.stop ≤ source.length) ∧
      ((collectedEdits source format.unit generated).Pairwise fun a b =>
        (a.stop ≤ b.start ∨ b.stop ≤ a.start) ∧ (a.start, a.stop) ≠ (b.start, b.stop)) ∧
      (∀ decl ∈ annotated decls, source[decl.header.bodyEnd]? = some '\x7d') ∧
      ∃ expansion, expand language format.unit filename source = .ok expansion ∧
        expansion.source = Edit.applyAll source (collectedEdits source format.unit generated) ∧
        solids expansion.source = solids (spliced source (removedAttributes generated)
          (insertedBlocks format.unit generated)) := by
  obtain ⟨generated, hgenerated, hmap⟩ := generateAll_eq_ok hsupported
  obtain ⟨hstands, hleads⟩ := generated_stands hfaithful hparse hmap
  have hunit := solids_unit format
  have hapart := allCuts_apart hstands hleads hunit
  refine ⟨generated, hgenerated, hmap, collectedEdits_fit hstands hunit, ?_, ?_, ?_⟩
  · rw [← map_edit_allCuts, List.pairwise_map]
    refine hapart.imp fun {a b} hab => ?_
    rcases hab with hab | hba
    · exact ⟨Or.inl hab.1.1, hab.1.key_ne⟩
    · exact ⟨Or.inr hba.1.1, hba.1.key_ne.symm⟩
  · rw [← hmap]
    exact List.forall_mem_map.2 fun pair hpair =>
      (TypeDecl.header_stands (hstands pair hpair)).closing
  · refine ⟨applyGenerated source format.unit generated, expand_eq_ok hparse hgenerated, rfl, ?_⟩
    have hinside : ∀ pair ∈ generated, pair.1.header.bodyEnd < source.length :=
      fun pair hpair => (laminar_of_stands (hstands pair hpair)).bodyEnd_lt_length
    rw [← flatMap_spot_coresOf hinside, coresOf,
      ← Cut.solids_applyAll (allCuts_anchored hstands hunit) hapart, map_edit_allCuts]
    rfl

/-- An annotated type inside another, with a default annotation on its property. -/
def nestedAnnotations : List Char :=
  ("@AutoFake struct A \x7b\n  @AutoFake\n  struct B \x7b @AutoFakeDefault(1) @C " ++
    "var d: Int \x7d\n\x7d").toList

set_option maxRecDepth 100000 in
theorem expand_splices_nested :
    ∃ decls, parse swift nestedAnnotations = .ok decls ∧
      (annotated decls).map (fun decl => (decl.header.keyword, decl.consumed.length)) =
        [("struct", 1), ("struct", 2)] ∧
      ∃ generated expansion, generateAll (annotated decls) = .ok generated ∧
        expand swift (Format.unit ⟨2, false⟩) "A.swift" nestedAnnotations = .ok expansion ∧
        solids expansion.source = solids (spliced nestedAnnotations (removedAttributes generated)
          (insertedBlocks (Format.unit ⟨2, false⟩) generated)) := by
  have hshape : (parse swift nestedAnnotations).toOption.map (fun decls =>
      (annotated decls).map fun decl => (decl.header.keyword, decl.consumed.length)) =
        some [("struct", 1), ("struct", 2)] := by
    decide +kernel
  obtain ⟨decls, hfound, hkeywords⟩ := Option.map_eq_some_iff.1 hshape
  have hparse := eq_ok_of_toOption hfound
  have hsupported : ∀ decl ∈ annotated decls, decl.IsSupported := by
    intro decl hdecl
    have hkeyword : decl.header.keyword = "struct" := by
      have hmem := List.mem_map_of_mem (f := fun decl : TypeDecl =>
        (decl.header.keyword, decl.consumed.length)) hdecl
      rw [hkeywords] at hmem
      rcases List.mem_cons.1 hmem with heq | hmem
      · exact (Prod.mk.inj heq).1
      · exact (Prod.mk.inj (List.mem_singleton.1 hmem)).1
    rw [TypeDecl.IsSupported, hkeyword]
    decide
  obtain ⟨generated, hgenerated, -, -, -, -, expansion, hexpand, -, hsolids⟩ :=
    expand_splices (faithful_of_decide (by decide +kernel)) hparse hsupported ⟨2, false⟩ "A.swift"
  exact ⟨decls, hparse, hkeywords, generated, expansion, hgenerated, hexpand, hsolids⟩

end Fakery
