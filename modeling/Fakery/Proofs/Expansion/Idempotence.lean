import Fakery.Proofs.Edit.Insertion
import Fakery.Proofs.Expansion.Completeness
import Fakery.Proofs.Source.Types

/-!
# Expanding twice

An expansion takes one trigger from every annotated declaration, and the text it leaves is the
source text with attributes taken out and with blocks put before closing braces.  If a language
reads such a text as the source text without these attributes, the second expansion is about
the declarations that had two triggers or more, so it changes nothing exactly if there are
none.
-/

namespace Fakery

/-- The triggers of a declaration, of which an expansion takes the first. -/
def TypeDecl.triggers (decl : TypeDecl) : List Attribute :=
  decl.header.attributes.filter (·.name == triggerAttribute)

/-- The keyword of a type, and the names of its attributes but for some. -/
def headline (removed : List Attribute) (signature : String × List Attribute) :
    String × List String :=
  (signature.1, (signature.2.filter (· ∉ removed)).map (·.name))

/-! ## Spliced texts -/

/-- An edit takes an attribute out, with the blanks behind it or with the lines it stands on. -/
def Edit.TakesOut (source : List Char) (found : Attribute) (edit : Edit) : Prop :=
  edit.Removes source found.start found.stop ∧
    (edit.Trims source found.start found.stop ∨ edit.TakesLines source found.start found.stop)

/-- An edit puts rendered members before the closing brace of a body, on lines of their own. -/
def Edit.PutsIn (source : List Char) (unit : String) (site : Site) (edit : Edit) : Prop :=
  edit.Stands source site ∧ ∃ members outer above block margin,
    edit.Lays source site (renderMembers unit members).toList unit.toList outer above block margin

/-- A text is another one with attributes taken out and with members put into bodies, by edits
that lie one behind the other. -/
def Splices (source : List Char) (unit : String) (removed : List Attribute) (sites : List Site)
    (result : List Char) : Prop :=
  ∃ removals insertions ordered,
    List.Forall₂ (Edit.TakesOut source) removed removals ∧
    List.Forall₂ (Edit.PutsIn source unit) sites insertions ∧
    ordered.Perm (removals ++ insertions) ∧ ordered.Pairwise Edit.Before ∧
    result = Edit.weave source 0 ordered

/-- A tree has the types of another one without some of their attributes.  It has no error, and
its types have bodies. -/
structure Regrown (source result : List Char) (removed : List Attribute)
    (before after : SyntaxNode) : Prop where
  intact : after.hasError = false
  complete : ∀ node ∈ after.innerTypes, node.IsComplete
  types_eq : after.innerTypes.map (fun node => headline [] (node.signature result)) =
    before.innerTypes.map fun node => headline removed (node.signature source)

instance (source result : List Char) (removed : List Attribute) (before after : SyntaxNode) :
    Decidable (Regrown source result removed before after) :=
  decidable_of_iff (after.hasError = false ∧ (∀ node ∈ after.innerTypes, node.IsComplete) ∧
      after.innerTypes.map (fun node => headline [] (node.signature result)) =
        before.innerTypes.map fun node => headline removed (node.signature source))
    ⟨fun ⟨hintact, hcomplete, htypes⟩ => ⟨hintact, hcomplete, htypes⟩,
      fun h => ⟨h.intact, h.complete, h.types_eq⟩⟩

/-- A language reads a spliced text as the text before, without the attributes taken out. -/
def Language.Rereads (language : Language) (source : List Char) (unit : String)
    (removed : List Attribute) (sites : List Site) (result : List Char) : Prop :=
  Splices source unit removed sites result →
    Regrown source result removed (language.tree (Text.Utf8.encode source))
      (language.tree (Text.Utf8.encode result))

def consumedAttributes (decls : List TypeDecl) : List Attribute :=
  (annotated decls).flatMap TypeDecl.consumed

/-! ## One trigger is taken -/

namespace TypeDecl

theorem takesOut_removal {source : List Char} {decl : TypeDecl} (h : decl.toMember.Stands source)
    {found : Attribute} (hfound : found ∈ decl.consumed) :
    (removal source found.start found.stop).TakesOut source found := by
  obtain ⟨first, follow, hanchored, -⟩ := places_of_mem_consumed h hfound
  have hle : found.start ≤ found.stop := hanchored.core_le
  have hstop : found.stop ≤ source.length :=
    hanchored.core_stop_le.trans (Cut.solid_lt_length hanchored.solid_follow).le
  exact ⟨removal_removes hle hstop, trims_or_takesLines hle hstop⟩

theorem putsIn_insertion {source : List Char} {decl : TypeDecl} (h : decl.toMember.Stands source)
    (unit : String) (members : List GeneratedMember) :
    (insertion source decl.site (renderMembers unit members).toList unit.toList).PutsIn source unit
      decl.site := by
  have hheader := header_stands h
  have hlength := (List.getElem?_eq_some_iff.1 hheader.closing).1.le
  exact ⟨insertion_stands hheader.bodyStart_lt hheader.opening hlength _ _, members,
    insertion_lays hheader.keywordStart_lt.le hheader.bodyStart_lt hheader.opening hheader.closing
      _ _⟩

theorem isSome_trigger?_iff (decl : TypeDecl) :
    decl.trigger?.isSome = true ↔ 0 < decl.triggers.length := by
  rw [trigger?, findAttribute, List.find?_isSome, triggers, List.length_pos_iff_exists_mem]
  simp only [List.mem_filter]

section Consumed

variable {source : List Char} {decls : List TypeDecl} {decl : TypeDecl} {found : Attribute}

/-- A header attribute is not among the default annotations of direct properties. -/
theorem not_mem_defaultAnnotations (h : decl.toMember.Stands source)
    (hfound : found ∈ decl.header.attributes) : found ∉ decl.defaultAnnotations := by
  intro hmem
  obtain ⟨p, hp, hproperty⟩ := mem_defaultAnnotations hmem
  have hheader := (header_stands h).attributes.bounds found hfound
  have hbody := (header_stands h).keywordStart_lt
  have hbounds := property_bounds h hp
  obtain ⟨follow, -, -, hattributes⟩ := property_stands h hp
  have hinside := hattributes.bounds found hproperty
  omega

/-- No attribute has its place in two declarations of one file. -/
theorem eq_of_places {other : TypeDecl}
    (hstands : ∀ decl ∈ walk decls, decl.toMember.Stands source)
    (hleads : (walk decls).Pairwise Leads) (hdecl : decl ∈ walk decls) (hother : other ∈ walk decls)
    {cut : Cut} (h : decl.Places source cut) (hcut : other.Places source cut) : other = decl := by
  have hapart : ∀ {a b : TypeDecl}, a ∈ walk decls → b ∈ walk decls → a.Leads b →
      a.Places source cut → ¬ b.Places source cut := by
    intro a b ha hb hab hfirst hsecond
    rcases before_of_leads (hstands a ha) (hstands b hb) hab hfirst hsecond with hbefore | hbefore
    all_goals exact absurd hbefore.2.1 (Nat.lt_irrefl _)
  by_contra hne
  have hsymm : Std.Symm fun a b : TypeDecl => a.Leads b ∨ b.Leads a := ⟨fun _ _ => Or.symm⟩
  have heither : (walk decls).Pairwise fun a b => a.Leads b ∨ b.Leads a := hleads.imp Or.inl
  rcases heither.forall hother hdecl hne with hlead | hlead
  · exact hapart hother hdecl hlead hcut h
  · exact hapart hdecl hother hlead h hcut

/-- Of the attributes of a header, the first trigger is taken out and no other. -/
theorem mem_consumedAttributes_iff (hstands : ∀ decl ∈ walk decls, decl.toMember.Stands source)
    (hleads : (walk decls).Pairwise Leads) (hdecl : decl ∈ walk decls)
    (hfound : found ∈ decl.header.attributes) :
    found ∈ consumedAttributes decls ↔ decl.trigger? = some found := by
  rw [consumedAttributes, List.mem_flatMap]
  constructor
  · rintro ⟨other, hother, hconsumed⟩
    have hmem := (List.mem_filter.1 hother).1
    obtain rfl := eq_of_places hstands hleads hdecl hmem
      (places_of_mem_header (hstands decl hdecl) hfound)
      (places_of_mem_consumed (hstands other hmem) hconsumed)
    rcases List.mem_append.1 hconsumed with htrigger | hdefault
    · exact Option.mem_toList.1 htrigger
    · exact absurd hdefault (not_mem_defaultAnnotations (hstands other hmem) hfound)
  · intro htrigger
    refine ⟨decl, List.mem_filter.2 ⟨hdecl, by rw [htrigger]; rfl⟩, ?_⟩
    exact List.mem_append_left _ (by rw [htrigger]; exact List.mem_singleton_self found)

/-- One trigger fewer is left, if there was any. -/
theorem count_headline (hstands : ∀ decl ∈ walk decls, decl.toMember.Stands source)
    (hleads : (walk decls).Pairwise Leads) (hdecl : decl ∈ walk decls) :
    (headline (consumedAttributes decls) decl.signature).2.count triggerAttribute =
      decl.triggers.length - 1 := by
  have hattributes := (header_stands (hstands decl hdecl)).attributes
  have hnodup : decl.header.attributes.Nodup := by
    refine hattributes.inOrder.imp_of_mem fun {a b} ha _ hab heq => ?_
    have hbounds := hattributes.bounds a ha
    rw [← heq] at hab
    omega
  have hkept : decl.header.attributes.filter (· ∉ consumedAttributes decls) =
      decl.header.attributes.filter fun found => decide (decl.trigger? ≠ some found) := by
    refine List.filter_congr fun found hfound => ?_
    simp only [mem_consumedAttributes_iff hstands hleads hdecl hfound, ne_eq]
  have hcount : (headline (consumedAttributes decls) decl.signature).2.count triggerAttribute =
      (decl.header.attributes.filter fun found => decide (decl.trigger? ≠ some found)).countP
        (·.name == triggerAttribute) := by
    simp only [headline, TypeDecl.signature, hkept, List.count, List.countP_map]
    rfl
  rw [hcount, triggers, ← List.countP_eq_length_filter]
  cases htrigger : decl.trigger? with
  | none =>
      have hnone : decl.header.attributes.countP (·.name == triggerAttribute) = 0 :=
        List.countP_eq_zero.2 (List.find?_eq_none.1 htrigger)
      simp [hnone]
  | some first =>
      have hname := List.find?_some htrigger
      have hmem : first ∈ decl.header.attributes := List.mem_of_find?_eq_some htrigger
      have herase : decl.header.attributes.filter (fun found => decide (some first ≠ some found)) =
          decl.header.attributes.erase first := by
        rw [hnodup.erase_eq_filter]
        refine List.filter_congr fun found _ => ?_
        rw [Bool.eq_iff_iff, decide_eq_true_iff, bne_iff_ne, ne_eq, Option.some.injEq, ne_comm]
      rw [herase, List.countP_erase, if_pos ⟨hmem, hname⟩]

end Consumed

theorem count_headline_nil (decl : TypeDecl) :
    (headline [] decl.signature).2.count triggerAttribute = decl.triggers.length := by
  simp only [headline, signature, List.not_mem_nil, not_false_eq_true, decide_true,
    List.filter_true, List.count, List.countP_map, triggers, ← List.countP_eq_length_filter]
  rfl

end TypeDecl

/-! ## Expanding the expanded text -/

section Again

variable {language : Language} {unit filename : String} {source : List Char}
  {decls : List TypeDecl} {expansion : Expansion} {format : Format}

/-- What is expanded can carry a generator. -/
theorem supported_of_expand (hparse : parse language source = .ok decls)
    (hexpand : expand language unit filename source = .ok expansion) :
    ∀ decl ∈ annotated decls, decl.IsSupported := by
  intro decl hdecl
  by_contra hunsupported
  obtain ⟨hmem, hannotated⟩ := List.mem_filter.1 hdecl
  rw [decl.isSome_trigger?_eq] at hannotated
  obtain ⟨first, hfirst⟩ :=
    exists_isFirst hmem (TypeDecl.IsRefused.mk (of_decide_eq_true hannotated) hunsupported)
  rw [expand_of_isFirst unit filename hparse hfirst] at hexpand
  cases hexpand

/-- An expansion takes out what the annotated declarations lose, and puts members into each of
them. -/
theorem splices_of_expand (hfaithful : language.Faithful source)
    (hparse : parse language source = .ok decls)
    (hexpand : expand language format.unit filename source = .ok expansion) :
    Splices source format.unit (consumedAttributes decls) ((annotated decls).map TypeDecl.site)
      expansion.source := by
  obtain ⟨generated, hgenerated, hmap⟩ := generateAll_eq_ok (supported_of_expand hparse hexpand)
  obtain ⟨hstands, hleads⟩ := generated_stands hfaithful hparse hmap
  rw [expand_eq_ok hparse hgenerated] at hexpand
  cases hexpand
  have hunit := solids_unit format
  obtain ⟨cuts, hcuts, hordered⟩ := Edit.exists_ordered Cut.edit (r := Cut.Before)
    (fun hbefore => hbefore.1) (allCuts_apart hstands hleads hunit)
  have hedits : (cuts.map Cut.edit).Perm (collectedEdits source format.unit generated) := by
    rw [← map_edit_allCuts]
    exact hcuts.map Cut.edit
  have hbefore : (cuts.map Cut.edit).Pairwise Edit.Before :=
    List.pairwise_map.2 (hordered.imp fun hab => hab.1)
  refine ⟨generated.flatMap fun pair =>
      pair.1.consumed.map fun found => removal source found.start found.stop,
    generated.map fun pair => insertion source pair.1.site
      (renderMembers format.unit pair.2.members).toList format.unit.toList,
    cuts.map Cut.edit, ?_, ?_, ?_, hbefore,
    Edit.applyAll_eq_weave hedits (collectedEdits_fit hstands hunit) hbefore⟩
  · rw [consumedAttributes, ← hmap, List.flatMap_map, ← List.map_flatMap,
      List.forall₂_map_right_iff, List.forall₂_same]
    intro found hfound
    obtain ⟨pair, hpair, hfound⟩ := List.mem_flatMap.1 hfound
    exact TypeDecl.takesOut_removal (hstands pair hpair) hfound
  · rw [← hmap, List.map_map, List.forall₂_map_left_iff, List.forall₂_map_right_iff,
      List.forall₂_same]
    exact fun pair hpair => TypeDecl.putsIn_insertion (hstands pair hpair) _ _
  · refine hedits.trans ?_
    rw [@List.map_eq_flatMap _ _ _ generated]
    exact (List.flatMap_append_perm ..).symm

/-- The declarations of the expanded text are those of the source text without what was taken
out. -/
theorem walk_regrown {removed : List Attribute} {result : List Char} {others : List TypeDecl}
    (hparse : parse language source = .ok decls) (hothers : parse language result = .ok others)
    (hregrown : Regrown source result removed (language.tree (Text.Utf8.encode source))
      (language.tree (Text.Utf8.encode result))) :
    ((walk others).map fun decl => headline [] decl.signature).Perm
      ((walk decls).map fun decl => headline removed decl.signature) := by
  have hafter := (walk_signatures hothers).map (headline [])
  have hbefore := (walk_signatures hparse).map (headline removed)
  simp only [List.map_map, Function.comp_def, hregrown.types_eq] at hafter hbefore
  exact hafter.trans hbefore.symm

/-- As many declarations are annotated in the expanded text as had two triggers or more. -/
theorem length_annotated_regrown {others : List TypeDecl}
    (hstands : ∀ decl ∈ walk decls, decl.toMember.Stands source)
    (hleads : (walk decls).Pairwise TypeDecl.Leads)
    (hperm : ((walk others).map fun decl => headline [] decl.signature).Perm
      ((walk decls).map fun decl => headline (consumedAttributes decls) decl.signature)) :
    (annotated others).length = (walk decls).countP fun decl => 2 ≤ decl.triggers.length := by
  have hothers : (annotated others).length =
      ((walk others).map fun decl => headline [] decl.signature).countP
        fun line => decide (0 < line.2.count triggerAttribute) := by
    rw [annotated, ← List.countP_eq_length_filter, List.countP_map]
    refine List.countP_congr fun decl _ => ?_
    rw [decl.isSome_trigger?_iff, Function.comp_apply, decl.count_headline_nil, decide_eq_true_iff]
  rw [hothers, hperm.countP_eq, List.countP_map]
  refine List.countP_congr fun decl hdecl => ?_
  rw [Function.comp_apply, TypeDecl.count_headline hstands hleads hdecl, decide_eq_true_iff,
    decide_eq_true_iff]
  omega

/-- What is annotated in the expanded text had two triggers, so it can carry a generator. -/
theorem supported_regrown {others : List TypeDecl}
    (hstands : ∀ decl ∈ walk decls, decl.toMember.Stands source)
    (hleads : (walk decls).Pairwise TypeDecl.Leads)
    (hsupported : ∀ decl ∈ annotated decls, decl.IsSupported)
    (hperm : ((walk others).map fun decl => headline [] decl.signature).Perm
      ((walk decls).map fun decl => headline (consumedAttributes decls) decl.signature)) :
    ∀ decl ∈ annotated others, decl.IsSupported := by
  intro decl hdecl
  obtain ⟨hmem, htrigger⟩ := List.mem_filter.1 hdecl
  obtain ⟨origin, horigin, heq⟩ := List.mem_map.1 (hperm.mem_iff.1 (List.mem_map_of_mem hmem))
  rw [decl.isSome_trigger?_iff, ← decl.count_headline_nil, ← heq,
    TypeDecl.count_headline hstands hleads horigin] at htrigger
  have hannotated : origin ∈ annotated decls :=
    List.mem_filter.2 ⟨horigin, origin.isSome_trigger?_iff.2 (by omega)⟩
  have hkeyword : origin.header.keyword = decl.header.keyword := congrArg Prod.fst heq
  rw [TypeDecl.IsSupported, ← hkeyword]
  exact hsupported origin hannotated

end Again

/-! ## Two texts -/

/-- Edits in the order of the text. -/
def frontToBack (edits : List Edit) : List Edit :=
  edits.insertionSort fun a b => a.precedes b = true

/-- The numbers of triggers of the declarations of a text, the attributes taken out of it, and
its expansion, if the edits lie one behind the other. -/
def trial? (language : Language) (unit : String) (source : List Char) :
    Option (List Nat × List Attribute × List Char) := do
  let decls ← (parse language source).toOption
  let generated ← (generateAll (annotated decls)).toOption
  let edits := collectedEdits source unit generated
  if (∀ edit ∈ edits, edit.Fits source) ∧ (frontToBack edits).Pairwise Edit.Before then
    some ((walk decls).map (·.triggers.length), consumedAttributes decls,
      Edit.weave source 0 (frontToBack edits))
  else none

theorem exists_of_trial? {language : Language} {unit : String} {source : List Char}
    {counts : List Nat} {removed : List Attribute} {result : List Char}
    (h : trial? language unit source = some (counts, removed, result)) (filename : String) :
    ∃ decls expansion, parse language source = .ok decls ∧
      (walk decls).map (·.triggers.length) = counts ∧ consumedAttributes decls = removed ∧
      expand language unit filename source = .ok expansion ∧ expansion.source = result := by
  simp only [trial?, Option.bind_eq_bind, Option.bind_eq_some_iff, Option.ite_none_right_eq_some,
    Option.some.injEq, Prod.mk.injEq] at h
  obtain ⟨decls, hfound, generated, hgenerated, ⟨hfits, hordered⟩, hcounts, hremoved, hresult⟩ := h
  have hparse := eq_ok_of_toOption hfound
  refine ⟨decls, _, hparse, hcounts, hremoved,
    expand_eq_ok hparse (eq_ok_of_toOption hgenerated), ?_⟩
  rw [← hresult]
  exact Edit.applyAll_eq_weave (List.perm_insertionSort _ _) hfits hordered

/-- An annotated class with an annotated struct in it. -/
def nestedTriggers : List Char :=
  "@AutoFake class A \x7b\n  @B @AutoFake struct C \x7b\n  \x7d\n\x7d\n".toList

def nestedExpanded : List Char :=
  "class A \x7b\n  @B struct C \x7b\n    static func fake() -> Self \x7b\n".toList ++
    "      Self()\n    \x7d\n  \x7d\n\n  static func fake() -> Self \x7b\n".toList ++
    "    Self()\n  \x7d\n\x7d\n".toList

def doubledTriggers : List Char :=
  "@AutoFake @AutoFake struct A \x7b\n\x7d\n".toList

/-- The expansion of the struct, which has a trigger still. -/
def doubledExpanded : List Char :=
  "@AutoFake struct A \x7b\n    static func fake() -> Self \x7b\n".toList ++
    "        Self()\n    \x7d\n\x7d\n".toList

end Fakery
