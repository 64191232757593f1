import Fakery.Proofs.Expansion.Splicing
import Fakery.Proofs.Expansion.Declarations
import Fakery.Proofs.Fake.Strategy

/-!
# All declarations or none

An expansion fails exactly if the source text is malformed or an annotated declaration of
it cannot carry a generator, and then it names the first such declaration of a walk.
Otherwise it tells of every annotated declaration once, in the order of the walk.
-/

namespace Fakery

namespace TypeDecl

/-- The declaration asks for a generated constructor. -/
def IsAnnotated (decl : TypeDecl) : Prop :=
  ∃ found ∈ decl.header.attributes, found.name = "AutoFake"

instance (decl : TypeDecl) : Decidable decl.IsAnnotated :=
  inferInstanceAs (Decidable (∃ found ∈ decl.header.attributes, found.name = "AutoFake"))

/-- The declaration asks for a generator that it cannot carry. -/
structure IsRefused (decl : TypeDecl) : Prop where
  annotated : decl.IsAnnotated
  unsupported : decl.header.keyword ∉ ["struct", "class", "actor", "enum"]

theorem isSome_trigger?_eq (decl : TypeDecl) : decl.trigger?.isSome = decide decl.IsAnnotated := by
  rw [Bool.eq_iff_iff, trigger?, findAttribute, List.find?_isSome, decide_eq_true_iff]
  simp only [beq_iff_eq]
  rfl

/-- What is generated for a declaration fails exactly if its keyword is none of the four. -/
theorem ofDecl_eq_error (decl : TypeDecl) (h : ¬ decl.IsSupported) :
    Generation.ofDecl decl = .error ⟨decl.header.keyword, decl.header.name⟩ := by
  have hshape : (Report.ofDecl decl).shape.isNone = true := (isNone_shape_iff decl).2 h
  rw [Generation.ofDecl, Report.generator, if_pos hshape]
  rfl

/-- A declaration starts before all that a walk meets later. -/
theorem Leads.start_lt {source : List Char} {decl later : TypeDecl}
    (hstands : decl.toMember.Stands source) (h : decl.Leads later) :
    decl.header.start < later.header.start := by
  cases h with
  | inl hbehind => exact (start_lt_bodyEnd hstands).trans hbehind
  | inr hinside =>
      obtain ⟨inner, hinner, hwithin⟩ := hinside
      have hlaminar := laminar_of_stands hstands
      have hnested := (within_of_nested hstands (mem_nested.2 hinner)).1
      have hstart := hlaminar.start_le_keyword
      have hkeyword := hlaminar.keyword_lt_body
      have hlater := hwithin.1
      omega

end TypeDecl

structure Summary.Tells (summary : Summary) (decl : TypeDecl) : Prop where
  name_eq : summary.name = decl.header.name
  keyword_eq : summary.keyword = decl.header.keyword
  line_eq : summary.line = decl.header.line
  generated : ∃ generation, Generation.ofDecl decl = .ok generation ∧
    summary.strategy = generation.function.strategy ∧
    summary.parameters = generation.function.parameters.map (·.name) ∧
    summary.helpers = generation.helpers.map (·.name)

/-- The declarations of a list up to the first that cannot carry a generator. -/
theorem generateAll_eq_error {decls : List TypeDecl} {decl : TypeDecl}
    (h : IsFirst (fun decl => ¬ decl.IsSupported) decls decl) :
    generateAll decls =
      .error (.unsupported decl.header.line ⟨decl.header.keyword, decl.header.name⟩) := by
  induction decls with
  | nil => exact absurd h not_isFirst_nil
  | cons first rest ih =>
      rw [generateAll]
      rcases isFirst_cons.1 h with ⟨hfirst, rfl⟩ | ⟨hfirst, hrest⟩
      · rw [TypeDecl.ofDecl_eq_error _ hfirst]
      · obtain ⟨generation, hgeneration⟩ := TypeDecl.exists_generation (not_not.1 hfirst)
        rw [hgeneration, ih hrest]
        rfl

/-- Each summary of a generation tells of the declaration it was made for. -/
theorem tells_of_generateAll {decls : List TypeDecl} {generated : List (TypeDecl × Generation)}
    (h : generateAll decls = .ok generated) :
    List.Forall₂ (fun decl summary => Summary.Tells summary decl) decls
      (generated.map fun pair => pair.1.summary pair.2) := by
  induction decls generalizing generated with
  | nil =>
      cases h
      exact .nil
  | cons decl rest ih =>
      rw [generateAll] at h
      cases hdecl : Generation.ofDecl decl with
      | error refused =>
          rw [hdecl] at h
          cases h
      | ok generation =>
          rw [hdecl] at h
          cases hrest : generateAll rest with
          | error failure =>
              rw [hrest] at h
              cases h
          | ok others =>
              rw [hrest] at h
              cases h
              exact .cons ⟨rfl, rfl, rfl, generation, hdecl, rfl, rfl, rfl⟩ (ih hrest)

/-- The first refused declaration of a walk is the first annotated one without support. -/
theorem isFirst_annotated {decls : List TypeDecl} {decl : TypeDecl}
    (h : IsFirst TypeDecl.IsRefused (walk decls) decl) :
    IsFirst (fun decl => ¬ decl.IsSupported) (annotated decls) decl := by
  obtain ⟨before, after, hwalk, hrefused, hbefore⟩ := h
  have htrigger : decl.trigger?.isSome = true := by
    rw [decl.isSome_trigger?_eq]
    exact decide_eq_true hrefused.annotated
  refine ⟨before.filter (·.trigger?.isSome), after.filter (·.trigger?.isSome), ?_,
    hrefused.unsupported, ?_⟩
  · rw [annotated, hwalk, List.filter_append, List.filter_cons, if_pos htrigger]
  · intro other hother hunsupported
    obtain ⟨hmem, hannotated⟩ := List.mem_filter.1 hother
    rw [other.isSome_trigger?_eq] at hannotated
    exact hbefore other hmem ⟨of_decide_eq_true hannotated, hunsupported⟩

section Expand

variable {language : Language} {source : List Char} {decls : List TypeDecl}
  (unit filename : String) (hparse : parse language source = .ok decls)

include hparse

theorem expand_of_isFirst {decl : TypeDecl} (h : IsFirst TypeDecl.IsRefused (walk decls) decl) :
    expand language unit filename source = .error ⟨filename,
      .unsupported decl.header.line ⟨decl.header.keyword, decl.header.name⟩⟩ := by
  rw [expand, hparse]
  dsimp only
  rw [generateAll_eq_error (isFirst_annotated h)]

/-- A source with no refused declaration is expanded, with one summary for each annotated type. -/
theorem exists_expand_of_supported (h : ∀ decl ∈ walk decls, ¬ decl.IsRefused) :
    ∃ expansion, expand language unit filename source = .ok expansion ∧
      List.Forall₂ (fun decl summary => Summary.Tells summary decl) (annotated decls)
        expansion.declarations ∧
      (annotated decls = [] → expansion.source = source) := by
  have hsupported : ∀ decl ∈ annotated decls, decl.IsSupported := by
    intro decl hdecl
    obtain ⟨hmem, hannotated⟩ := List.mem_filter.1 hdecl
    rw [decl.isSome_trigger?_eq] at hannotated
    by_contra hunsupported
    exact h decl hmem ⟨of_decide_eq_true hannotated, hunsupported⟩
  obtain ⟨generated, hgenerated, hmap⟩ := generateAll_eq_ok hsupported
  refine ⟨_, expand_eq_ok hparse hgenerated, tells_of_generateAll hgenerated, ?_⟩
  intro hnone
  rw [hnone, List.map_eq_nil_iff] at hmap
  rw [hmap]
  simp [applyGenerated, Edit.applyAll, Edit.backToFront]

/-- A walk goes over a file from front to back. -/
theorem walk_increases (hfaithful : language.Faithful source) :
    ((walk decls).map fun decl => decl.header.start).Pairwise (· < ·) := by
  obtain ⟨hstands, hleads⟩ := walk_leads hfaithful hparse
  refine List.pairwise_map.2 (hleads.imp_of_mem ?_)
  intro decl later hdecl _ hlater
  exact hlater.start_lt (hstands decl hdecl)

end Expand

/-- A source text is expanded as a whole or not at all.  An error names the first annotated
declaration of the walk that cannot carry a generator; a result tells of the annotated
declarations, each once and in the order of the walk.  If the tree is faithful to the text,
the line of an error is where the keyword stands, and the walk goes from front to back. -/
theorem expand_all_or_nothing (language : Language) (unit filename : String)
    (source : List Char) :
    ((∃ error, expand language unit filename source = .error error) ↔
      (∃ malformed, parse language source = .error malformed) ∨
        ∃ decls, parse language source = .ok decls ∧ ∃ decl ∈ walk decls, decl.IsRefused) ∧
    (∀ malformed, parse language source = .error malformed →
      ∃ error, expand language unit filename source = .error error ∧
        error.filename = filename ∧ error.declaration? = none ∧
        error.message = filename ++ ": " ++ malformed.text) ∧
    ∀ decls, parse language source = .ok decls →
      (∀ decl, IsFirst TypeDecl.IsRefused (walk decls) decl →
        ∃ error, expand language unit filename source = .error error ∧
          error.filename = filename ∧ error.declaration? = some decl.header.name ∧
          error.message = filename ++ ":" ++ toString decl.header.line ++ ": " ++
            ("Unsupported type declaration '" ++ decl.header.keyword ++ " " ++ decl.header.name ++
              "': " ++ "only struct, class, actor and enum declarations can generate fakes") ∧
          (language.Faithful source →
            decl.header.line = 1 + (source.take decl.header.keywordStart).count '\n')) ∧
      ((∀ decl ∈ walk decls, ¬ decl.IsRefused) →
        ∃ expansion, expand language unit filename source = .ok expansion ∧
          List.Forall₂ (fun decl summary => Summary.Tells summary decl)
            ((walk decls).filter (·.IsAnnotated)) expansion.declarations ∧
          (walk decls).Perm (typesOf (decls.map TypeDecl.toMember)) ∧
          (language.Faithful source →
            ((walk decls).map fun decl => decl.header.start).Pairwise (· < ·)) ∧
          ((∀ decl ∈ walk decls, ¬ decl.IsAnnotated) → expansion.source = source)) := by
  have hannotated : ∀ decls, annotated decls = (walk decls).filter (·.IsAnnotated) := by
    intro decls
    rw [annotated]
    exact List.filter_congr fun decl _ => decl.isSome_trigger?_eq
  have hmalformed : ∀ malformed, parse language source = .error malformed →
      expand language unit filename source = .error ⟨filename, .malformed malformed⟩ := by
    intro malformed herror
    rw [expand, herror]
  refine ⟨⟨?_, ?_⟩, ?_, ?_⟩
  · rintro ⟨error, herror⟩
    cases hparse : parse language source with
    | error malformed => exact .inl ⟨malformed, rfl⟩
    | ok decls =>
        refine .inr ⟨decls, rfl, ?_⟩
        by_contra hfine
        push Not at hfine
        obtain ⟨expansion, hok, -⟩ := exists_expand_of_supported unit filename hparse hfine
        rw [hok] at herror
        cases herror
  · rintro (⟨malformed, herror⟩ | ⟨decls, hparse, decl, hdecl, hrefused⟩)
    · exact ⟨_, hmalformed malformed herror⟩
    · obtain ⟨first, hfirst⟩ := exists_isFirst hdecl hrefused
      exact ⟨_, expand_of_isFirst unit filename hparse hfirst⟩
  · intro malformed herror
    exact ⟨_, hmalformed malformed herror, rfl, rfl, rfl⟩
  · intro decls hparse
    constructor
    · intro decl hfirst
      have hmem : decl ∈ walk decls := by
        obtain ⟨before, after, hwalk, -⟩ := hfirst
        rw [hwalk]
        simp
      exact ⟨_, expand_of_isFirst unit filename hparse hfirst, rfl, rfl, rfl, fun hfaithful =>
        (laminar_of_stands ((walk_leads hfaithful hparse).1 decl hmem)).line_number⟩
    · intro hsupported
      obtain ⟨expansion, hok, htells, hsame⟩ :=
        exists_expand_of_supported unit filename hparse hsupported
      rw [hannotated] at htells hsame
      refine ⟨expansion, hok, htells, walk_perm decls, walk_increases hparse, ?_⟩
      intro hnone
      apply hsame
      rw [List.filter_eq_nil_iff]
      intro decl hdecl
      simpa using hnone decl hdecl

def protocolInside : List Char :=
  "@AutoFake struct A \x7b\n  @AutoFake protocol B \x7b\x7d\n\x7d".toList

theorem expand_all_or_nothing_protocolInside :
    ∃ decls decl, parse swift protocolInside = .ok decls ∧
      (walk decls).map (fun decl => (decl.header.name, decide decl.IsAnnotated)) =
        [("A", true), ("B", true)] ∧
      IsFirst TypeDecl.IsRefused (walk decls) decl ∧
      ∃ error, expand swift "  " "B.swift" protocolInside = .error error ∧
        error.declaration? = some decl.header.name ∧ decl.header.name = "B" := by
  have hshape : (parse swift protocolInside).toOption.map (fun decls => (walk decls).map fun decl =>
      (decl.header.keyword, decl.header.name, decide decl.IsAnnotated)) =
        some [("struct", "A", true), ("protocol", "B", true)] := by
    decide +kernel
  obtain ⟨decls, hfound, hwalk⟩ := Option.map_eq_some_iff.1 hshape
  have hparse := eq_ok_of_toOption hfound
  obtain ⟨first, others, hfirst, hstruct, hothers⟩ := List.map_eq_cons_iff.1 hwalk
  obtain ⟨second, hsecond, hprotocol⟩ := List.map_eq_singleton_iff.1 hothers
  simp only [Prod.mk.injEq] at hstruct hprotocol
  have hrefused : IsFirst TypeDecl.IsRefused (walk decls) second := by
    refine ⟨[first], [], by rw [hfirst, hsecond]; rfl, ⟨of_decide_eq_true hprotocol.2.2, ?_⟩, ?_⟩
    · rw [hprotocol.1]
      decide
    · intro decl hdecl hrefused
      rw [List.mem_singleton.1 hdecl] at hrefused
      apply hrefused.unsupported
      rw [hstruct.1]
      decide
  obtain ⟨error, herror, -, hname, -⟩ :=
    ((expand_all_or_nothing swift "  " "B.swift" protocolInside).2.2 decls hparse).1 second hrefused
  refine ⟨decls, second, hparse, ?_, hrefused, error, herror, hname, hprotocol.2.1⟩
  rw [hfirst, hsecond]
  simp [hstruct.2, hprotocol.2]

end Fakery
