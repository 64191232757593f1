import Fakery.Proofs.Source.Lifted
import Fakery.Source.File
import Fakery.Source.Reader.Language
import Fakery.Source.Walk

/-!
# Laminar offsets

The offsets of the declarations of a file are laminar: braces enclose members,
members lie apart from each other, and attributes lie before the keyword of what
they belong to.
-/

namespace Fakery

/-- A declaration of a file, at its top or nested in another at any depth.  Members
under `#if` count. -/
inductive Occurs (decls : List TypeDecl) : TypeDecl → Prop where
  | top {decl : TypeDecl} : decl ∈ decls → Occurs decls decl
  | nested {decl inner : TypeDecl} : Occurs decls decl →
    inner.toMember ∈ decl.members ++ decl.conditional → Occurs decls inner

/-- The offsets of a declaration and of its members fit into the source text and
into each other. -/
structure TypeDecl.Laminar (source : List Char) (decl : TypeDecl) : Prop where
  start_le_keyword : decl.header.start ≤ decl.header.keywordStart
  keyword_lt_body : decl.header.keywordStart < decl.header.bodyStart
  bodyStart_lt_bodyEnd : decl.header.bodyStart < decl.header.bodyEnd
  bodyEnd_lt_length : decl.header.bodyEnd < source.length
  opening_brace : source[decl.header.bodyStart]? = some '\x7b'
  closing_brace : source[decl.header.bodyEnd]? = some '\x7d'
  keyword_text : decl.header.keyword.toList <+: source.drop decl.header.keywordStart
  line_number : decl.header.line = 1 + (source.take decl.header.keywordStart).count '\n'
  attributes_before_keyword : ∀ found ∈ decl.header.attributes,
    decl.header.start ≤ found.start ∧ found.start < found.stop ∧
      found.stop ≤ decl.header.keywordStart ∧ source[found.start]? = some '@'
  members_between_braces : ∀ m ∈ decl.members ++ decl.conditional,
    decl.header.bodyStart < m.start ∧ m.start < m.stop ∧ m.stop ≤ decl.header.bodyEnd
  members_apart : (decl.members ++ decl.conditional).Pairwise Member.Apart
  attributes_inside_property : ∀ p, Member.property p ∈ decl.members ++ decl.conditional →
    ∀ found ∈ p.attributes, p.start ≤ found.start ∧ found.start < found.stop ∧
      ∃ i c, found.stop ≤ i ∧ i < p.stop ∧ source[i]? = some c ∧ Text.isBlank c = false

theorem getElem?_lt_length {source : List Char} {i : Nat} {c : Char} (h : source[i]? = some c) :
    i < source.length :=
  (List.getElem?_eq_some_iff.1 h).1

/-- A type that stands in a source text is laminar. -/
theorem laminar_of_stands {source : List Char} {decl : TypeDecl}
    (h : decl.toMember.Stands source) : decl.Laminar source := by
  cases h with
  | type hheader hbounds hapart hstands =>
      exact {
        start_le_keyword := hheader.start_le
        keyword_lt_body := hheader.keywordStart_lt
        bodyStart_lt_bodyEnd := hheader.bodyStart_lt
        bodyEnd_lt_length := getElem?_lt_length hheader.closing
        opening_brace := hheader.opening
        closing_brace := hheader.closing
        keyword_text := hheader.keyword_prefix
        line_number := hheader.line_eq
        attributes_before_keyword := fun found hfound => by
          obtain ⟨hlow, hlt, hhigh⟩ := hheader.attributes.bounds found hfound
          exact ⟨hlow, hlt, hhigh, hheader.attributes.mark found hfound⟩
        members_between_braces := hbounds
        members_apart := hapart
        attributes_inside_property := fun p hp found hfound => by
          cases hstands _ hp with
          | property hproperty =>
              obtain ⟨keywordStart, hstop, ⟨c, hc, hblank⟩, hattributes⟩ := hproperty
              obtain ⟨hlow, hlt, hhigh⟩ := hattributes.bounds found hfound
              exact ⟨hlow, hlt, keywordStart, c, hhigh, hstop, hc, hblank⟩ }

/-- What is nested in a type that stands in a source text stands there as well. -/
theorem stands_of_nested {source : List Char} {decl inner : TypeDecl}
    (h : decl.toMember.Stands source)
    (hinner : inner.toMember ∈ decl.members ++ decl.conditional) :
    inner.toMember.Stands source := by
  cases h with
  | type hheader hbounds hapart hstands => exact hstands _ hinner

theorem stands_of_occurs {source : List Char} {decls : List TypeDecl} {decl : TypeDecl}
    (hdecls : ∀ decl ∈ decls, decl.toMember.Stands source) (h : Occurs decls decl) :
    decl.toMember.Stands source := by
  induction h with
  | top hmem => exact hdecls _ hmem
  | nested _ hinner ih => exact stands_of_nested ih hinner

theorem eq_toMember_of_typeDecl? {m : Member} {decl : TypeDecl} (h : m.typeDecl? = some decl) :
    m = decl.toMember := by
  cases m with
  | type header members conditional =>
      cases h
      rfl
  | property p => simp [Member.typeDecl?] at h
  | cases group => simp [Member.typeDecl?] at h
  | initializer declared => simp [Member.typeDecl?] at h
  | other member => simp [Member.typeDecl?] at h

/-- The types among members that lie apart lie apart. -/
theorem types_apart {members : List Member} (h : members.Pairwise Member.Apart) :
    (members.filterMap Member.typeDecl?).Pairwise fun a b => a.toMember.Apart b.toMember := by
  rw [List.pairwise_filterMap]
  refine h.imp fun {a b} hab left hleft right hright => ?_
  rwa [← eq_toMember_of_typeDecl? hleft, ← eq_toMember_of_typeDecl? hright]

/-- A file is read if its tree has no error and every type in it has a body. -/
theorem parse_eq_ok {language : Language} {source : List Char} {decls : List TypeDecl} :
    parse language source = .ok decls ↔
      (language.tree (Text.Utf8.encode source)).hasError = false ∧
      ∃ items, SyntaxNode.items source (language.tree (Text.Utf8.encode source)).children =
          .ok items ∧
        decls = (((separate 0 items).1 ++ (separate 0 items).2).filterMap
          Member.typeDecl?).mergeSort fun a b => a.header.start ≤ b.header.start := by
  rw [parse, SyntaxNode.innerItems_eq]
  dsimp only
  split
  · next herror => simp [herror]
  · next herror =>
      cases hitems : SyntaxNode.items source (language.tree (Text.Utf8.encode source)).children <;>
        simp [herror, bind, Except.bind, pure, Except.pure, eq_comm]

/-- The tree of a text without errors is faithful to the text. -/
def Language.Faithful (language : Language) (source : List Char) : Prop :=
  (language.tree (Text.Utf8.encode source)).hasError = false →
    (language.tree (Text.Utf8.encode source)).Faithful source

theorem faithful_of_decide {language : Language} {source : List Char}
    (h : (language.tree (Text.Utf8.encode source)).isFaithful source = true) :
    language.Faithful source :=
  fun _ => SyntaxNode.faithful_of_isFaithful _ h

/-- The declarations at the top of a file stand in it and apart from each other. -/
theorem parse_stands {language : Language} {source : List Char} {decls : List TypeDecl}
    (hfaithful : language.Faithful source) (h : parse language source = .ok decls) :
    (∀ decl ∈ decls, decl.toMember.Stands source) ∧
      decls.Pairwise fun a b => a.toMember.Apart b.toMember := by
  obtain ⟨herror, items, hitems, rfl⟩ := parse_eq_ok.1 h
  obtain ⟨hlifted, hapart⟩ := ((hfaithful herror).lifted.2 items hitems).separate 0
  have hperm := List.mergeSort_perm
    (((separate 0 items).1 ++ (separate 0 items).2).filterMap Member.typeDecl?)
    fun a b => decide (a.header.start ≤ b.header.start)
  constructor
  · intro decl hdecl
    obtain ⟨m, hm, hdecl⟩ := List.mem_filterMap.1 (hperm.mem_iff.1 hdecl)
    obtain ⟨node, -, -, hstands⟩ := hlifted m hm
    rw [← eq_toMember_of_typeDecl? hdecl]
    exact hstands.stands
  · have hsymm : ∀ {a b : TypeDecl}, a.toMember.Apart b.toMember → b.toMember.Apart a.toMember :=
      fun hab => Or.symm hab
    exact (hperm.pairwise_iff hsymm).2 (types_apart hapart)

/-- The offsets of every declaration of a well-formed file are laminar, and the
declarations at its top lie apart from each other. -/
theorem parse_laminar {language : Language} {source : List Char} {decls : List TypeDecl}
    (hfaithful : language.Faithful source) (h : parse language source = .ok decls) :
    (∀ decl, Occurs decls decl → decl.Laminar source) ∧
      decls.Pairwise fun a b => a.toMember.Apart b.toMember := by
  obtain ⟨hstands, hapart⟩ := parse_stands hfaithful h
  exact ⟨fun decl hdecl => laminar_of_stands (stands_of_occurs hstands hdecl), hapart⟩

/-- A type with an annotated property and with a type under `#if`. -/
def layeredSource : List Char :=
  ("// é\n@A(1) class B: C \x7b @D var e: F?\n#if H\n  struct I \x7b \x7d\n#endif\n\x7d").toList

set_option maxRecDepth 100000 in
theorem parse_laminar_layered :
    ∃ decls, parse swift layeredSource = .ok decls ∧
      decls.map (fun decl => (decl.members.length, decl.conditional.length)) = [(1, 1)] ∧
      (∀ decl, Occurs decls decl → decl.Laminar layeredSource) ∧
      decls.Pairwise fun a b => a.toMember.Apart b.toMember := by
  have hshape : (parse swift layeredSource).toOption.map (fun decls =>
      decls.map fun decl => (decl.members.length, decl.conditional.length)) = some [(1, 1)] := by
    decide +kernel
  obtain ⟨decls, hparse, hcounts⟩ := Option.map_eq_some_iff.1 hshape
  have hok := eq_ok_of_toOption hparse
  exact ⟨decls, hok, hcounts, parse_laminar (faithful_of_decide (by decide +kernel)) hok⟩

end Fakery
