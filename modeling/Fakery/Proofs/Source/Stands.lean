import Fakery.Proofs.Text.Solid
import Fakery.Source.Lift

/-!
# Where declarations stand

What it means for the offsets of a declaration to fit the text it was read from: attributes
stand one after the other before the keyword they belong to, and a type stands with its
members between its braces.  Two declarations may also differ in nothing but their places.
-/

namespace Fakery

/-- Attributes that stand in a source text one after the other between two offsets,
each from its `@` to a character that is no white space. -/
structure AttributesStand (source : List Char) (low high : Nat) (attributes : List Attribute) :
    Prop where
  bounds : ∀ found ∈ attributes, low ≤ found.start ∧ found.start < found.stop ∧ found.stop ≤ high
  mark : ∀ found ∈ attributes, source[found.start]? = some '@'
  last : ∀ found ∈ attributes, Solid source (found.stop - 1)
  inOrder : attributes.Pairwise fun a b => a.stop ≤ b.start

namespace Member

/-- The offset behind a member.  A nested type ends with its closing brace. -/
def stop : Member → Nat
  | .property p => p.stop
  | .cases group => group.stop
  | .initializer i => i.stop
  | .other member => member.stop
  | .type header _ _ => header.bodyEnd + 1

/-- One of two members ends before the other begins. -/
def Apart (a b : Member) : Prop :=
  a.stop ≤ b.start ∨ b.stop ≤ a.start

end Member

/-- A property stands in a source text: its attributes stand before a character that
is no white space and belongs to the property. -/
def Property.Stands (source : List Char) (property : Property) : Prop :=
  ∃ keywordStart, keywordStart < property.stop ∧ Solid source keywordStart ∧
    AttributesStand source property.start keywordStart property.attributes

/-- A header stands in a source text with its attributes, its keyword and its braces. -/
structure Header.Stands (source : List Char) (header : Header) : Prop where
  start_le : header.start ≤ header.keywordStart
  keywordStart_lt : header.keywordStart < header.bodyStart
  bodyStart_lt : header.bodyStart < header.bodyEnd
  opening : source[header.bodyStart]? = some '\x7b'
  closing : source[header.bodyEnd]? = some '\x7d'
  keyword_prefix : header.keyword.toList <+: source.drop header.keywordStart
  keyword_solid : Solid source header.keywordStart
  line_eq : header.line = 1 + (source.take header.keywordStart).count '\n'
  attributes : AttributesStand source header.start header.keywordStart header.attributes

/-- A member stands in a source text with all that is nested in it: the members of a
type lie between its braces and apart from each other. -/
inductive Member.Stands (source : List Char) : Member → Prop where
  | property {p : Property} : p.Stands source → Stands source (.property p)
  | cases (group : CaseGroup) : Stands source (.cases group)
  | initializer (declared : Initializer) : Stands source (.initializer declared)
  | other (member : OtherMember) : Stands source (.other member)
  | type {header : Header} {members conditional : List Member} :
    header.Stands source →
    (∀ m ∈ members ++ conditional,
      header.bodyStart < m.start ∧ m.start < m.stop ∧ m.stop ≤ header.bodyEnd) →
    (members ++ conditional).Pairwise Member.Apart →
    (∀ m ∈ members ++ conditional, Stands source m) →
    Stands source (.type header members conditional)

def membersAmong (items : List Item) : List Member :=
  items.filterMap fun
    | .directive _ => none
    | .member m => some m

/-- Setting conditional members apart loses none and adds none. -/
theorem separate_perm (depth : Nat) (items : List Item) :
    ((separate depth items).1 ++ (separate depth items).2).Perm (membersAmong items) := by
  induction items generalizing depth with
  | nil => exact List.Perm.refl _
  | cons item rest ih =>
      cases item with
      | directive text =>
          simp only [separate, membersAmong, List.filterMap_cons]
          repeat' split
          all_goals exact ih _
      | member m =>
          simp only [separate, membersAmong, List.filterMap_cons]
          split
          · simpa [membersAmong] using ih depth
          · exact List.perm_middle.trans ((ih depth).cons m)

/-! ## Declarations without places -/

def Attribute.withoutPlace (found : Attribute) : Attribute :=
  { found with start := 0, stop := 0 }

def Header.withoutPlaces (header : Header) : Header :=
  { header with
    attributes := header.attributes.map Attribute.withoutPlace
    start := 0, keywordStart := 0, bodyStart := 0, bodyEnd := 0, line := 0 }

mutual

/-- A member with all its data but offsets and line numbers. -/
def Member.withoutPlaces : Member → Member
  | .property p =>
    .property { p with
      attributes := p.attributes.map Attribute.withoutPlace, start := 0, stop := 0 }
  | .cases group =>
    .cases { group with
      attributes := group.attributes.map Attribute.withoutPlace, start := 0, stop := 0 }
  | .initializer declared =>
    .initializer { declared with
      attributes := declared.attributes.map Attribute.withoutPlace, start := 0, stop := 0 }
  | .other member => .other { member with start := 0, stop := 0 }
  | .type header members conditional =>
    .type header.withoutPlaces (withoutPlacesAll members) (withoutPlacesAll conditional)

def withoutPlacesAll : List Member → List Member
  | [] => []
  | m :: rest => m.withoutPlaces :: withoutPlacesAll rest

end

theorem withoutPlacesAll_eq_map (members : List Member) :
    withoutPlacesAll members = members.map Member.withoutPlaces := by
  induction members with
  | nil => rfl
  | cons first rest ih => rw [withoutPlacesAll, List.map_cons, ih]

end Fakery
