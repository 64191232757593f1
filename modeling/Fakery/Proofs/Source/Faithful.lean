import Fakery.Proofs.Source.Stands
import Fakery.Proofs.Text.Offsets

/-!
# Faithful syntax trees

What is assumed of the tree that a language gives for a text: spans lie inside each other and
one behind the other, they cut no character, and the tokens at the ends of attributes, headers
and bodies are what they are in every grammar.  Declarations that are lifted out of such a
tree stand in the text.
-/

namespace Fakery

namespace Text.Utf8

theorem count_newline_encodeChar (c : Char) :
    (String.utf8EncodeChar c).count 10 = if c == '\n' then 1 else 0 := by
  have hlast : c.val.toNat < 0x110000 := by
    rcases c.valid with hlow | hhigh <;> omega
  have hc : c = '\n' ↔ c.val.toNat = 10 := by
    rw [← UInt32.toNat_inj.trans Char.ext_iff.symm]
    rfl
  have hten : UInt8.toNat 10 = 10 := rfl
  simp only [beq_iff_eq, hc, String.utf8EncodeChar]
  split_ifs <;>
    simp only [List.count_cons, List.count_nil, beq_iff_eq, ← UInt8.toNat_inj, hten,
      UInt8.toNat_ofNat'] <;>
    split_ifs <;> omega

/-- The newlines of a text are the newline bytes: no longer character has one. -/
theorem count_newline_encode (cs : List Char) : (encode cs).count 10 = cs.count '\n' := by
  induction cs with
  | nil => rfl
  | cons c rest ih =>
      rw [encode_cons, List.count_append, ih, List.count_cons, count_newline_encodeChar,
        Nat.add_comm]

end Text.Utf8

open Text (slice)

open Text.Utf8 (encode IsBoundary)

namespace SyntaxNode

variable {source : List Char}

/-! ## Character offsets of boundaries -/

theorem charOf_length_encode {i : Nat} (hi : i ≤ source.length) :
    charOf source (encode (source.take i)).length = i := by
  have hle : (encode (source.take i)).length ≤ (encode source).length :=
    (Text.Utf8.isBoundary_encode_iff.2 ⟨i, hi, rfl⟩).1
  rw [charOf, Text.Utf8.charOffset?_eq hle, Text.Utf8.getElem?_charOffsets_take source hi,
    Option.getD_some]

theorem exists_charOf {byte : Nat} (h : IsBoundary (encode source) byte) :
    charOf source byte ≤ source.length ∧
      byte = (encode (source.take (charOf source byte))).length := by
  obtain ⟨i, hi, rfl⟩ := Text.Utf8.isBoundary_encode_iff.1 h
  rw [charOf_length_encode hi]
  exact ⟨hi, rfl⟩

/-- Character offsets of boundaries are ordered as the boundaries are. -/
theorem charOf_le {a b : Nat} (ha : IsBoundary (encode source) a)
    (hb : IsBoundary (encode source) b) (hab : a ≤ b) : charOf source a ≤ charOf source b := by
  have hfirst := Text.Utf8.getElem?_charOffsets_take source (exists_charOf ha).1
  have hsecond := Text.Utf8.getElem?_charOffsets_take source (exists_charOf hb).1
  rw [← (exists_charOf ha).2] at hfirst
  rw [← (exists_charOf hb).2] at hsecond
  exact Text.Utf8.le_of_getElem?_charOffsets hab hfirst hsecond

theorem charOf_lt {a b : Nat} (ha : IsBoundary (encode source) a)
    (hb : IsBoundary (encode source) b) (hab : a < b) : charOf source a < charOf source b := by
  refine lt_of_le_of_ne (charOf_le ha hb hab.le) fun heq => ?_
  have hsame : a = b := by rw [(exists_charOf ha).2, heq, ← (exists_charOf hb).2]
  omega

/-! ## Faithful trees -/

/-- The place of a node and of its children.  Rows count the lines before a node. -/
structure Placed (source : List Char) (node : SyntaxNode) : Prop where
  start_le : node.startByte ≤ node.endByte
  start_boundary : IsBoundary (encode source) node.startByte
  stop_boundary : IsBoundary (encode source) node.endByte
  row : node.startPoint.row = ((encode source).take node.startByte).count 10
  inside : ∀ child ∈ node.children,
    node.startByte ≤ child.startByte ∧ child.endByte ≤ node.endByte
  inOrder : node.children.Pairwise fun a b => a.endByte ≤ b.startByte

/-- The keyword of a declaration stands behind its attributes and modifiers. -/
structure IsKeywordOf (source : List Char) (node keyword : SyntaxNode) : Prop where
  behind : ∀ child ∈ node.children, child.kind = "modifiers" → child.endByte ≤ keyword.startByte
  begins : (keyword.text source).toList.head?.map Text.isBlank = some false

/-- A body begins and ends with a brace, and what has a name in it is not empty. -/
structure IsBraced (source : List Char) (body : SyntaxNode) : Prop where
  two : 2 ≤ body.children.length
  opening : body.children.head?.map (fun token =>
    (token.isNamed, token.text source, token.startByte)) = some (false, "\x7b", body.startByte)
  closing : body.children.getLast?.map (fun token => (token.isNamed, token.text source)) =
    some (false, "\x7d")
  inside : ∀ child ∈ body.children, child.isNamed = true → child.startByte < child.endByte

/-- The tokens that a grammar fixes. -/
structure Shaped (source : List Char) (node : SyntaxNode) : Prop where
  attributeText : node.kind = "attribute" → (node.text source).toList.head? = some '@' ∧
    ∀ c ∈ (node.text source).toList.getLast?, Text.isBlank c = false
  property : node.kind = "property_declaration" →
    ∃ keyword ∈ node.children, IsKeywordOf source node keyword
  type : node.isType = true → ∀ keyword ∈ node.child? "declaration_kind",
    ∀ body ∈ node.child? "body",
      IsKeywordOf source node keyword ∧ keyword.endByte ≤ body.startByte ∧ IsBraced source body

/-- A tree in which every node has its place and its tokens. -/
inductive Faithful (source : List Char) : SyntaxNode → Prop where
  | mk {node : SyntaxNode} : node.Placed source → node.Shaped source →
    (∀ child ∈ node.children, Faithful source child) → Faithful source node

namespace Faithful

variable {node : SyntaxNode}

theorem placed (h : Faithful source node) : node.Placed source := by
  cases h with
  | mk hplaced _ _ => exact hplaced

theorem shaped (h : Faithful source node) : node.Shaped source := by
  cases h with
  | mk _ hshaped _ => exact hshaped

theorem child (h : Faithful source node) {part : SyntaxNode} (hpart : part ∈ node.children) :
    Faithful source part := by
  cases h with
  | mk _ _ hchildren => exact hchildren part hpart

end Faithful

/-! ## Deciding whether a tree is faithful -/

section Decide

variable (source : List Char) (node : SyntaxNode)

instance : Decidable (Placed source node) :=
  decidable_of_iff (node.startByte ≤ node.endByte ∧ IsBoundary (encode source) node.startByte ∧
      IsBoundary (encode source) node.endByte ∧
      node.startPoint.row = ((encode source).take node.startByte).count 10 ∧
      (∀ child ∈ node.children, node.startByte ≤ child.startByte ∧ child.endByte ≤ node.endByte) ∧
      node.children.Pairwise fun a b => a.endByte ≤ b.startByte)
    ⟨fun ⟨hle, hstart, hstop, hrow, hinside, horder⟩ => ⟨hle, hstart, hstop, hrow, hinside, horder⟩,
      fun h => ⟨h.start_le, h.start_boundary, h.stop_boundary, h.row, h.inside, h.inOrder⟩⟩

instance (keyword : SyntaxNode) : Decidable (IsKeywordOf source node keyword) :=
  decidable_of_iff ((∀ child ∈ node.children, child.kind = "modifiers" →
      child.endByte ≤ keyword.startByte) ∧
      (keyword.text source).toList.head?.map Text.isBlank = some false)
    ⟨fun ⟨hbehind, hbegins⟩ => ⟨hbehind, hbegins⟩, fun h => ⟨h.behind, h.begins⟩⟩

instance : Decidable (IsBraced source node) :=
  decidable_of_iff (2 ≤ node.children.length ∧
      node.children.head?.map (fun token => (token.isNamed, token.text source, token.startByte)) =
        some (false, "\x7b", node.startByte) ∧
      node.children.getLast?.map (fun token => (token.isNamed, token.text source)) =
        some (false, "\x7d") ∧
      ∀ child ∈ node.children, child.isNamed = true → child.startByte < child.endByte)
    ⟨fun ⟨htwo, hopening, hclosing, hinside⟩ => ⟨htwo, hopening, hclosing, hinside⟩,
      fun h => ⟨h.two, h.opening, h.closing, h.inside⟩⟩

instance : Decidable (Shaped source node) :=
  decidable_of_iff ((node.kind = "attribute" → (node.text source).toList.head? = some '@' ∧
        ((node.text source).toList.getLast?.all fun c => !Text.isBlank c) = true) ∧
      (node.kind = "property_declaration" →
        ∃ keyword ∈ node.children, IsKeywordOf source node keyword) ∧
      (node.isType = true → ∀ keyword ∈ node.child? "declaration_kind",
        ∀ body ∈ node.child? "body", IsKeywordOf source node keyword ∧
          keyword.endByte ≤ body.startByte ∧ IsBraced source body))
    (by
      simp only [Option.all_eq_true, Bool.not_eq_true']
      exact ⟨fun ⟨hattribute, hproperty, htype⟩ => ⟨hattribute, hproperty, htype⟩,
        fun h => ⟨h.attributeText, h.property, h.type⟩⟩)

end Decide

mutual

def isFaithful (source : List Char) : SyntaxNode → Bool
  | node@⟨_, _, _, _, _, _, _, children⟩ =>
    decide (Placed source node) && decide (Shaped source node) && areFaithful source children

def areFaithful (source : List Char) : List SyntaxNode → Bool
  | [] => true
  | child :: rest => child.isFaithful source && areFaithful source rest

end

mutual

theorem faithful_of_isFaithful {source : List Char} :
    (node : SyntaxNode) → node.isFaithful source = true → Faithful source node
  | ⟨kind, field, isNamed, isMissing, startByte, endByte, startPoint, children⟩, h => by
      rw [isFaithful, Bool.and_eq_true, Bool.and_eq_true] at h
      exact .mk (of_decide_eq_true h.1.1) (of_decide_eq_true h.1.2)
        (faithful_of_areFaithful children h.2)

theorem faithful_of_areFaithful {source : List Char} :
    (nodes : List SyntaxNode) → areFaithful source nodes = true →
      ∀ child ∈ nodes, Faithful source child
  | [], _ => by simp
  | child :: rest, h => by
      rw [areFaithful, Bool.and_eq_true] at h
      exact List.forall_mem_cons.2
        ⟨faithful_of_isFaithful child h.1, faithful_of_areFaithful rest h.2⟩

end

end SyntaxNode

end Fakery
