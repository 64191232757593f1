import Fakery.Proofs.Outline.Derivation
import Fakery.Proofs.Outline.Spelling
import Fakery.Proofs.Source.Lifted
import Fakery.Source.File
import Fakery.Source.Reader.Language

/-!
# Declarations lifted out of derivations

What is lifted out of a node that matches the pattern of an outline is what the outline stands
for, with its places: an attribute from its mark, a parameter from its names and its type, an
element of a case line with the values in its own parentheses, and a type with its members.
-/

namespace Fakery

open Text (slice)

open Text.Utf8 (isAscii)

namespace Text.Utf8

theorem length_encodeChar_ascii {c : Char} (h : c.toNat < 128) :
    (String.utf8EncodeChar c).length = 1 := by
  have hle : c.toNat ≤ 127 := Nat.le_of_lt_succ h
  simp [String.utf8EncodeChar, hle]

/-- In an ASCII text the bytes behind an offset are those of the characters behind it. -/
theorem drop_encode_ascii {cs : List Char} (h : isAscii cs = true) (n : Nat) :
    (encode cs).drop n = encode (cs.drop n) := by
  induction cs generalizing n with
  | nil => simp [encode]
  | cons c rest ih =>
      rw [isAscii_cons, Bool.and_eq_true, decide_eq_true_eq] at h
      cases n with
      | zero => rfl
      | succ n =>
          rw [encode_cons, List.drop_append, length_encodeChar_ascii h.1, List.drop_of_length_le
            (by rw [length_encodeChar_ascii h.1]; omega), List.nil_append, Nat.add_sub_cancel,
            ih h.2, List.drop_succ_cons]

end Text.Utf8

/-! ## Texts of nodes -/

/-- A text stands in a source text from an offset on. -/
def At (source : List Char) (start : Nat) (text : List Char) : Prop :=
  text <+: source.drop start

namespace At

variable {source text more : List Char} {start : Nat}

theorem left (h : At source start (text ++ more)) : At source start text :=
  (List.prefix_append text more).trans h

theorem right (h : At source start (text ++ more)) : At source (start + text.length) more := by
  obtain ⟨tail, htail⟩ := h
  refine ⟨tail, ?_⟩
  rw [← List.drop_drop, ← htail, List.append_assoc, List.drop_left]

theorem left_left {rest : List Char} (h : At source start (text ++ (more ++ rest))) :
    At source start (text ++ more) := by
  rw [← List.append_assoc] at h
  exact h.left

theorem tail {c : Char} (h : At source start (c :: text)) : At source (start + 1) text :=
  @right source [c] text start h

/-- The bytes behind an offset at which a character stands. -/
theorem drop_encode {c : Char} (hascii : isAscii source = true) (h : At source start (c :: text)) :
    ∃ rest, (Text.Utf8.encode source).drop start = String.utf8EncodeChar c ++ rest := by
  obtain ⟨tail, htail⟩ := h
  refine ⟨Text.Utf8.encode (text ++ tail), ?_⟩
  rw [Text.Utf8.drop_encode_ascii hascii, ← htail, List.cons_append, Text.Utf8.encode_cons]

theorem slice_eq (h : At source start text) : slice source start (start + text.length) = text := by
  rw [Text.slice_add, ← List.prefix_iff_eq_take.1 h]

end At

namespace SyntaxNode

variable {source text : List Char} {node : SyntaxNode} (hascii : isAscii source = true)

include hascii

theorem charOf_ascii (byte : Nat) : charOf source byte = byte := by
  rw [charOf, Text.Utf8.charOffset?, if_pos hascii, Option.getD_some]

theorem start_ascii : node.start source = node.startByte :=
  charOf_ascii hascii _

theorem stop_ascii : node.stop source = node.endByte :=
  charOf_ascii hascii _

theorem text_ascii {start : Nat} (hat : At source start text) (hstart : node.startByte = start)
    (hstop : node.endByte = start + text.length) : node.text source = String.ofList text := by
  have htext : node.text source = String.ofList (slice source node.startByte node.endByte) := by
    simp [SyntaxNode.text, Text.Utf8.textBetween?, Text.Utf8.charOffset?, hascii]
  rw [htext, hstart, hstop, hat.slice_eq]

end SyntaxNode

namespace Outline

open TreePattern SyntaxNode

theorem commaText_cons_cons (first next : List Char) (rest : List (List Char)) :
    commaText (first :: next :: rest) = first ++ ',' :: ' ' :: commaText (next :: rest) := by
  simp [commaText]

section Lift

variable {source : List Char} {node : SyntaxNode} {start : Nat} (hascii : isAscii source = true)

include hascii

/-! ## Attributes and modifiers -/

/-- The node of a mark is lifted to the attribute at its place. -/
theorem Mark.toAttribute_eq {mark : Mark} (hat : At source start mark.bareText)
    (h : (mark.pattern start).admits source node = true) :
    node.toAttribute source = mark.placed start := by
  cases hargument : mark.argument with
  | none =>
      simp only [Mark.pattern, hargument, admits_node, admitsAll_cons, admitsAll_nil, admits_token,
        admits_named] at h
      obtain ⟨-, -, -, hstart, hstop, -, sign, _, hchildren, ⟨-, hsign, hsignName, -⟩,
        type, _, rfl, ⟨-, htype, htypeName, hfirst, hlast, -⟩, rfl⟩ := h
      simp only [Mark.bareText, hargument, List.append_nil] at hat
      have hname := text_ascii hascii hat.tail hfirst hlast
      simp [toAttribute, Mark.placed, hargument, namedChildren, hchildren, hsign, hsignName, htype,
        htypeName, hname, start_ascii hascii, stop_ascii hascii, hstart, hstop]
  | some literal =>
      simp only [Mark.pattern, hargument, admits_node, admitsAll_cons, admitsAll_nil, admits_token,
        admits_named, admits_plain] at h
      obtain ⟨-, -, -, hstart, hstop, -, sign, _, hchildren, ⟨-, hsign, hsignName, -⟩,
        type, _, rfl, ⟨-, htype, htypeName, hfirst, hlast, -⟩, opening, _, rfl,
        ⟨-, hopening, -⟩, value, _, rfl, ⟨hvalue, -, hvalueStart, hvalueStop, -⟩, closing, _, rfl,
        ⟨-, hclosing, -⟩, rfl⟩ := h
      simp only [Mark.bareText, hargument] at hat
      have hname := text_ascii hascii hat.tail.left hfirst hlast
      have hslice := hat.tail.right.tail.left.slice_eq
      simp only [markerKinds, List.mem_cons, not_or] at hvalue
      simp [toAttribute, Mark.placed, hargument, namedChildren, hchildren, hsign, hsignName, htype,
        htypeName, hopening, hclosing, hvalue, hname, start_ascii hascii, stop_ascii hascii, hstart,
        hstop, splitOnCommas, piecesUpTo, spanText, isTrivia, hvalueStart, hvalueStop, hslice]

/-- The nodes of marks are lifted to the attributes the marks spell. -/
theorem attributes_marks {marks : List Mark} {nodes : List SyntaxNode}
    (hat : At source start (marks.flatMap Mark.text))
    (h : admitsAll source (markPatterns start marks) nodes = true) :
    nodes.map (toAttribute source) = attributesAt start marks ∧
      ∀ item ∈ nodes, item.kind = "attribute" ∧ item.isNamed = true := by
  induction marks generalizing start nodes with
  | nil =>
      rw [markPatterns, admitsAll_nil] at h
      simp [h, attributesAt]
  | cons mark rest ih =>
      rw [markPatterns, admitsAll_cons] at h
      obtain ⟨first, others, rfl, hfirst, hothers⟩ := h
      rw [List.flatMap_cons] at hat
      obtain ⟨hrest, hkinds⟩ := ih hat.right hothers
      have hmark := mark.toAttribute_eq hascii hat.left.left hfirst
      rw [List.map_cons, hmark, hrest, List.forall_mem_cons]
      have hkind := admits_node.1 hfirst
      exact ⟨rfl, ⟨hkind.2.1, hkind.2.2.1⟩, hkinds⟩

/-- The text of the word behind attributes. -/
def staticText (isStatic : Bool) : List Char :=
  if isStatic then "static ".toList else []

omit hascii in
/-- The node of attributes and modifiers is the only one of its kind, if there is one. -/
theorem modifierNodes_eq {slot : Slot} {marks : List Mark} {isStatic : Bool}
    {front rest : List SyntaxNode}
    (h : admitsAll source (modifiersPattern slot start marks isStatic) front = true)
    (hrest : ∀ item ∈ rest, item.kind ≠ "modifiers") (hchildren : node.children = front ++ rest) :
    ∃ items, admitsAll source (frontPatterns start marks isStatic) items = true ∧
      node.modifierNodes = items.filter (·.isNamed) := by
  have hnone : rest.filter (·.kind == "modifiers") = [] := by
    simpa [List.filter_eq_nil_iff] using hrest
  rw [modifierNodes, hchildren, List.filter_append, hnone, List.append_nil]
  rw [modifiersPattern] at h
  split at h
  · next hempty =>
      rw [Bool.and_eq_true, List.isEmpty_iff, Bool.not_eq_true'] at hempty
      rw [admitsAll_nil] at h
      exact ⟨[], by simp [hempty, frontPatterns, markPatterns, admitsAll], by simp [h]⟩
  · obtain ⟨part, rfl, hpart⟩ := admitsAll_singleton.1 h
    simp only [admits, Spot.admits, Label.admits, Bool.and_eq_true, beq_iff_eq] at hpart
    exact ⟨part.children, hpart.2, by simp [hpart.1.1.2.1, namedChildren]⟩

/-- The nodes in front of a keyword are the attributes and the modifier of a member. -/
theorem front_lifted {slot : Slot} {marks : List Mark} {isStatic : Bool}
    {front rest : List SyntaxNode}
    (hat : At source start (marks.flatMap Mark.text ++ staticText isStatic))
    (h : admitsAll source (modifiersPattern slot start marks isStatic) front = true)
    (hrest : ∀ item ∈ rest, item.kind ≠ "modifiers") (hchildren : node.children = front ++ rest) :
    node.attributes source = attributesAt start marks ∧
      node.modifiers source = modifiersOf isStatic := by
  obtain ⟨items, hitems, hnodes⟩ := modifierNodes_eq h hrest hchildren
  rw [frontPatterns, admitsAll_append] at hitems
  obtain ⟨found, words, rfl, hfound, hwords⟩ := hitems
  obtain ⟨hmarks, hkinds⟩ := attributes_marks hascii hat.left hfound
  have hnamed : found.filter (·.isNamed) = found :=
    List.filter_eq_self.2 fun item hitem => (hkinds item hitem).2
  have hattributes : found.filter (·.kind == "attribute") = found :=
    List.filter_eq_self.2 fun item hitem => by rw [(hkinds item hitem).1]; rfl
  have hothers : found.filter (fun item => item.kind != "attribute" && !item.isTrivia) = [] :=
    List.filter_eq_nil_iff.2 fun item hitem => by simp [(hkinds item hitem).1]
  rw [attributes, modifiers, hnodes, List.filter_append, hnamed, List.filter_append,
    List.filter_append, hattributes, hothers, List.map_append, hmarks, List.nil_append]
  cases isStatic with
  | false =>
      rw [if_neg Bool.false_ne_true, admitsAll_nil] at hwords
      simp [hwords, modifiersOf]
  | true =>
      rw [if_pos rfl, admitsAll_singleton] at hwords
      obtain ⟨word, rfl, hword⟩ := hwords
      obtain ⟨hkind, hname, hfirst, hlast, -⟩ := admits_plain.1 hword
      have hstatic : At source (start + (marks.flatMap Mark.text).length) "static".toList :=
        @At.left source "static".toList [' '] _ hat.right
      have htext := text_ascii hascii hstatic hfirst hlast
      simp only [markerKinds, List.mem_cons, not_or] at hkind
      simp [hname, hkind, isTrivia, htext, modifiersOf]

omit hascii in
/-- A node outside of some fields fills none of them. -/
theorem field_outside {fields : List String} {field : String} (hfield : field ∈ fields)
    (h : (Slot.outside fields).admits node.field = true) : (node.field == some field) = false := by
  rw [Slot.admits, Bool.not_eq_true'] at h
  refine beq_false_of_ne fun heq => ?_
  rw [heq, Option.any_some, List.contains_iff_mem.2 hfield] at h
  cases h

omit hascii in
theorem filter_cons_outside {fields : List String} {field : String} (hfield : field ∈ fields)
    (h : (Slot.outside fields).admits node.field = true) (rest : List SyntaxNode) :
    (node :: rest).filter (·.field == some field) = rest.filter (·.field == some field) := by
  rw [List.filter_cons, field_outside hfield h, if_neg Bool.false_ne_true]

omit hascii in
theorem filter_outside {fields : List String} {field : String} {nodes : List SyntaxNode}
    (hfield : field ∈ fields)
    (h : ∀ item ∈ nodes, (Slot.outside fields).admits item.field = true) :
    nodes.filter (·.field == some field) = [] := by
  rw [List.filter_eq_nil_iff]
  intro item hitem
  rw [field_outside hfield (h item hitem)]
  exact Bool.false_ne_true

omit hascii in
theorem of_mem_modifiers {slot : Slot} {marks : List Mark} {isStatic : Bool}
    {front : List SyntaxNode}
    (h : admitsAll source (modifiersPattern slot start marks isStatic) front = true) :
    ∀ item ∈ front, item.kind = "modifiers" ∧ slot.admits item.field = true := by
  rw [modifiersPattern] at h
  split at h
  · simp [admitsAll_nil.1 h]
  · obtain ⟨part, rfl, hpart⟩ := admitsAll_singleton.1 h
    simp only [admits, Spot.admits, Label.admits, Bool.and_eq_true, beq_iff_eq] at hpart
    simpa using ⟨hpart.1.1.2.1, hpart.1.1.1⟩

/-! ## Properties -/

omit hascii in
theorem bindings_append {values front rest : List SyntaxNode}
    (h : ∀ item ∈ front, item.kind = "modifiers") :
    bindings source values (front ++ rest) = bindings source values rest := by
  induction front with
  | nil => rfl
  | cons item front ih =>
      rw [List.forall_mem_cons] at h
      rw [List.cons_append, bindings, ih h.2, if_neg (by simp [h.1])]

/-- The type of an annotation is the text behind its colon. -/
theorem annotatedType?_eq {type : Ty} (hat : At source (start + 2) type.text)
    (hstop : node.endByte = start + (2 + type.text.length))
    (h : admitsAll source [token .any ":" start, plain (start + 2) type.text.length]
      node.children = true) :
    annotatedType? source node = some (String.ofList type.text) := by
  simp only [admitsAll_cons, admitsAll_nil, admits_token, admits_plain] at h
  obtain ⟨colon, _, hchildren, ⟨-, hcolon, -⟩, written, _, rfl, ⟨hkind, -, hfirst, -⟩, rfl⟩ := h
  have hslice := hat.slice_eq
  rw [Nat.add_assoc] at hslice
  simp only [markerKinds, List.mem_cons, not_or] at hkind
  simp [annotatedType?, after, hchildren, hcolon, isTrivia, hkind, start_ascii hascii,
    stop_ascii hascii, hfirst, hstop, hslice, type.trimmed_text]

/-- The node of a property is lifted to its binding. -/
theorem member?_property {front : Front} {isStatic isVariable : Bool} {name : Name} {type : Ty}
    (hat : At source start (Node.property front isStatic isVariable name type).text)
    (h : ((Node.property front isStatic isVariable name type).pattern start).admits source node =
      true) :
    member? source node =
      .ok (some ((Node.property front isStatic isVariable name type).placed source start)) := by
  rw [Node.pattern, admits_node] at h
  obtain ⟨-, hkind, -, hstart, hstop, -, hadmits⟩ := h
  obtain ⟨fronts, rest, hchildren, hfronts, hrest⟩ := admitsAll_append.1 hadmits
  have hmodifiers := of_mem_modifiers hfronts
  simp only [bindingPatterns, admitsAll_cons, admitsAll_nil] at hrest
  obtain ⟨keyword, _, rfl, hkeyword, pattern, _, rfl, hpattern, annotation, _, rfl, hannotation,
    rfl⟩ := hrest
  obtain ⟨hkeywordSlot, hkeywordKind, -, hkeywordStart, hkeywordStop, -⟩ := admits_named.1 hkeyword
  obtain ⟨hpatternSlot, hpatternKind, -, hpatternStart, hpatternStop, -⟩ := admits_named.1 hpattern
  obtain ⟨htypeSlot, htypeKind, htypeNamed, -, htypeStop, -, htype⟩ := admits_node.1 hannotation
  have hbare : At source (start + front.margin.text.length) (front.marks.flatMap Mark.text ++
      (staticText isStatic ++ ((specifierOf isVariable).toList ++
        ' ' :: (name.text ++ ':' :: ' ' :: type.text)))) := hat.right
  have hoffset : start + front.margin.text.length + (front.marks.flatMap Mark.text).length +
      (staticText isStatic).length = start + front.text.length + if isStatic then 7 else 0 := by
    have hstatic : (staticText isStatic).length = if isStatic then 7 else 0 := by
      cases isStatic <;> rfl
    rw [hstatic, Front.text, List.length_append, ← Nat.add_assoc]
  have hwords := hbare.right.right
  rw [hoffset] at hwords
  obtain ⟨hattributes, hmodified⟩ := front_lifted hascii hbare.left_left hfronts
    (by simp [hkeywordKind, hpatternKind, htypeKind]) hchildren
  have hspecifier := text_ascii hascii hwords.left hkeywordStart hkeywordStop
  have hname := text_ascii hascii hwords.right.tail.left hpatternStart hpatternStop
  have hwritten := annotatedType?_eq hascii hwords.right.tail.right.tail.tail htypeStop htype
  have hvalues : node.childrenOf "value" = [] := by
    rw [childrenOf, hchildren]
    refine filter_outside (List.mem_singleton.2 rfl) ?_
    simp only [List.forall_mem_append, List.forall_mem_cons]
    exact ⟨fun item hitem => (hmodifiers item hitem).2, hkeywordSlot, hpatternSlot, htypeSlot,
      by simp⟩
  have hlast : (node.children.filter (·.kind == "value_binding_pattern")).getLast? =
      some keyword := by
    have hnone : fronts.filter (·.kind == "value_binding_pattern") = [] :=
      List.filter_eq_nil_iff.2 fun item hitem => by simp [(hmodifiers item hitem).1]
    simp [hchildren, hnone, hkeywordKind, hpatternKind, htypeKind]
  have hbindings : bindings source [] node.children =
      [⟨String.ofList name.text, some (String.ofList type.text), none, none⟩] := by
    rw [hchildren, bindings_append fun item hitem => (hmodifiers item hitem).1]
    simp [bindings, hkeywordKind, hpatternKind, htypeKind, detailsOf, htypeNamed, isTrivia, refine,
      hwritten, hname]
  rw [member?_of_not_isType (by simp [isType, hkind]), plainMember?, if_pos (by simp [hkind]),
    toProperty, hattributes, hmodified, hlast, hvalues, hbindings, Option.map_some,
    Option.getD_some,
    hspecifier, String.ofList_toList, start_ascii hascii, stop_ascii hascii, hstart, hstop,
    Node.placed, Node.text, List.length_append, ← Nat.add_assoc]
  rfl

/-! ## Cases -/

omit hascii in
/-- Nodes between two separators are one piece. -/
theorem piecesUpTo_append {closer : String} {piece : List SyntaxNode}
    (h : ∀ item ∈ piece, item.kind ≠ closer ∧ item.kind ≠ ",") (current rest : List SyntaxNode) :
    piecesUpTo closer current (piece ++ rest) = piecesUpTo closer (current ++ piece) rest := by
  induction piece generalizing current with
  | nil => simp
  | cons item piece ih =>
      rw [List.forall_mem_cons] at h
      rw [List.cons_append, piecesUpTo, if_neg (by simp [h.1.1]), if_neg (by simp [h.1.2]), ih h.2,
        List.append_assoc, List.singleton_append]

/-- The nodes of an associated value are lifted to its parameter. -/
theorem caseParameter?_eq {value : Value} {piece : List SyntaxNode}
    (hat : At source start value.text) (h : admitsAll source (value.patterns start) piece = true) :
    caseParameter? source piece = some value.parameter ∧
      ∀ item ∈ piece, item.kind ≠ ")" ∧ item.kind ≠ "," := by
  cases hlabel : value.label with
  | none =>
      simp only [Value.patterns, hlabel, admitsAll_singleton, admits_plain] at h
      obtain ⟨type, rfl, hkind, hnamed, hfirst, hlast, -⟩ := h
      simp only [Value.text, hlabel] at hat
      have htext := text_ascii hascii hat hfirst hlast
      simp only [markerKinds, List.mem_cons, not_or] at hkind
      simp [caseParameter?, hnamed, isTrivia, hkind, htext, Value.parameter, hlabel]
  | some label =>
      simp only [Value.patterns, hlabel, admitsAll_cons, admitsAll_nil, admits_plain,
        admits_token] at h
      obtain ⟨name, _, rfl, ⟨hnameKind, hname, hnameStart, hnameStop, -⟩, colon, _, rfl,
        ⟨-, hcolonKind, hcolon, -⟩, type, _, rfl, ⟨hkind, hnamed, hfirst, hlast, -⟩, rfl⟩ := h
      simp only [Value.text, hlabel] at hat
      have hlabelText := text_ascii hascii hat.left hnameStart hnameStop
      have htext := text_ascii hascii hat.right.tail.tail hfirst hlast
      have hwildcard : String.ofList label.text ≠ "_" := fun heq =>
        @Name.not_mem label ["_"] (by decide) (by simp [heq])
      simp only [markerKinds, List.mem_cons, not_or] at hkind hnameKind
      simp [caseParameter?, hnamed, hname, hcolon, hcolonKind, isTrivia, hkind, hnameKind, htext,
        hlabelText, before, after, hwildcard, Value.parameter, hlabel]

/-- The values between parentheses, each from its own piece. -/
theorem filterMap_pieces {values : List Value} {nodes : List SyntaxNode} {closing : SyntaxNode}
    (hat : At source start (commaText (values.map Value.text)))
    (h : admitsAll source (separated .any Value.patterns (·.text.length) start values) nodes = true)
    (hclosing : closing.kind = ")") :
    (piecesUpTo ")" [] (nodes ++ [closing])).filterMap (caseParameter? source) =
      values.map Value.parameter := by
  induction values generalizing start nodes with
  | nil =>
      rw [separated, admitsAll_nil] at h
      simp [h, piecesUpTo, hclosing, caseParameter?]
  | cons value rest ih =>
      cases rest with
      | nil =>
          rw [separated] at h
          obtain ⟨hvalue, hkinds⟩ := caseParameter?_eq hascii (by simpa [commaText] using hat) h
          rw [piecesUpTo_append hkinds]
          simp [piecesUpTo, hclosing, hvalue]
      | cons next rest =>
          rw [separated, admitsAll_append] at h
          obtain ⟨piece, _, rfl, hpiece, hothers⟩ := h
          obtain ⟨comma, others, rfl, hcomma, hothers⟩ := admitsAll_cons.1 hothers
          rw [List.map_cons, List.map_cons, commaText_cons_cons] at hat
          obtain ⟨hvalue, hkinds⟩ := caseParameter?_eq hascii hat.left hpiece
          rw [List.append_assoc, piecesUpTo_append hkinds, List.cons_append, piecesUpTo,
            if_neg (by simp [(admits_token.1 hcomma).2.1]),
            if_pos (by simp [(admits_token.1 hcomma).2.1]), List.nil_append,
            List.filterMap_cons_some hvalue, ih hat.right.tail.tail hothers]
          rfl

theorem caseParameters_eq {values : List Value}
    (hat : At source start ('(' :: (commaText (values.map Value.text) ++ [')'])))
    (h : admitsAll source (valuesPatterns start values) node.children = true) :
    node.caseParameters source = values.map Value.parameter := by
  obtain ⟨opening, rest, hchildren, hopening, hrest⟩ := admitsAll_cons.1 h
  obtain ⟨nodes, closings, rfl, hnodes, hclosings⟩ := admitsAll_append.1 hrest
  obtain ⟨closing, rfl, hclosing⟩ := admitsAll_singleton.1 hclosings
  rw [caseParameters, hchildren, splitOnCommas, if_pos (by simp [(admits_token.1 hopening).2.1]),
    filterMap_pieces hascii hat.tail.left hnodes (admits_token.1 hclosing).2.1]

/-- The nodes of one element of a case line: its name, and its values if it has any. -/
structure Element.Lifted (source : List Char) (start : Nat) (element : Element)
    (name : SyntaxNode) (contents : List SyntaxNode) : Prop where
  names : (name :: contents).filter (·.field == some "name") = [name]
  contents_eq : (name :: contents).filter (·.field == some "data_contents") = contents
  values_eq : (name :: contents).filter (·.field == some "raw_value") = []
  kinds : ∀ item ∈ name :: contents, item.kind ≠ "modifiers"
  start_eq : name.startByte = start
  stop_eq : name.endByte = start + element.name.text.length
  text_eq : name.text source = String.ofList element.name.text
  head : ∀ item ∈ contents, item.startByte = name.endByte
  parameters : contents.head?.map (caseParameters source) = element.caseElement.parameters
  inside : contents ≠ [] → name.endByte < start + element.text.length

/-- The nodes of an enum element begin with its name and hold its values. -/
theorem Element.exists_lifted {element : Element} {nodes : List SyntaxNode}
    (hat : At source start element.text)
    (h : admitsAll source (element.patterns start) nodes = true) :
    ∃ name contents, nodes = name :: contents ∧ element.Lifted source start name contents := by
  cases hvalues : element.values with
  | none =>
      simp only [Element.patterns, hvalues, admitsAll_singleton, admits_named] at h
      obtain ⟨name, rfl, hfield, hkind, -, hfirst, hlast, -⟩ := h
      simp only [Element.text, hvalues, List.append_nil] at hat
      rw [Slot.admits, beq_iff_eq] at hfield
      refine ⟨name, [], rfl, ?_⟩
      constructor <;>
        simp [hfield, hkind, hfirst, hlast, text_ascii hascii hat hfirst hlast, hvalues,
          Element.caseElement]
  | some values =>
      simp only [Element.patterns, hvalues, admitsAll_cons, admitsAll_nil, admits_named,
        admits_node] at h
      obtain ⟨name, _, rfl, ⟨hfield, hkind, -, hfirst, hlast, -⟩, content, _, rfl,
        ⟨hcontentField, hcontentKind, -, hstart, -, -, hinside⟩, rfl⟩ := h
      simp only [Element.text, hvalues] at hat
      have hparameters := caseParameters_eq hascii hat.right hinside
      rw [Slot.admits, beq_iff_eq] at hfield hcontentField
      refine ⟨name, [content], rfl, ?_⟩
      constructor <;>
        simp [hfield, hcontentField, hkind, hcontentKind, hfirst, hlast, hstart,
          text_ascii hascii hat.left hfirst hlast, hvalues, hparameters, Element.caseElement,
          Element.text]

omit hascii in
theorem between?_append (left right : List SyntaxNode) (low high : Nat) :
    between? (left ++ right) low high = (between? left low high).or (between? right low high) :=
  List.find?_append

omit hascii in
/-- The values between a name and the next one are those of the name. -/
theorem Element.Lifted.between?_eq {element : Element} {name : SyntaxNode}
    {earlier contents later : List SyntaxNode} {limit : Nat}
    (h : element.Lifted source start name contents)
    (hearlier : ∀ item ∈ earlier, item.startByte < start)
    (hlater : ∀ item ∈ later, limit ≤ item.startByte)
    (hlimit : start + element.text.length ≤ limit) :
    between? (earlier ++ (contents ++ later)) name.endByte limit = contents.head? := by
  have hstop := h.stop_eq
  have hnone : between? earlier name.endByte limit = none := by
    rw [between?, List.find?_eq_none]
    intro item hitem
    have hbefore := hearlier item hitem
    simp
    omega
  have hbehind : between? later name.endByte limit = none := by
    rw [between?, List.find?_eq_none]
    intro item hitem
    have hafter := hlater item hitem
    simp
    omega
  rw [between?_append, between?_append, hnone, hbehind, Option.none_or, Option.or_none]
  cases contents with
  | nil => rfl
  | cons content rest =>
      have hstart := h.head content List.mem_cons_self
      have hlast := h.inside (by simp)
      rw [between?, List.find?_cons_of_pos (by simp; omega), List.head?_cons]

omit hascii in
theorem Element.Lifted.caseElements_cons {element : Element} {name : SyntaxNode}
    {earlier contents later names : List SyntaxNode} {stop limit : Nat}
    (h : element.Lifted source start name contents)
    (hearlier : ∀ item ∈ earlier, item.startByte < start)
    (hlater : ∀ item ∈ later, limit ≤ item.startByte)
    (hlimit : start + element.text.length ≤ limit)
    (hnames : (names.head?.map (·.startByte)).getD stop = limit) :
    caseElements source (earlier ++ (contents ++ later)) [] stop (name :: names) =
      element.caseElement ::
        caseElements source (earlier ++ (contents ++ later)) [] stop names := by
  rw [caseElements, hnames, h.between?_eq hearlier hlater hlimit, h.parameters, h.text_eq]
  rfl

structure ElementsLifted (source : List Char) (start : Nat) (elements : List Element)
    (nodes : List SyntaxNode) : Prop where
  le_start : ∀ item ∈ nodes, start ≤ item.startByte
  first : elements ≠ [] →
    ((nodes.filter (·.field == some "name")).head?.map (·.startByte)) = some start
  values_eq : nodes.filter (·.field == some "raw_value") = []
  kinds : ∀ item ∈ nodes, item.kind ≠ "modifiers"
  elements_eq : ∀ {stop : Nat} {earlier : List SyntaxNode},
    (∀ item ∈ earlier, item.startByte < start) →
    start + (commaText (elements.map Element.text)).length ≤ stop →
    caseElements source (earlier ++ nodes.filter (·.field == some "data_contents")) [] stop
      (nodes.filter (·.field == some "name")) = elements.map Element.caseElement

/-- The nodes of a case declaration are lifted to its elements, in order. -/
theorem elements_lifted {elements : List Element} {nodes : List SyntaxNode}
    (hat : At source start (commaText (elements.map Element.text)))
    (h : admitsAll source (separated (.outside caseFields) Element.patterns (·.text.length) start
      elements) nodes = true) : ElementsLifted source start elements nodes := by
  induction elements generalizing start nodes with
  | nil =>
      rw [separated, admitsAll_nil] at h
      subst h
      constructor <;> simp [caseElements]
  | cons element rest ih =>
      cases rest with
      | nil =>
          rw [separated] at h
          obtain ⟨name, contents, rfl, hlifted⟩ :=
            element.exists_lifted hascii (by simpa [commaText] using hat) h
          have hstart := hlifted.start_eq
          have hstop := hlifted.stop_eq
          refine ⟨?_, ?_, hlifted.values_eq, hlifted.kinds, ?_⟩
          · rw [List.forall_mem_cons]
            refine ⟨hstart.ge, fun item hitem => ?_⟩
            have hhead := hlifted.head item hitem
            omega
          · simp [hlifted.names, hstart]
          · intro stop earlier hearlier hlimit
            have helement := @Element.Lifted.caseElements_cons source start element name earlier
              contents [] [] stop stop hlifted hearlier (by simp)
                (by simpa [commaText] using hlimit)
              rfl
            rw [hlifted.names, hlifted.contents_eq, ← List.append_nil contents, helement]
            rfl
      | cons next rest =>
          rw [separated, admitsAll_append] at h
          obtain ⟨own, _, rfl, hown, hothers⟩ := h
          obtain ⟨comma, others, rfl, hcomma, hothers⟩ := admitsAll_cons.1 hothers
          rw [List.map_cons, List.map_cons, commaText_cons_cons] at hat
          obtain ⟨name, contents, rfl, hlifted⟩ := element.exists_lifted hascii hat.left hown
          have hrest := ih hat.right.tail.tail hothers
          obtain ⟨hcommaSlot, hcommaKind, -, hcommaStart, -⟩ := admits_token.1 hcomma
          have hskip : ∀ field ∈ caseFields, (name :: contents ++ comma :: others).filter
              (·.field == some field) = (name :: contents).filter (·.field == some field) ++
                others.filter (·.field == some field) := by
            intro field hfield
            rw [List.filter_append, filter_cons_outside hfield hcommaSlot]
          have hstart := hlifted.start_eq
          have hstop := hlifted.stop_eq
          have hinside : element.name.text.length ≤ element.text.length := by
            rw [Element.text, List.length_append]
            omega
          refine ⟨?_, ?_, ?_, ?_, ?_⟩
          · rw [List.forall_mem_append, List.forall_mem_cons, List.forall_mem_cons]
            refine ⟨⟨hstart.ge, fun item hitem => ?_⟩, by omega, fun item hitem => ?_⟩
            · have hhead := hlifted.head item hitem
              omega
            · have hle := hrest.le_start item hitem
              omega
          · rw [hskip "name" (by decide), hlifted.names]
            simp [hstart]
          · rw [hskip "raw_value" (by decide), hlifted.values_eq, hrest.values_eq]
            rfl
          · exact List.forall_mem_append.2
              ⟨hlifted.kinds, List.forall_mem_cons.2 ⟨by simp [hcommaKind], hrest.kinds⟩⟩
          · intro stop earlier hearlier hlimit
            rw [List.map_cons, List.map_cons, commaText_cons_cons, List.length_append] at hlimit
            simp only [List.length_cons] at hlimit
            have hnames := hrest.first (by simp)
            have hlater : ∀ item ∈ others.filter (·.field == some "data_contents"),
                start + element.text.length + 2 ≤ item.startByte :=
              fun item hitem => hrest.le_start item (List.mem_filter.1 hitem).1
            have hothers := @ElementsLifted.elements_eq _ _ _ _ hrest stop (earlier ++ contents)
              (by
                rw [List.forall_mem_append]
                refine ⟨fun item hitem => ?_, fun item hitem => ?_⟩
                · have hbefore := hearlier item hitem
                  omega
                · have hhead := hlifted.head item hitem
                  omega)
              (by rw [List.map_cons]; omega)
            rw [hskip "name" (by decide), hskip "data_contents" (by decide), hlifted.names,
              hlifted.contents_eq, List.singleton_append,
              hlifted.caseElements_cons hearlier hlater (by omega) (by rw [hnames]; rfl),
              ← List.append_assoc, hothers]
            rfl

omit hascii in
theorem Front.add_length_text (start : Nat) (front : Front) :
    start + front.text.length =
      start + front.margin.text.length + (front.marks.flatMap Mark.text).length := by
  rw [Front.text, List.length_append, Nat.add_assoc]

/-- The node of a case declaration is lifted to its elements. -/
theorem member?_cases {front : Front} {first : Element} {rest : List Element}
    (hat : At source start (Node.cases front first rest).text)
    (h : ((Node.cases front first rest).pattern start).admits source node = true) :
    member? source node = .ok (some ((Node.cases front first rest).placed source start)) := by
  rw [Node.pattern, admits_node] at h
  obtain ⟨-, hkind, -, hstart, hstop, -, hadmits⟩ := h
  obtain ⟨fronts, _, hchildren, hfronts, hrest⟩ := admitsAll_append.1 hadmits
  obtain ⟨keyword, nodes, rfl, hkeyword, hnodes⟩ := admitsAll_cons.1 hrest
  obtain ⟨hkeywordSlot, hkeywordKind, -⟩ := admits_token.1 hkeyword
  have hmodifiers := of_mem_modifiers hfronts
  have hbare : At source (start + front.margin.text.length) (front.marks.flatMap Mark.text ++
      ("case ".toList ++ commaText ((first :: rest).map Element.text))) := hat.right
  have helements := hbare.right.right
  rw [← Front.add_length_text] at helements
  have hlifted := elements_lifted hascii helements hnodes
  obtain ⟨hattributes, hmodified⟩ := @front_lifted source node _ hascii _ front.marks false fronts _
    (by simpa [staticText] using hbare.left) hfronts
    (List.forall_mem_cons.2 ⟨by simp [hkeywordKind], hlifted.kinds⟩) hchildren
  have hfields : ∀ field ∈ caseFields, node.childrenOf field =
      nodes.filter (·.field == some field) := by
    intro field hfield
    rw [childrenOf, hchildren, List.filter_append,
      filter_outside hfield fun item hitem => (hmodifiers item hitem).2,
      filter_cons_outside hfield hkeywordSlot, List.nil_append]
  have hlength : start + front.text.length + 5 +
      (commaText ((first :: rest).map Element.text)).length ≤ node.endByte := by
    rw [hstop, Node.bare, Front.add_length_text]
    simp
    omega
  have hgroup := @ElementsLifted.elements_eq _ _ _ _ hlifted _ [] (by simp) hlength
  rw [member?_of_not_isType (by simp [isType, hkind]), plainMember?, if_neg (by simp [hkind]),
    if_pos (by simp [hkind]), toCaseGroup, hattributes, hmodified, hfields _ (by decide),
    hfields _ (by decide), hfields _ (by decide), hlifted.values_eq, ← List.nil_append
      (nodes.filter (·.field == some "data_contents")), hgroup, start_ascii hascii,
    stop_ascii hascii, hstart, hstop, Node.placed, Node.text, List.length_append, ← Nat.add_assoc]
  rfl

/-! ## Initializers -/

/-- The names of a parameter stand before its colon. -/
theorem names_lifted {names : ParamNames} {nodes rest : List SyntaxNode} {colon : SyntaxNode}
    (hat : At source start names.text)
    (h : admitsAll source (names.patterns start) nodes = true) (hcolon : colon.kind = ":") :
    ((before ":" (nodes ++ colon :: rest)).filter (!·.isTrivia)).map (text source) =
        names.first :: names.second?.toList ∧
      after ":" (nodes ++ colon :: rest) = rest := by
  cases names with
  | plain name =>
      simp only [ParamNames.patterns, admitsAll_singleton, admits_plain] at h
      obtain ⟨only, rfl, hkind, hnamed, hfirst, hlast, -⟩ := h
      rw [ParamNames.text] at hat
      have htext := text_ascii hascii hat hfirst hlast
      simp only [markerKinds, List.mem_cons, not_or] at hkind
      simp [before, after, hkind, hcolon, hnamed, isTrivia, htext, ParamNames.first,
        ParamNames.second?]
  | labelled label name =>
      simp only [ParamNames.patterns, admitsAll_cons, admitsAll_nil, admits_plain] at h
      obtain ⟨outer, _, rfl, ⟨houter, houterName, houterFirst, houterLast, -⟩, inner, _, rfl,
        ⟨hkind, hnamed, hfirst, hlast, -⟩, rfl⟩ := h
      rw [ParamNames.text] at hat
      have hlabel := text_ascii hascii hat.left houterFirst houterLast
      have htext := text_ascii hascii hat.right.tail hfirst hlast
      simp only [markerKinds, List.mem_cons, not_or] at houter hkind
      simp [before, after, houter, houterName, hkind, hcolon, hnamed, isTrivia, hlabel, htext,
        ParamNames.first, ParamNames.second?]
  | unlabelled name =>
      simp only [ParamNames.patterns, admitsAll_cons, admitsAll_nil, admits_plain, admits,
        Spot.admits, Label.admits, Bool.and_eq_true, Option.all_some, beq_iff_eq] at h
      obtain ⟨outer, _, rfl, ⟨⟨-, houter, hwildcard⟩, ⟨houterFirst, houterLast⟩, -⟩, inner, _, rfl,
        ⟨hkind, hnamed, hfirst, hlast, -⟩, rfl⟩ := h
      rw [ParamNames.text] at hat
      have hlabel := @text_ascii source ['_'] outer hascii start
        (@At.left source ['_'] _ _ hat) houterFirst houterLast
      have htext := text_ascii hascii hat.tail.tail hfirst hlast
      have houter : outer.kind ∉ markerKinds := by simpa using houter
      simp only [markerKinds, List.mem_cons, not_or] at houter hkind
      simp [before, after, houter, hwildcard, hkind, hcolon, hnamed, isTrivia, hlabel, htext,
        ParamNames.first, ParamNames.second?]

omit hascii in
theorem Ty.not_isSuffixOf_dots (type : Ty) : dots.isSuffixOf type.text = false := by
  obtain ⟨front, c, htext, hc⟩ := type.exists_last
  have hdot : c ≠ '.' := by
    rintro rfl
    exact absurd hc (by decide)
  rw [Bool.eq_false_iff, ne_eq, List.isSuffixOf_iff_suffix, htext]
  rintro ⟨lead, hlead⟩
  have hlast := congrArg List.getLast? hlead
  rw [List.getLast?_concat] at hlast
  exact hdot (by simpa [dots] using hlast.symm)

/-- A parameter is lifted with its names and its type.  What follows it are no dots. -/
theorem toParameter_eq {param : Param} {c : Char} {rest : List Char}
    (hat : At source start (param.text ++ c :: rest)) (hc : c ∈ [',', ')'])
    (h : (param.pattern start).admits source node = true) :
    node.toParameter source none = param.parameter := by
  obtain ⟨-, -, -, hstart, hstop, -, hadmits⟩ := admits_node.1 h
  obtain ⟨names, _, hchildren, hnames, hrest⟩ := admitsAll_append.1 hadmits
  simp only [admitsAll_cons, admitsAll_nil, admits_token, admits_plain] at hrest
  obtain ⟨colon, _, rfl, ⟨-, hcolon, -⟩, type, _, rfl, ⟨hkind, -, hfirst, -⟩, rfl⟩ := hrest
  have hparam := hat.left
  rw [Param.text] at hparam
  obtain ⟨hbefore, hafter⟩ := @names_lifted source _ hascii param.names names [type] colon
    hparam.left
    hnames hcolon
  have htype := hparam.right.tail.tail.slice_eq
  have hbehind : (Text.Utf8.encode dots).isPrefixOf (((Text.Utf8.encode source).drop
      node.endByte).dropWhile fun byte => byte == 32 || byte == 9) = false := by
    obtain ⟨bytes, hbytes⟩ := hat.right.drop_encode hascii
    rw [hstop, hbytes]
    rcases List.mem_pair.1 hc with rfl | rfl <;> rfl
  have hhead : ((before ":" node.children).filter (!·.isTrivia)).head?.map (text source) =
      some param.names.first := by
    rw [← List.head?_map, hchildren, hbefore, List.head?_cons]
  have hsecond : ((before ":" node.children).filter (!·.isTrivia))[1]?.map (text source) =
      param.names.second? := by
    rw [← List.getElem?_map, hchildren, hbefore]
    cases param.names.second? <;> rfl
  have hwritten : (after ":" node.children).find? (!·.isTrivia) = some type := by
    simp only [markerKinds, List.mem_cons, not_or] at hkind
    simp [hchildren, hafter, isTrivia, hkind]
  have hspan : slice source (type.start source) (node.stop source) = param.type.text := by
    have hlength : param.text.length =
        param.names.text.length + 1 + 1 + param.type.text.length := by
      simp [Param.text]
      omega
    rw [start_ascii hascii, stop_ascii hascii, hfirst, hstop, hlength]
    simpa only [Nat.add_assoc] using htype
  simp only [toParameter, hhead, hsecond, hwritten, hspan, hbehind, param.type.trim_text,
    param.type.not_isSuffixOf_dots]
  rfl

/-- The nodes of a parameter clause before its last parenthesis. -/
structure ParamsLifted (source : List Char) (params : List Param) (nodes : List SyntaxNode) :
    Prop where
  fields : ∀ item ∈ nodes, (Slot.outside initializerFields).admits item.field = true
  kinds : ∀ item ∈ nodes, item.kind ≠ "modifiers"
  parameters_eq : ∀ stop : Nat,
    parameters source [] stop ((nodes.filter (·.isNamed)).filter (·.kind == "parameter")) =
      params.map Param.parameter

/-- The nodes of a parameter list are lifted to its parameters, in order. -/
theorem params_lifted {params : List Param} {nodes : List SyntaxNode} {rest : List Char}
    (hat : At source start (commaText (params.map Param.text) ++ ')' :: rest))
    (h : admitsAll source (separated (.outside initializerFields)
      (fun start param => [Param.pattern start param]) (·.text.length) start params) nodes = true) :
    ParamsLifted source params nodes := by
  induction params generalizing start nodes with
  | nil =>
      rw [separated, admitsAll_nil] at h
      subst h
      constructor <;> simp [parameters]
  | cons param others ih =>
      cases others with
      | nil =>
          rw [separated, admitsAll_singleton] at h
          obtain ⟨only, rfl, honly⟩ := h
          have hlifted := @toParameter_eq source only start hascii param ')' rest
            (by simpa [commaText] using hat) (by simp) honly
          obtain ⟨hfield, hkind, hnamed, -⟩ := admits_node.1 honly
          constructor <;> simp [hfield, hkind, hnamed, parameters, between?, hlifted]
      | cons next others =>
          rw [separated, admitsAll_append] at h
          obtain ⟨_, _, rfl, hown, hmore⟩ := h
          obtain ⟨first, rfl, hfirst⟩ := admitsAll_singleton.1 hown
          obtain ⟨comma, more, rfl, hcomma, hmore⟩ := admitsAll_cons.1 hmore
          rw [List.map_cons, List.map_cons, commaText_cons_cons, List.append_assoc] at hat
          have hlifted := toParameter_eq hascii hat (by simp) hfirst
          have hrest := ih hat.right.tail.tail hmore
          obtain ⟨hfield, hkind, hnamed, -⟩ := admits_node.1 hfirst
          obtain ⟨hcommaField, hcommaKind, hcommaNamed, -⟩ := admits_token.1 hcomma
          refine ⟨?_, ?_, fun stop => ?_⟩
          · simpa [hfield, hcommaField] using hrest.fields
          · simpa [hkind, hcommaKind] using hrest.kinds
          · have hnames : ((([first] ++ comma :: more).filter (·.isNamed)).filter
                (·.kind == "parameter")) =
                first :: ((more.filter (·.isNamed)).filter (·.kind == "parameter")) := by
              simp [hkind, hnamed, hcommaNamed]
            rw [hnames, parameters, hrest.parameters_eq]
            simp [between?, hlifted]

omit hascii in
theorem find?_outside {fields : List String} {field : String} {front rest : List SyntaxNode}
    (hfield : field ∈ fields)
    (h : ∀ item ∈ front, (Slot.outside fields).admits item.field = true) :
    (front ++ rest).find? (·.field == some field) = rest.find? (·.field == some field) := by
  have hnone : front.find? (·.field == some field) = none := by
    rw [List.find?_eq_none]
    intro item hitem
    rw [field_outside hfield (h item hitem)]
    exact Bool.false_ne_true
  rw [List.find?_append, hnone, Option.none_or]

/-- An initializer is its keyword and its clause. -/
theorem exists_clause {params : List Param} {inside more : List Char} {nodes : List SyntaxNode}
    (hat : At source start ("init(".toList ++ (commaText (params.map Param.text) ++ ')' :: more)))
    (h : admitsAll source (initializerPatterns start params inside) nodes = true) :
    ∃ keyword clause, nodes = keyword :: clause ∧
      (token (.filling "name") "init" start).admits source keyword = true ∧
      ParamsLifted source params clause := by
  obtain ⟨keyword, _, rfl, hkeyword, hrest⟩ := admitsAll_cons.1 h
  obtain ⟨opening, _, rfl, hopening, hrest⟩ := admitsAll_cons.1 hrest
  obtain ⟨inner, _, rfl, hinner, hrest⟩ := admitsAll_append.1 hrest
  obtain ⟨closing, _, rfl, hclosing, hrest⟩ := admitsAll_cons.1 hrest
  obtain ⟨block, rfl, hblock⟩ := admitsAll_singleton.1 hrest
  have hlifted := params_lifted hascii hat.right hinner
  obtain ⟨hopeningField, hopeningKind, hopeningNamed, -⟩ := admits_token.1 hopening
  obtain ⟨hclosingField, hclosingKind, hclosingNamed, -⟩ := admits_token.1 hclosing
  obtain ⟨hblockField, hblockKind, hblockNamed, -⟩ := admits_named.1 hblock
  refine ⟨keyword, _, rfl, hkeyword, ?_, ?_, fun stop => ?_⟩
  · simpa [List.forall_mem_append, hopeningField, hclosingField, hblockField, or_imp, forall_and]
      using hlifted.fields
  · simpa [List.forall_mem_append, hopeningKind, hclosingKind, hblockKind, or_imp, forall_and]
      using hlifted.kinds
  · rw [← hlifted.parameters_eq stop]
    simp [hopeningNamed, hclosingNamed, hblockNamed, hblockKind]

/-- The node of an initializer is lifted to its parameters. -/
theorem member?_initializer {front : Front} {params : List Param} {inside : Option Break}
    (hat : At source start (Node.initializer front params inside).text)
    (h : ((Node.initializer front params inside).pattern start).admits source node = true) :
    member? source node =
      .ok (some ((Node.initializer front params inside).placed source start)) := by
  rw [Node.pattern, admits_node] at h
  obtain ⟨-, hkind, -, hstart, hstop, -, hadmits⟩ := h
  obtain ⟨fronts, _, hchildren, hfronts, hrest⟩ := admitsAll_append.1 hadmits
  have hbare : At source (start + front.margin.text.length) (front.marks.flatMap Mark.text ++
      ("init(".toList ++ (commaText (params.map Param.text) ++ ')' :: (" \x7b".toList ++
        ((inside.map Break.text).getD [] ++ ['\x7d']))))) := hat.right
  have hwords := hbare.right
  rw [← Front.add_length_text] at hwords
  obtain ⟨keyword, clause, rfl, hkeyword, hlifted⟩ := exists_clause hascii hwords hrest
  obtain ⟨hfield, hkeywordKind, hkeywordNamed, -, hkeywordStop, -⟩ := admits_token.1 hkeyword
  rw [Slot.admits, beq_iff_eq] at hfield
  have hmodifiers := of_mem_modifiers hfronts
  have houtside : ∀ item ∈ fronts, (Slot.outside initializerFields).admits item.field = true :=
    fun item hitem => (hmodifiers item hitem).2
  obtain ⟨hattributes, hmodified⟩ := @front_lifted source node _ hascii _ front.marks false fronts _
    (by simpa [staticText] using hbare.left) hfronts
    (List.forall_mem_cons.2 ⟨by simp [hkeywordKind], hlifted.kinds⟩) hchildren
  have hdefaults : node.childrenOf "default_value" = [] := by
    rw [childrenOf, hchildren, List.filter_append, filter_outside (by decide) houtside,
      List.filter_cons_of_neg (by simp [hfield]), filter_outside (by decide) hlifted.fields,
      List.append_nil]
  have hparameters : node.namedChildren.filter (·.kind == "parameter") =
      (clause.filter (·.isNamed)).filter (·.kind == "parameter") := by
    have hnone : (fronts.filter (·.isNamed)).filter (·.kind == "parameter") = [] :=
      List.filter_eq_nil_iff.2 fun item hitem => by
        simp [(hmodifiers item (List.mem_filter.1 hitem).1).1]
    rw [namedChildren, hchildren, List.filter_append, List.filter_append, hnone,
      List.filter_cons_of_neg (by simp [hkeywordNamed]), List.nil_append]
  have hname : node.child? "name" = some keyword := by
    rw [child?, hchildren, find?_outside (by decide) houtside,
      List.find?_cons_of_pos (by simp [hfield])]
  have hbyte : (Text.Utf8.encode source)[keyword.endByte]? = some 40 := by
    obtain ⟨bytes, hbytes⟩ := @At.drop_encode source _ _ '(' hascii
      (@At.right source "init".toList _ _ hwords)
    rw [← List.head?_drop, hkeywordStop, hbytes]
    rfl
  rw [member?_of_not_isType (by simp [isType, hkind]), plainMember?, if_neg (by simp [hkind]),
    if_neg (by simp [hkind]), if_pos (by simp [hkind]), toInitializer, hattributes, hmodified,
    hdefaults, hparameters, hlifted.parameters_eq, hname, start_ascii hascii, stop_ascii hascii,
    hstart, hstop, Node.placed, Node.text, List.length_append, ← Nat.add_assoc]
  simp only [hbyte]
  rfl

end Lift

end Outline

end Fakery
