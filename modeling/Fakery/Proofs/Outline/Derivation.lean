import Fakery.Proofs.Outline.Syntax

/-!
# Derivations of outlines

The tree that a grammar of the language gives for the lines of an outline.  A pattern says
what a node has to be: its kind, the field it fills, its place, and the patterns of its
children.  Types, values and functions are nodes whose inside is left open.  A language
derives an outline if the tree of its lines is without errors and matches the patterns of the
outline.
-/

namespace Fakery

/-! ## Patterns of nodes -/

/-- What a field may be. -/
inductive Slot where
  | any
  | filling (field : String)
  | outside (fields : List String)

def Slot.admits : Slot → Option String → Bool
  | .any, _ => true
  | .filling field, found => found == some field
  | .outside fields, found => !found.any fields.contains

/-- Kinds that tell nodes of a list apart. -/
def markerKinds : List String :=
  ["(", ")", ",", ":", "attribute", "comment", "multiline_comment", "diagnostic"]

/-- What a kind may be. -/
inductive Label where
  | token (kind : String)
  | named (kind : String)
  /-- A named node of any kind that does not tell nodes of a list apart. -/
  | plain
  /-- A name, or the token that stands for none. -/
  | wildcard

def Label.admits : Label → (kind : String) → (isNamed : Bool) → Bool
  | .token expected, kind, isNamed => kind == expected && !isNamed
  | .named expected, kind, isNamed => kind == expected && isNamed
  | .plain, kind, isNamed => !markerKinds.contains kind && isNamed
  | .wildcard, kind, isNamed => !markerKinds.contains kind && (isNamed || kind == "_")

/-- What a node has to be apart from its children. -/
structure Spot where
  slot : Slot
  label : Label
  span : Option (Nat × Nat)

/-- A node has its place and the row of that place. -/
def Spot.admits (source : List Char) (spot : Spot) (node : SyntaxNode) : Bool :=
  spot.slot.admits node.field && spot.label.admits node.kind node.isNamed
    && spot.span.all fun (start, stop) => node.startByte == start && node.endByte == stop
      && node.startPoint.row == (source.take start).count '\n'

/-- The pattern of a node, with the patterns of its children unless they are left open. -/
inductive TreePattern where
  | leaf (spot : Spot)
  | inner (spot : Spot) (children : List TreePattern)

namespace TreePattern

def token (slot : Slot) (kind : String) (start : Nat) : TreePattern :=
  .leaf ⟨slot, .token kind, some (start, start + kind.toList.length)⟩

def named (slot : Slot) (kind : String) (start length : Nat) : TreePattern :=
  .leaf ⟨slot, .named kind, some (start, start + length)⟩

def plain (start length : Nat) : TreePattern :=
  .leaf ⟨.any, .plain, some (start, start + length)⟩

def node (slot : Slot) (kind : String) (start length : Nat) (children : List TreePattern) :
    TreePattern :=
  .inner ⟨slot, .named kind, some (start, start + length)⟩ children

mutual

def admits (source : List Char) : TreePattern → SyntaxNode → Bool
  | .leaf spot, node => spot.admits source node
  | .inner spot children, node => spot.admits source node && admitsAll source children node.children

def admitsAll (source : List Char) : List TreePattern → List SyntaxNode → Bool
  | [], nodes => nodes.isEmpty
  | _ :: _, [] => false
  | pattern :: rest, node :: nodes => pattern.admits source node && admitsAll source rest nodes

end

/-- The patterns of items with commas between them. -/
def separated {α : Type} (slot : Slot) (patterns : Nat → α → List TreePattern) (length : α → Nat) :
    (start : Nat) → List α → List TreePattern
  | _, [] => []
  | start, [item] => patterns start item
  | start, item :: next :: rest =>
    patterns start item ++ token slot "," (start + length item)
      :: separated slot patterns length (start + length item + 2) (next :: rest)

/-! ## Nodes that patterns admit -/

section Admits

variable {source : List Char} {node : SyntaxNode} {slot : Slot} {kind : String} {start length : Nat}

theorem admits_token : (token slot kind start).admits source node = true ↔
    slot.admits node.field = true ∧ node.kind = kind ∧ node.isNamed = false ∧
      node.startByte = start ∧ node.endByte = start + kind.toList.length ∧
      node.startPoint.row = (source.take start).count '\n' := by
  simp [token, admits, Spot.admits, Label.admits, and_assoc]

theorem admits_named : (named slot kind start length).admits source node = true ↔
    slot.admits node.field = true ∧ node.kind = kind ∧ node.isNamed = true ∧
      node.startByte = start ∧ node.endByte = start + length ∧
      node.startPoint.row = (source.take start).count '\n' := by
  simp [named, admits, Spot.admits, Label.admits, and_assoc]

theorem admits_plain : (plain start length).admits source node = true ↔
    node.kind ∉ markerKinds ∧ node.isNamed = true ∧ node.startByte = start ∧
      node.endByte = start + length ∧ node.startPoint.row = (source.take start).count '\n' := by
  simp [plain, admits, Spot.admits, Label.admits, Slot.admits, and_assoc]

theorem admits_node {children : List TreePattern} :
    (TreePattern.node slot kind start length children).admits source node = true ↔
    slot.admits node.field = true ∧ node.kind = kind ∧ node.isNamed = true ∧
      node.startByte = start ∧ node.endByte = start + length ∧
      node.startPoint.row = (source.take start).count '\n' ∧
      admitsAll source children node.children = true := by
  simp [TreePattern.node, admits, Spot.admits, Label.admits, and_assoc]

theorem admitsAll_nil {nodes : List SyntaxNode} :
    admitsAll source [] nodes = true ↔ nodes = [] := by
  simp [admitsAll]

theorem admitsAll_cons {pattern : TreePattern} {rest : List TreePattern} {nodes : List SyntaxNode} :
    admitsAll source (pattern :: rest) nodes = true ↔ ∃ node others, nodes = node :: others ∧
      pattern.admits source node = true ∧ admitsAll source rest others = true := by
  cases nodes with
  | nil => simp [admitsAll]
  | cons node others => simp [admitsAll, and_assoc]

theorem admitsAll_append {left right : List TreePattern} {nodes : List SyntaxNode} :
    admitsAll source (left ++ right) nodes = true ↔ ∃ first second, nodes = first ++ second ∧
      admitsAll source left first = true ∧ admitsAll source right second = true := by
  induction left generalizing nodes with
  | nil => simp [admitsAll_nil]
  | cons pattern rest ih =>
      simp only [List.cons_append, admitsAll_cons, ih]
      constructor
      · rintro ⟨node, _, rfl, hnode, first, second, rfl, hfirst, hsecond⟩
        exact ⟨node :: first, second, rfl, ⟨node, first, rfl, hnode, hfirst⟩, hsecond⟩
      · rintro ⟨_, second, rfl, ⟨node, first, rfl, hnode, hfirst⟩, hsecond⟩
        exact ⟨node, _, rfl, hnode, first, second, rfl, hfirst, hsecond⟩

theorem admitsAll_singleton {pattern : TreePattern} {nodes : List SyntaxNode} :
    admitsAll source [pattern] nodes = true ↔ ∃ node, nodes = [node] ∧
      pattern.admits source node = true := by
  simp [admitsAll_cons, admitsAll_nil]

end Admits

end TreePattern

namespace Outline

open TreePattern

/-! ## Attributes and modifiers -/

def Mark.pattern (start : Nat) (mark : Mark) : TreePattern :=
  let stop := start + 1 + mark.name.text.length
  node .any "attribute" start mark.bareText.length
    (token .any "@" start :: named .any "user_type" (start + 1) mark.name.text.length ::
      match mark.argument with
      | none => []
      | some literal => [token .any "(" stop, plain (stop + 1) literal.text.length,
        token .any ")" (stop + 1 + literal.text.length)])

def markPatterns : (start : Nat) → List Mark → List TreePattern
  | _, [] => []
  | start, mark :: rest => mark.pattern start :: markPatterns (start + mark.text.length) rest

def frontPatterns (start : Nat) (marks : List Mark) (isStatic : Bool) : List TreePattern :=
  markPatterns start marks ++
    if isStatic then [plain (start + (marks.flatMap Mark.text).length) 6] else []

/-- The node of attributes and modifiers; there is none without them. -/
def modifiersPattern (slot : Slot) (start : Nat) (marks : List Mark) (isStatic : Bool) :
    List TreePattern :=
  if marks.isEmpty && !isStatic then []
  else [.inner ⟨slot, .named "modifiers", none⟩ (frontPatterns start marks isStatic)]

/-! ## Members -/

def bindingPatterns (start : Nat) (isVariable : Bool) (name : Name) (type : Ty) :
    List TreePattern :=
  let slot := Slot.outside ["value"]
  let width := (specifierOf isVariable).toList.length
  let colon := start + width + 1 + name.text.length
  [named slot "value_binding_pattern" start width,
    named slot "pattern" (start + width + 1) name.text.length,
    node slot "type_annotation" colon (2 + type.text.length)
      [token .any ":" colon, plain (colon + 2) type.text.length]]

/-- Fields that tell the children of a case line apart. -/
def caseFields : List String :=
  ["name", "data_contents", "raw_value"]

def Value.patterns (start : Nat) (value : Value) : List TreePattern :=
  match value.label with
  | none => [plain start value.type.text.length]
  | some label =>
    let colon := start + label.text.length
    [plain start label.text.length, token .any ":" colon,
      plain (colon + 2) value.type.text.length]

/-- The patterns of the associated values of a case in their parentheses. -/
def valuesPatterns (start : Nat) (values : List Value) : List TreePattern :=
  token .any "(" start ::
    (separated .any Value.patterns (·.text.length) (start + 1) values ++
      [token .any ")" (start + 1 + (commaText (values.map Value.text)).length)])

def Element.patterns (start : Nat) (element : Element) : List TreePattern :=
  let stop := start + element.name.text.length
  named (.filling "name") "simple_identifier" start element.name.text.length ::
    match element.values with
    | none => []
    | some values => [node (.filling "data_contents") "enum_type_parameters" stop
      (2 + (commaText (values.map Value.text)).length) (valuesPatterns stop values)]

def casePatterns (start : Nat) (elements : List Element) : List TreePattern :=
  token (.outside caseFields) "case" start ::
    separated (.outside caseFields) Element.patterns (·.text.length) (start + 5) elements

def initializerFields : List String :=
  ["name", "default_value"]

def ParamNames.patterns (start : Nat) : ParamNames → List TreePattern
  | .plain name => [TreePattern.plain start name.text.length]
  | .labelled label name =>
    [TreePattern.plain start label.text.length,
      TreePattern.plain (start + label.text.length + 1) name.text.length]
  | .unlabelled name =>
    [.leaf ⟨.any, .wildcard, some (start, start + 1)⟩,
      TreePattern.plain (start + 2) name.text.length]

def Param.pattern (start : Nat) (param : Param) : TreePattern :=
  let colon := start + param.names.text.length
  node (.outside initializerFields) "parameter" start param.text.length
    (param.names.patterns start ++
      [token .any ":" colon, plain (colon + 2) param.type.text.length])

def initializerPatterns (start : Nat) (params : List Param) (inside : List Char) :
    List TreePattern :=
  let slot := Slot.outside initializerFields
  let close := start + 5 + (commaText (params.map Param.text)).length
  token (.filling "name") "init" start :: token slot "(" (start + 4) ::
    (separated slot (fun start param => [Param.pattern start param]) (·.text.length) (start + 5)
        params ++
      [token slot ")" close, named slot "function_body" (close + 2) (inside.length + 2)])

/-! ## Types -/

def typeFields : List String :=
  ["declaration_kind", "name", "body"]

def inheritancePatterns (start : Nat) : List Name → List TreePattern
  | [] => []
  | first :: rest =>
    token (.outside typeFields) ":" start ::
      separated (.outside typeFields)
        (fun start name =>
          [named (.outside typeFields) "inheritance_specifier" start name.text.length])
        (·.text.length) (start + 2) (first :: rest)

def headPatterns (start : Nat) (keyword : TypeKeyword) (name : Name) (inherited : List Name) :
    List TreePattern :=
  let nameStart := start + keyword.text.length + 1
  token (.filling "declaration_kind") (String.ofList keyword.text) start ::
    named (.filling "name") "type_identifier" nameStart name.text.length ::
      inheritancePatterns (nameStart + name.text.length) inherited

def TypeKeyword.bodyKind : TypeKeyword → String
  | .enumType => "enum_class_body"
  | _ => "class_body"

/-! ## Nodes -/

mutual

/-- The pattern of a node whose text begins at an offset. -/
def Node.pattern (start : Nat) : Node → TreePattern
  | .property front isStatic isVariable name type =>
    let first := start + front.margin.text.length
    let keyword := start + front.text.length + if isStatic then 7 else 0
    node .any "property_declaration" first
      (Node.property front isStatic isVariable name type).bare.length
      (modifiersPattern (.outside ["value"]) first front.marks isStatic ++
        bindingPatterns keyword isVariable name type)
  | .cases front element rest =>
    let first := start + front.margin.text.length
    node .any "enum_entry" first (Node.cases front element rest).bare.length
      (modifiersPattern (.outside caseFields) first front.marks false ++
        casePatterns (start + front.text.length) (element :: rest))
  | .initializer front params inside =>
    let first := start + front.margin.text.length
    node .any "init_declaration" first (Node.initializer front params inside).bare.length
      (modifiersPattern (.outside initializerFields) first front.marks false ++
        initializerPatterns (start + front.text.length) params ((inside.map Break.text).getD []))
  | .function margin function =>
    named .any "function_declaration" (start + margin.text.length) function.text.length
  | .type front keyword name inherited body last =>
    let first := start + front.margin.text.length
    let keywordStart := start + front.text.length
    let bodyStart := keywordStart + (headText keyword name inherited).length + 1
    let inside := (linesOf body).length + last.text.length
    node .any "class_declaration" first
      (Node.type front keyword name inherited body last).bare.length
      (modifiersPattern (.outside typeFields) first front.marks false ++
        (headPatterns keywordStart keyword name inherited ++
          [node (.filling "body") keyword.bodyKind bodyStart (inside + 3)
            (token .any "\x7b" bodyStart :: (patternsOf (bodyStart + 2) body ++
              [token .any "\x7d" (bodyStart + 2 + inside)]))]))

def patternsOf (start : Nat) : List Node → List TreePattern
  | [] => []
  | node :: rest => node.pattern start :: patternsOf (start + node.text.length + 1) rest

end

end Outline

/-- A language gives the lines of an outline the tree of the outline. -/
structure Language.Derives (language : Language) (sheet : List Outline.Node) : Prop where
  hasError_eq : (language.tree (Text.Utf8.encode (Outline.linesOf sheet))).hasError = false
  admitted : TreePattern.admitsAll (Outline.linesOf sheet) (Outline.patternsOf 0 sheet)
    (language.tree (Text.Utf8.encode (Outline.linesOf sheet))).children = true

instance (language : Language) (sheet : List Outline.Node) : Decidable (language.Derives sheet) :=
  decidable_of_iff ((language.tree (Text.Utf8.encode (Outline.linesOf sheet))).hasError = false ∧
      TreePattern.admitsAll (Outline.linesOf sheet) (Outline.patternsOf 0 sheet)
        (language.tree (Text.Utf8.encode (Outline.linesOf sheet))).children = true)
    ⟨fun ⟨herror, hadmitted⟩ => ⟨herror, hadmitted⟩, fun h => ⟨h.hasError_eq, h.admitted⟩⟩

end Fakery
