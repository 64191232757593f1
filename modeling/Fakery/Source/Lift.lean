import Fakery.Source.Declaration
import Fakery.Source.Syntax
import Fakery.Text.Lines

/-!
# Declarations in a syntax tree

What a declaration is made of is lifted out of its node: names, attributes, types and values
are the text of nodes, and their places are counted in characters.  Members that need no
interpretation keep their place only.
-/

namespace Fakery

open Text (slice)

namespace SyntaxNode

variable (source : List Char)

/-! ## Places and texts -/

/-- The character offset of a byte offset.  No node has a place behind the text. -/
def charOf (byte : Nat) : Nat :=
  (Text.Utf8.charOffset? source byte).getD source.length

def start (node : SyntaxNode) : Nat :=
  charOf source node.startByte

def stop (node : SyntaxNode) : Nat :=
  charOf source node.endByte

def text (node : SyntaxNode) : String :=
  String.ofList ((Text.Utf8.textBetween? source node.startByte node.endByte).getD [])

/-- The text from the first to the last node that is no comment. -/
def spanText (nodes : List SyntaxNode) : String :=
  match nodes.filter (!·.isTrivia) with
  | [] => ""
  | first :: rest =>
    String.ofList (slice source (first.start source) ((rest.getLast?.getD first).stop source))

/-! ## Lists of children -/

/-- The nodes between commas up to a closing token.  `current` is the piece that is being
read; a list that is never closed loses it. -/
def piecesUpTo (closer : String) : (current : List SyntaxNode) → List SyntaxNode →
    List (List SyntaxNode)
  | _, [] => []
  | current, child :: rest =>
    if child.kind == closer then [current]
    else if child.kind == "," then current :: piecesUpTo closer [] rest
    else piecesUpTo closer (current ++ [child]) rest

/-- The pieces between the first opening token and the closing token behind it, cut at
commas. -/
def splitOnCommas (opener closer : String) : List SyntaxNode → List (List SyntaxNode)
  | [] => []
  | child :: rest =>
    if child.kind == opener then piecesUpTo closer [] rest else splitOnCommas opener closer rest

def before (token : String) (nodes : List SyntaxNode) : List SyntaxNode :=
  (nodes.takeWhile (·.kind != token)).filter fun node => node.isNamed || node.kind == "_"

/-- What stands behind a token. -/
def after (token : String) (nodes : List SyntaxNode) : List SyntaxNode :=
  (nodes.dropWhile (·.kind != token)).drop 1

/-- Whether a node has the place of one of some others. -/
def isOneOf (candidates : List SyntaxNode) (node : SyntaxNode) : Bool :=
  candidates.any fun other => other.startByte == node.startByte && other.endByte == node.endByte

/-- The first node that begins between two offsets. -/
def between? (nodes : List SyntaxNode) (start stop : Nat) : Option SyntaxNode :=
  nodes.find? fun node => start ≤ node.startByte && node.startByte < stop

/-! ## Attributes and modifiers -/

def toAttribute (node : SyntaxNode) : Attribute where
  name := ((node.namedChildren.find? (·.kind == "user_type")).map (text source)).getD ""
  arguments :=
    if node.children.any (·.kind == "(") then
      some (((splitOnCommas "(" ")" node.children).filter (!·.isEmpty)).map (spanText source))
    else none
  start := node.start source
  stop := node.stop source

/-- The nodes that stand before the keyword of a declaration. -/
def modifierNodes (node : SyntaxNode) : List SyntaxNode :=
  (node.children.filter (·.kind == "modifiers")).flatMap namedChildren

def attributes (node : SyntaxNode) : List Attribute :=
  (node.modifierNodes.filter (·.kind == "attribute")).map (toAttribute source)

def modifiers (node : SyntaxNode) : List String :=
  (node.modifierNodes.filter fun item => item.kind != "attribute" && !item.isTrivia).map
    (text source)

/-! ## Properties -/

/-- Accessors and observers by the kind of their nodes. -/
def accessorName? (kind : String) : Option String :=
  [("computed_getter", "get"), ("computed_setter", "set"), ("computed_modify", "_modify"),
    ("willset_clause", "willSet"), ("didset_clause", "didSet")].lookup kind

def accessor (node : SyntaxNode) : AccessorBlock :=
  let specifiers := node.namedChildren.filterMap fun child => accessorName? child.kind
  if node.kind == "computed_property" && specifiers.isEmpty then .getter
  else .accessors specifiers

/-- The type in an annotation: from behind the colon to the end of the node. -/
def annotatedType? (node : SyntaxNode) : Option String :=
  ((after ":" node.children).find? (!·.isTrivia)).map fun first =>
    Text.trimmed (String.ofList (slice source (first.start source) (node.stop source)))

/-- What one node says about a binding. -/
def refine (values : List SyntaxNode) (binding : Binding) (node : SyntaxNode) : Binding :=
  if node.kind == "type_annotation" then
    { binding with typeText := (annotatedType? source node).or binding.typeText }
  else if node.kind == "computed_property" || node.kind == "willset_didset_block" then
    { binding with accessor := some node.accessor }
  else if isOneOf values node then { binding with initializer := some (node.text source) }
  else binding

/-- The nodes behind a pattern that say something about it. -/
def detailsOf (values : List SyntaxNode) (nodes : List SyntaxNode) : List SyntaxNode :=
  (nodes.takeWhile (·.kind != "pattern")).filter fun node =>
    node.kind != "value_binding_pattern" && !node.isTrivia && (node.isNamed || isOneOf values node)

def bindings (values : List SyntaxNode) : List SyntaxNode → List Binding
  | [] => []
  | node :: rest =>
    if node.kind == "pattern" then
      (detailsOf values rest).foldl (refine source values) { pattern := node.text source }
        :: bindings values rest
    else bindings values rest

def toProperty (node : SyntaxNode) : Property where
  attributes := node.attributes source
  modifiers := node.modifiers source
  specifier :=
    (((node.children.filter (·.kind == "value_binding_pattern")).getLast?).map
      (text source)).getD ""
  bindings := bindings source (node.childrenOf "value") node.children
  start := node.start source
  stop := node.stop source

/-! ## Cases -/

/-- An associated value; a piece of comments only is none. -/
def caseParameter? (piece : List SyntaxNode) : Option CaseParameter :=
  let named := piece.filter fun node => node.isNamed && !node.isTrivia
  if named.isEmpty then none
  else if piece.any (·.kind == ":") then
    let first := ((before ":" piece).head?.map (text source)).getD "_"
    let typed := (after ":" piece).filter (·.isNamed)
    some ⟨if first == "_" then none else some first, (typed.head?.map (text source)).getD ""⟩
  else some ⟨none, (named.head?.map (text source)).getD ""⟩

def caseParameters (node : SyntaxNode) : List CaseParameter :=
  (splitOnCommas "(" ")" node.children).filterMap (caseParameter? source)

/-- The elements of a case line with these names.  What stands between a name and the next
one belongs to it; `stop` is the end of the line. -/
def caseElements (contents values : List SyntaxNode) (stop : Nat) :
    List SyntaxNode → List CaseElement
  | [] => []
  | name :: rest =>
    let limit := (rest.head?.map (·.startByte)).getD stop
    { name := name.text source
      parameters := (between? contents name.endByte limit).map (caseParameters source)
      rawValue := (between? values name.endByte limit).map (text source) }
      :: caseElements contents values stop rest

def toCaseGroup (node : SyntaxNode) : CaseGroup where
  attributes := node.attributes source
  modifiers := node.modifiers source
  elements :=
    caseElements source (node.childrenOf "data_contents") (node.childrenOf "raw_value")
      node.endByte (node.childrenOf "name")
  start := node.start source
  stop := node.stop source

/-! ## Initializers -/

def dots : List Char := ['.', '.', '.']

/-- A parameter.  The three dots of a variadic one may stand inside of its node or behind
it. -/
def toParameter (node : SyntaxNode) (default : Option SyntaxNode) : Parameter :=
  let names := (before ":" node.children).filter (!·.isTrivia)
  let type :=
    match (after ":" node.children).find? (!·.isTrivia) with
    | some first => Text.trim (slice source (first.start source) (node.stop source))
    | none => []
  let behind := ((Text.Utf8.encode source).drop node.endByte).dropWhile fun byte =>
    byte == 32 || byte == 9
  let endsInDots := dots.isSuffixOf type
  { firstName := (names.head?.map (text source)).getD ""
    secondName := (names[1]?).map (text source)
    typeText := String.ofList
      (if endsInDots then Text.trimRight (type.take (type.length - 3)) else type)
    defaultValue := default.map (text source)
    variadic := endsInDots || (Text.Utf8.encode dots).isPrefixOf behind }

/-- The parameters with these nodes.  A default value between a parameter and the next one
belongs to it; `stop` is the end of the initializer. -/
def parameters (defaults : List SyntaxNode) (stop : Nat) : List SyntaxNode → List Parameter
  | [] => []
  | node :: rest =>
    let limit := (rest.head?.map (·.startByte)).getD stop
    node.toParameter source (between? defaults node.endByte limit)
      :: parameters defaults stop rest

def toInitializer (node : SyntaxNode) : Initializer where
  attributes := node.attributes source
  modifiers := node.modifiers source
  parameters :=
    parameters source (node.childrenOf "default_value") node.endByte
      (node.namedChildren.filter (·.kind == "parameter"))
  start := node.start source
  stop := node.stop source
  failable :=
    match node.child? "name" with
    | some keyword =>
      ((Text.Utf8.encode source)[keyword.endByte]?).any fun byte =>
        byte == '?'.toUInt8 || byte == '!'.toUInt8
    | none => false

/-! ## Other members -/

/-- The keyword of a member that is only passed over. -/
def otherKeyword (kind : String) : String :=
  ([("typealias_declaration", "typealias"), ("function_declaration", "func"),
    ("protocol_function_declaration", "func"), ("protocol_property_declaration", "var"),
    ("subscript_declaration", "subscript"), ("deinit_declaration", "deinit"),
    ("associatedtype_declaration", "associatedtype"), ("import_declaration", "import"),
    ("operator_declaration", "operator"), ("precedence_group_declaration", "precedencegroup"),
    ("macro_declaration", "macro")].lookup kind).getD kind

def isType (node : SyntaxNode) : Bool :=
  ["class_declaration", "protocol_declaration"].contains node.kind

/-- Where the last token of a body begins. -/
def lastStart (body : SyntaxNode) : Nat :=
  (body.children.getLast?.map (start source)).getD source.length

/-- The header of a type declaration with this keyword and this body. -/
def header (node keyword body : SyntaxNode) : Header where
  keyword := keyword.text source
  name := ((node.child? "name").map (text source)).getD ""
  attributes := node.attributes source
  modifiers := node.modifiers source
  inherited := (node.namedChildren.filter (·.kind == "inheritance_specifier")).map (text source)
  start := node.start source
  keywordStart := keyword.start source
  bodyStart := body.start source
  bodyEnd := body.lastStart source
  line := keyword.startPoint.row + 1

end SyntaxNode

/-! ## Blocks -/

/-- What stands in a block: directives and members. -/
inductive Item where
  | directive (text : List Char)
  | member (member : Member)

/-- Splits the items of a block into its direct members and those inside `depth` or
more conditional sections. -/
def separate : (depth : Nat) → List Item → List Member × List Member
  | _, [] => ([], [])
  | depth, .directive text :: rest =>
    if "#if".toList.isPrefixOf text then separate (depth + 1) rest
    else if "#endif".toList.isPrefixOf text then separate (depth - 1) rest
    else separate depth rest
  | depth, .member m :: rest =>
    let (direct, conditional) := separate depth rest
    if depth == 0 then (m :: direct, conditional) else (direct, m :: conditional)

/-- Why a text is not read: a message and the place it is about, counted from one. -/
structure SyntaxError where
  message : String
  line : Nat
  column : Nat
  deriving DecidableEq, Repr

namespace SyntaxError

def ofPoint (message : String) (point : Point) : SyntaxError :=
  ⟨message, point.row + 1, point.column + 1⟩

def text (error : SyntaxError) : String :=
  s!"{error.message} (line {error.line}, column {error.column})"

end SyntaxError

namespace SyntaxNode

def plainMember? (source : List Char) (node : SyntaxNode) : Option Member :=
  if node.kind == "property_declaration" then some (.property (node.toProperty source))
  else if node.kind == "enum_entry" then some (.cases (node.toCaseGroup source))
  else if node.kind == "init_declaration" then some (.initializer (node.toInitializer source))
  else if node.kind == "statements" then none
  else some (.other ⟨otherKeyword node.kind, node.start source, node.stop source⟩)

mutual

def member? (source : List Char) : SyntaxNode → Except SyntaxError (Option Member)
  | node@⟨_, _, _, _, _, _, _, children⟩ =>
    if node.isType then
      match node.child? "declaration_kind", bodyItems? source children with
      | some keyword, some (body, items) => do
        let (direct, conditional) := separate 0 (← items)
        return some (.type (header source node keyword body) direct conditional)
      | _, _ => throw (.ofPoint "Incomplete type declaration" node.startPoint)
    else return node.plainMember? source

/-- The body among the children of a type declaration, with what stands in it. -/
def bodyItems? (source : List Char) :
    List SyntaxNode → Option (SyntaxNode × Except SyntaxError (List Item))
  | [] => none
  | child :: rest =>
    if child.field == some "body" then some (child, child.innerItems source)
    else bodyItems? source rest

def innerItems (source : List Char) : SyntaxNode → Except SyntaxError (List Item)
  | ⟨_, _, _, _, _, _, _, children⟩ => items source children

/-- The items among nodes.  Tokens and comments are none. -/
def items (source : List Char) : List SyntaxNode → Except SyntaxError (List Item)
  | [] => return []
  | child :: rest =>
    if !child.isNamed || child.isTrivia then items source rest
    else if child.kind == "directive" then
      return .directive (child.text source).toList :: (← items source rest)
    else do
      let found ← child.member? source
      return found.toList.map .member ++ (← items source rest)

end

/-- What is said about a node that is an error or missing. -/
def syntaxError (source : List Char) (node : SyntaxNode) : SyntaxError :=
  if node.isMissing then .ofPoint s!"Expected '{node.kind}'" node.startPoint
  else
    let lines := Text.bareLines (Text.trim (node.text source).toList)
    let shown := String.ofList ((lines.head?.getD []).take 40)
    .ofPoint s!"Unexpected '{shown}'" node.startPoint

def firstSyntaxError (source : List Char) (root : SyntaxNode) : SyntaxError :=
  match root.firstError? with
  | none => .ofPoint "Unparseable Swift source" root.startPoint
  | some node => node.syntaxError source

end SyntaxNode

end Fakery
