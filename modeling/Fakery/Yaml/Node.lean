import Fakery.Yaml.Tag
import Fakery.Yaml.Token

/-!
# Nodes of a YAML document

The tree of a document with every tag spelled out.  Anchored nodes carry their
name, and an alias names the node it stands for, which may be around it.
-/

namespace Fakery.Yaml

inductive Node where
  | scalar (tag text : String)
  | sequence (tag : String) (items : List Node)
  | mapping (tag : String) (entries : List (Node × Node))
  | anchored (name : String) (node : Node)
  | alias (name : String)
  deriving Inhabited, Repr

def emptyNode : Node :=
  .scalar (coreTag "null") ""

/-- What is left of the tokens, and the anchors seen so far. -/
structure Reading where
  tokens : List Token
  anchors : List String := []

abbrev Reader := StateT Reading (Except Fault)

namespace Reader

def fail {α : Type} : Reader α :=
  fun _ => .error .malformed

def peek : Reader (Option Token) := do
  return (← get).tokens.head?

def next : Reader Unit :=
  modify fun reading => { reading with tokens := reading.tokens.drop 1 }

/-- Whether the next token is one of the given ones. -/
def at? (tokens : List Token) : Reader Bool := do
  match ← peek with
  | some token => return tokens.contains token
  | none => return false

/-- Notes an anchor; a name may be used once. -/
def note (name : String) : Reader Unit := do
  let reading ← get
  if reading.anchors.contains name then fail
  else set { reading with anchors := name :: reading.anchors }

end Reader

/-- What stands before the content of a node. -/
structure Properties where
  anchor : Option String := none
  tag : Option WrittenTag := none

/-- An anchor and a tag, in either order. -/
def readProperties : Reader Properties := do
  match ← Reader.peek with
  | some (.anchor name) =>
    Reader.next
    match ← Reader.peek with
    | some (.tag tag) =>
      Reader.next
      return ⟨some name, some tag⟩
    | _ => return ⟨some name, none⟩
  | some (.tag tag) =>
    Reader.next
    match ← Reader.peek with
    | some (.anchor name) =>
      Reader.next
      return ⟨some name, some tag⟩
    | _ => return ⟨none, some tag⟩
  | _ => return {}

def expandTag (handles : List (String × String)) (tag : WrittenTag) : Reader String :=
  match tag.handle with
  | none => return tag.name
  | some handle =>
    match handles.lookup handle with
    | some expansion => return expansion ++ tag.name
    | none => Reader.fail

/-- The tag of a collection: the written one, unless it is missing or a lone
exclamation mark. -/
def collectionTag (tag : Option String) (standard : String) : String :=
  match tag with
  | none => coreTag standard
  | some tag => if tag == "!" then coreTag standard else tag

/-- The tag of a scalar: the written one, or the one its spelling shows.  Quoted text
without a tag is text. -/
def scalarTag (tag : Option String) (plain : Bool) (text : String) : String :=
  match tag with
  | none => if plain then implicitTag text else coreTag "str"
  | some tag => if tag == "!" then implicitTag text else tag

def withAnchor (anchor : Option String) (node : Node) : Node :=
  match anchor with
  | some name => .anchored name node
  | none => node

/-- The kinds of place a node can stand in. -/
inductive Place where
  | flow
  | block
  /-- In a block where a sequence need not be indented. -/
  | blockValue
  deriving DecidableEq, Repr

mutual

def readNode (handles : List (String × String)) : (fuel : Nat) → Place → Reader Node
  | 0, _ => Reader.fail
  | fuel + 1, place => do
    match ← Reader.peek with
    | some (.alias name) =>
      Reader.next
      if (← get).anchors.contains name then return .alias name else Reader.fail
    | _ =>
      let properties ← readProperties
      let tag ←
        match properties.tag with
        | some tag => some <$> expandTag handles tag
        | none => pure none
      if let some name := properties.anchor then Reader.note name
      let finish := withAnchor properties.anchor
      match ← Reader.peek with
      | some .blockEntry =>
        if place == .blockValue then
          let items ← readIndentless handles fuel
          return finish (.sequence (collectionTag tag "seq") items)
        else if properties.anchor.isSome || tag.isSome then
          return finish (.scalar (scalarTag tag true "") "")
        else Reader.fail
      | some (.scalar text plain) =>
        Reader.next
        return finish (.scalar (scalarTag tag plain text) text)
      | some .flowSequenceStart =>
        Reader.next
        let items ← readFlowItems handles fuel true
        return finish (.sequence (collectionTag tag "seq") items)
      | some .flowMappingStart =>
        Reader.next
        let entries ← readFlowEntries handles fuel true
        return finish (.mapping (collectionTag tag "map") entries)
      | some .blockSequenceStart =>
        if place == .flow then Reader.fail
        else
          Reader.next
          let items ← readBlockItems handles fuel
          return finish (.sequence (collectionTag tag "seq") items)
      | some .blockMappingStart =>
        if place == .flow then Reader.fail
        else
          Reader.next
          let entries ← readBlockEntries handles fuel
          return finish (.mapping (collectionTag tag "map") entries)
      | _ =>
        if properties.anchor.isSome || tag.isSome then
          return finish (.scalar (scalarTag tag true "") "")
        else Reader.fail

/-- A node, or the empty node if one of the given tokens is next. -/
def readNodeUnless (handles : List (String × String)) :
    (fuel : Nat) → Place → List Token → Reader Node
  | 0, _, _ => Reader.fail
  | fuel + 1, place, stops => do
    if ← Reader.at? stops then return emptyNode else readNode handles fuel place

/-- The items of an indented sequence, with the token that ends it. -/
def readBlockItems (handles : List (String × String)) : (fuel : Nat) → Reader (List Node)
  | 0 => Reader.fail
  | fuel + 1 => do
    match ← Reader.peek with
    | some .blockEntry =>
      Reader.next
      let item ← readNodeUnless handles fuel .block [.blockEntry, .blockEnd]
      return item :: (← readBlockItems handles fuel)
    | some .blockEnd =>
      Reader.next
      return []
    | _ => Reader.fail

/-- The items of a sequence at the indentation of the mapping around it. -/
def readIndentless (handles : List (String × String)) : (fuel : Nat) → Reader (List Node)
  | 0 => Reader.fail
  | fuel + 1 => do
    if ← Reader.at? [.blockEntry] then
      Reader.next
      let item ← readNodeUnless handles fuel .block [.blockEntry, .key, .value, .blockEnd]
      return item :: (← readIndentless handles fuel)
    else return []

def readBlockEntries (handles : List (String × String)) :
    (fuel : Nat) → Reader (List (Node × Node))
  | 0 => Reader.fail
  | fuel + 1 => do
    let key ←
      match ← Reader.peek with
      | some .key =>
        Reader.next
        some <$> readNodeUnless handles fuel .blockValue [.key, .value, .blockEnd]
      | some .blockEnd =>
        Reader.next
        pure none
      | _ => Reader.fail
    match key with
    | none => return []
    | some key =>
      let value ←
        if ← Reader.at? [.value] then do
          Reader.next
          readNodeUnless handles fuel .blockValue [.key, .value, .blockEnd]
        else pure emptyNode
      return (key, value) :: (← readBlockEntries handles fuel)

/-- The value behind a key in a flow collection, if a colon follows. -/
def readFlowValue (handles : List (String × String)) :
    (fuel : Nat) → (stops : List Token) → Reader Node
  | 0, _ => Reader.fail
  | fuel + 1, stops => do
    if ← Reader.at? [.value] then
      Reader.next
      readNodeUnless handles fuel .flow stops
    else return emptyNode

/-- The items of a flow sequence, with the bracket that ends it.  A key makes an item
a mapping of one entry. -/
def readFlowItems (handles : List (String × String)) :
    (fuel : Nat) → (first : Bool) → Reader (List Node)
  | 0, _ => Reader.fail
  | fuel + 1, first => do
    if ← Reader.at? [.flowSequenceEnd] then
      Reader.next
      return []
    else
      if !first then
        if ← Reader.at? [.flowEntry] then Reader.next else Reader.fail
      if ← Reader.at? [.key] then
        Reader.next
        let key ← readNodeUnless handles fuel .flow [.value, .flowEntry, .flowSequenceEnd]
        let value ← readFlowValue handles fuel [.flowEntry, .flowSequenceEnd]
        let item := Node.mapping (coreTag "map") [(key, value)]
        return item :: (← readFlowItems handles fuel false)
      else if ← Reader.at? [.flowSequenceEnd] then
        Reader.next
        return []
      else
        let item ← readNode handles fuel .flow
        return item :: (← readFlowItems handles fuel false)

def readFlowEntries (handles : List (String × String)) :
    (fuel : Nat) → (first : Bool) → Reader (List (Node × Node))
  | 0, _ => Reader.fail
  | fuel + 1, first => do
    if ← Reader.at? [.flowMappingEnd] then
      Reader.next
      return []
    else
      if !first then
        if ← Reader.at? [.flowEntry] then Reader.next else Reader.fail
      if ← Reader.at? [.key] then
        Reader.next
        let key ← readNodeUnless handles fuel .flow [.value, .flowEntry, .flowMappingEnd]
        let value ← readFlowValue handles fuel [.flowEntry, .flowMappingEnd]
        return (key, value) :: (← readFlowEntries handles fuel false)
      else if ← Reader.at? [.flowMappingEnd] then
        Reader.next
        return []
      else
        let key ← readNode handles fuel .flow
        return (key, emptyNode) :: (← readFlowEntries handles fuel false)

end

/-- The tag handles that need no directive. -/
def standardHandles : List (String × String) := [("!", "!"), ("!!", coreTag "")]

/-- The directives before a document: at most one version, which begins with one, and
handles that are defined once. -/
def readDirectives : (fuel : Nat) → (versioned : Bool) → List (String × String) →
    Reader (List (String × String))
  | 0, _, _ => Reader.fail
  | fuel + 1, versioned, handles => do
    match ← Reader.peek with
    | some (.directive directive) =>
      Reader.next
      match directive with
      | .version major _ =>
        if versioned || major != 1 then Reader.fail else readDirectives fuel true handles
      | .tag handle expansion =>
        if (handles.lookup handle).isSome then Reader.fail
        else readDirectives fuel versioned ((handle, expansion) :: handles)
      | .other => readDirectives fuel versioned handles
    | _ => return handles

/-- The only document of a stream; none if the stream is empty. -/
def readDocument (fuel : Nat) : Reader (Option Node) := do
  let root ←
    match ← Reader.peek with
    | none => pure none
    | some token =>
      let explicit :=
        match token with
        | .directive _ => true
        | .documentStart => true
        | _ => false
      if explicit then
        let handles ← readDirectives fuel false []
        if ← Reader.at? [.documentStart] then
          Reader.next
          match ← Reader.peek with
          | none => pure (some emptyNode)
          | some token =>
            let isEmpty :=
              match token with
              | .directive _ => true
              | .documentStart => true
              | .documentEnd => true
              | _ => false
            if isEmpty then pure (some emptyNode)
            else some <$> readNode (handles ++ standardHandles) fuel .block
        else Reader.fail
      else some <$> readNode standardHandles fuel .block
  let reading ← get
  if reading.tokens.all (· == .documentEnd) then return root else Reader.fail

/-- The only document of a text. -/
def Node.ofText? (text : List Char) : Except Fault (Option Node) := do
  let tokens ← Token.scan text
  let fuel := 3 * tokens.length + 8
  let (root, _) ← (readDocument fuel).run { tokens }
  return root

end Fakery.Yaml
