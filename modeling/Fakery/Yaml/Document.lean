import Fakery.Yaml.Value

/-!
# Values of a YAML document

The value of a node by its tag.  Every scalar of a document has to be a value of
its type, also where nobody asks for it; `Document.check` looks at them level by
level, which decides the fault that is reported first.
-/

namespace Fakery.Yaml

mutual

def Node.anchors : Node → List (String × Node)
  | .scalar _ _ => []
  | .sequence _ items => anchorsOfItems items
  | .mapping _ entries => anchorsOfEntries entries
  | .anchored name node => (name, node) :: node.anchors
  | .alias _ => []

def anchorsOfItems : List Node → List (String × Node)
  | [] => []
  | item :: rest => item.anchors ++ anchorsOfItems rest

def anchorsOfEntries : List (Node × Node) → List (String × Node)
  | [] => []
  | (key, value) :: rest => key.anchors ++ value.anchors ++ anchorsOfEntries rest

end

mutual

def Node.size : Node → Nat
  | .scalar _ _ => 1
  | .sequence _ items => 1 + sizeOfItems items
  | .mapping _ entries => 1 + sizeOfEntries entries
  | .anchored _ node => 1 + node.size
  | .alias _ => 1

def sizeOfItems : List Node → Nat
  | [] => 0
  | item :: rest => item.size + sizeOfItems rest

def sizeOfEntries : List (Node × Node) → Nat
  | [] => 0
  | (key, value) :: rest => key.size + value.size + sizeOfEntries rest

end

mutual

def Node.same : Node → Node → Bool
  | .scalar tag text, .scalar otherTag otherText => tag == otherTag && text == otherText
  | .sequence tag items, .sequence otherTag others => tag == otherTag && sameItems items others
  | .mapping tag entries, .mapping otherTag others => tag == otherTag && sameEntries entries others
  | .anchored name node, .anchored otherName other => name == otherName && node.same other
  | .alias name, .alias otherName => name == otherName
  | _, _ => false

def sameItems : List Node → List Node → Bool
  | [], [] => true
  | item :: rest, other :: others => item.same other && sameItems rest others
  | _, _ => false

def sameEntries : List (Node × Node) → List (Node × Node) → Bool
  | [], [] => true
  | (key, value) :: rest, (otherKey, otherValue) :: others =>
    key.same otherKey && value.same otherValue && sameEntries rest others
  | _, _ => false

end

instance : BEq Node := ⟨Node.same⟩

namespace Node

def tag : Node → String
  | .scalar tag _ => tag
  | .sequence tag _ => tag
  | .mapping tag _ => tag
  | _ => ""

def isMapping : Node → Bool
  | .mapping _ _ => true
  | _ => false

/-- The tags whose values are built after the nodes around them. -/
def collectionTags : List String := ["seq", "map", "set", "omap", "pairs"].map coreTag

def isCollection (node : Node) : Bool :=
  collectionTags.contains node.tag

end Node

/-- A node without anchor and alias, and the name it goes by. -/
abbrev Named := Option String × Node

/-- A document: its root and what its aliases stand for. -/
structure Document where
  root : Node
  anchors : List (String × Node)

namespace Document

def ofRoot (root : Node) : Document :=
  ⟨root, root.anchors⟩

def resolve (document : Document) (node : Node) : Named :=
  match node with
  | .anchored name node => (some name, node)
  | .alias name => (some name, (document.anchors.lookup name).getD emptyNode)
  | _ => (none, node)

def bare (document : Document) (node : Node) : Node :=
  (document.resolve node).2

def fuel (document : Document) : Nat :=
  document.root.size + 1

def isDefault (document : Document) (entry : Node × Node) : Bool :=
  (document.bare entry.1).tag == coreTag "value"

/-- The text of a scalar; a mapping has the text of its entry `=`. -/
def scalarText (document : Document) : (fuel : Nat) → Node → Except Fault String
  | 0, _ => .error .endless
  | fuel + 1, node =>
    match node with
    | .scalar _ text => .ok text
    | .mapping _ entries =>
      match entries.find? document.isDefault with
      | some (_, value) => document.scalarText fuel (document.bare value)
      | none => .error .malformed
    | _ => .error .malformed

/-- The value of a node without anchor and alias.  What is inside a collection is not
looked at. -/
def valueOf (document : Document) (node : Node) : Except Fault Value :=
  match readers.lookup node.tag with
  | some read => do
    let text ← document.scalarText document.fuel node
    if node.tag == coreTag "timestamp" && node.isMapping then .error .mappedTimestamp
    else read text
  | none =>
    if node.tag == coreTag "seq" then
      match node with
      | .sequence _ items => .ok (.sequence items)
      | _ => .ok .collection
    else if node.tag == coreTag "map" then .ok (.mapping node)
    else if node.isCollection then .ok .collection
    else .error .malformed

/-- The value of a mapping's key: the lone `=` is text there. -/
def keyOf (document : Document) (node : Node) : Except Fault Value :=
  if node.tag == coreTag "value" then (document.scalarText document.fuel node).map .text
  else document.valueOf node

/-- The mappings that a merge key names, the last of a list first; none if it names
something else. -/
def mergeSources (document : Document) (value : Node) : Option (List Named) :=
  match document.resolve value with
  | (name, .mapping tag entries) => some [(name, .mapping tag entries)]
  | (_, .sequence _ items) =>
    let sources := items.map document.resolve
    if sources.all (·.2.isMapping) then some sources.reverse else none
  | _ => none

def isMerge (document : Document) (entry : Node × Node) : Bool :=
  (document.bare entry.1).tag == coreTag "merge"

/-- The entries of a mapping with those that its merge keys bring in, which come
first.  `inside` holds the names of the mappings being merged. -/
def entries (document : Document) : (fuel : Nat) → (inside : List String) → Named →
    Except Fault (List (Node × Node))
  | 0, _, _ => .ok []
  | fuel + 1, inside, (name, node) => do
    match node with
    | .mapping _ own =>
      let plain := own.filter fun entry => !document.isMerge entry
      if (name.map inside.contains).getD false then return plain
      else
        let inside := name.toList ++ inside
        let merged ← (own.filter document.isMerge).mapM fun entry =>
          match document.mergeSources entry.2 with
          | none => .error .malformed
          | some sources => do
            let found ← sources.mapM (document.entries fuel inside)
            return found.flatten
        return merged.flatten ++ plain
    | _ => .error .malformed

/-- What is done next when a collection is built. -/
inductive Step where
  /-- Builds a node, which has to be fit for a key if `isKey` is set. -/
  | build (node : Node) (isKey : Bool)
  | refuse

def steps (document : Document) (node : Node) : List Step :=
  if node.tag == coreTag "seq" then
    match node with
    | .sequence _ items => items.map (.build · false)
    | _ => [.refuse]
  else if node.tag == coreTag "map" || node.tag == coreTag "set" then
    match document.entries document.fuel [] (none, node) with
    | .ok found => found.flatMap fun entry => [.build entry.1 true, .build entry.2 false]
    | .error _ => [.refuse]
  else
    match node with
    | .sequence _ items => items.flatMap fun item =>
        match document.bare item with
        | .mapping _ [(key, value)] => [.build key false, .build value false]
        | _ => [.refuse]
    | _ => [.refuse]

def fault? (document : Document) (node : Node) (isKey : Bool) : Option Fault :=
  match if isKey then document.keyOf node else document.valueOf node with
  | .error fault => some fault
  | .ok _ => none

/-- Nodes that are built once: those with a name, and collections. -/
def isKept (named : Named) : Bool :=
  named.1.isSome || named.2.isCollection

/-- Takes steps one by one.  Gives the nodes kept so far and the collections still to be
built. -/
def take (document : Document) : List Step → (built : List Named) →
    Except Fault (List Named × List Node)
  | [], built => .ok (built, [])
  | .refuse :: _, _ => .error .malformed
  | .build node isKey :: rest, built =>
    let named := document.resolve node
    if isKey && named.2.isCollection then .error .malformed
    else if isKept named && built.contains named then document.take rest built
    else
      match document.fault? named.2 isKey with
      | some fault => .error fault
      | none => do
        let (later, more) ← document.take rest (if isKept named then named :: built else built)
        return (later, if named.2.isCollection then named.2 :: more else more)

/-- Builds pending collections in order, and what is in them afterwards. -/
def checkFrom (document : Document) : (fuel : Nat) → (built : List Named) → List Node →
    Except Fault Unit
  | _, _, [] => .ok ()
  | 0, _, _ :: _ => .error .endless
  | fuel + 1, built, node :: pending => do
    let (built, more) ← document.take (document.steps node) built
    document.checkFrom fuel built (pending ++ more)

/-- Checks that all of a document can be built. -/
def check (document : Document) : Except Fault Unit := do
  let (built, pending) ← document.take [.build document.root false] []
  document.checkFrom document.fuel built pending

/-- The value of a node in a checked document, where only keys are a lone `=`. -/
def value (document : Document) (node : Node) : Except Fault Value :=
  document.keyOf (document.bare node)

/-- Whether a key is a text. -/
def isNamed (document : Document) (name : String) (key : Node) : Except Fault Bool := do
  match ← document.value key with
  | .text text => return text == name
  | _ => return false

def findLast (document : Document) (name : String) : List (Node × Node) →
    Except Fault (Option Node)
  | [] => return none
  | (key, value) :: rest => do
    let here ← document.isNamed name key
    let later ← document.findLast name rest
    return later.or (if here then some value else none)

/-- The value of a key of a mapping; the last entry of a name counts. -/
def lookup (document : Document) (node : Node) (name : String) : Except Fault (Option Value) := do
  let found ← document.entries document.fuel [] (none, node)
  match ← document.findLast name found with
  | some value => return some (← document.value value)
  | none => return none

/-- The only document of a text, checked; none if the text holds none. -/
def ofText? (text : List Char) : Except Fault (Option Document) := do
  match ← Node.ofText? text with
  | none => return none
  | some root =>
    let document := ofRoot root
    document.check
    return some document

/-- A document of a text is checked. -/
theorem check_of_ofText? {text : List Char} {document : Document}
    (h : ofText? text = .ok (some document)) : document.check = .ok () := by
  unfold ofText? at h
  cases hroot : Node.ofText? text with
  | error fault =>
      rw [hroot] at h
      cases h
  | ok root =>
      rw [hroot] at h
      cases root with
      | none => cases h
      | some root =>
          cases hcheck : (ofRoot root).check with
          | error fault =>
              simp only [bind, Except.bind, hcheck] at h
              cases h
          | ok done =>
              simp only [bind, Except.bind, hcheck] at h
              cases h
              exact hcheck

end Document

/-- A loader of documents: it gives the only document of a text, or none if the text holds
none, or fails.  All of a document that is given can be built. -/
structure Loader where
  load : List Char → Except Fault (Option Document)
  checked : ∀ {text : List Char} {document : Document}, load text = .ok (some document) →
    document.check = .ok ()

/-- The loader that reads and builds documents itself. -/
def Loader.standard : Loader where
  load := Document.ofText?
  checked := Document.check_of_ofText?

end Fakery.Yaml
