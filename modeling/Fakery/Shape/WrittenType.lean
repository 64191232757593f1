import Fakery.Text.Blank

/-!
# Written types

A type as it is written in a declaration, with the kind that its outermost
constructor shows: an optional, an array, a dictionary, or a name.
-/

namespace Fakery

inductive TypeKind where
  | optional
  | array
  | dictionary
  | named
  deriving DecidableEq, Repr, Inhabited

def TypeKind.name : TypeKind → String
  | .optional => "optional"
  | .array => "array"
  | .dictionary => "dictionary"
  | .named => "named"

/-- A written type.  `spelledOut` marks an optional written `Optional<…>`. -/
structure WrittenType where
  kind : TypeKind
  text : String
  spelledOut : Bool := false
  deriving DecidableEq, Repr, Inhabited

namespace WrittenType

def isOptional (type : WrittenType) : Bool :=
  type.kind == .optional

def opensBracket (c : Char) : Bool :=
  c == '[' || c == '(' || c == '<'

/-- A closing bracket; the tip of an arrow is none. -/
def closesBracket (previous : Option Char) (c : Char) : Bool :=
  c == ']' || c == ')' || (c == '>' && previous != some '-')

/-- The offset at which the bracket depth first returns to zero.  Brackets are
counted without regard to their shape. -/
def closingOffset (previous : Option Char) (depth : Int) (offset : Nat) :
    List Char → Option Nat
  | [] => none
  | c :: rest =>
    if opensBracket c then closingOffset (some c) (depth + 1) (offset + 1) rest
    else if closesBracket previous c then
      if depth - 1 == 0 then some offset
      else closingOffset (some c) (depth - 1) (offset + 1) rest
    else closingOffset (some c) depth (offset + 1) rest

def hasOuterColon (previous : Option Char) (depth : Int) : List Char → Bool
  | [] => false
  | c :: rest =>
    if opensBracket c then hasOuterColon (some c) (depth + 1) rest
    else if closesBracket previous c then hasOuterColon (some c) (depth - 1) rest
    else if c == ':' && depth == 0 then true
    else hasOuterColon (some c) depth rest

/-- The part of a text between its first and its last character. -/
def inner (cs : List Char) : List Char :=
  (cs.drop 1).dropLast

/-- A text in square brackets that close at its end. -/
def isBracketed (cs : List Char) : Bool :=
  cs.head? == some '[' && closingOffset none 0 0 cs == some (cs.length - 1)

/-- The kind of a trimmed type text and whether it is a spelled-out optional. -/
def classify (cs : List Char) : TypeKind × Bool :=
  if cs.getLast? == some '?' then (.optional, false)
  else if "Optional<".toList.isPrefixOf cs && cs.getLast? == some '>' then (.optional, true)
  else if isBracketed cs then
    (if hasOuterColon none 0 (inner cs) then .dictionary else .array, false)
  else (.named, false)

/-- Classifies a type text; surrounding white space does not belong to it. -/
def ofText (text : String) : WrittenType :=
  let cs := Text.trim text.toList
  let (kind, spelledOut) := classify cs
  ⟨kind, String.ofList cs, spelledOut⟩

end WrittenType

end Fakery
