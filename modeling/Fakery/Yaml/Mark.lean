import Fakery.Text.Utf8
import Fakery.Yaml.Scalar

/-!
# Reading anchors, tags and directives
-/

namespace Fakery.Yaml

def isNameChar (c : Char) : Bool :=
  c.isAlphanum || c == '-' || c == '_'

def isUriChar (c : Char) : Bool :=
  c.isAlphanum || "-;/?:@&=+$,_.!~*'()[]".toList.contains c

/-- The name behind the mark of an anchor or an alias. -/
def readAnchor (cursor : Cursor) : Except Fault (String × Cursor) :=
  let (name, cursor) := cursor.span isNameChar
  let ended := endsWord cursor.peek
    || (cursor.peek.map ['?', ':', ',', ']', '\x7d', '%', '@', '\x60'].contains).getD false
  if name.isEmpty || !ended then .error .malformed else .ok (String.ofList name, cursor)

/-- Bytes written as percent signs with two digits. -/
def readEscapedBytes : (fuel : Nat) → Cursor → Except Fault (List UInt8 × Cursor)
  | 0, _ => .error .malformed
  | fuel + 1, cursor =>
    match cursor.rest with
    | '%' :: a :: b :: _ =>
      match Text.hexDigit? a, Text.hexDigit? b with
      | some x, some y =>
        (readEscapedBytes fuel (cursor.skip 3)).map fun (bytes, cursor) =>
          (UInt8.ofNat (16 * x + y) :: bytes, cursor)
      | _, _ => .error .malformed
    | '%' :: _ => .error .malformed
    | _ => .ok ([], cursor)

/-- The rest of a URI, which may be empty. -/
def readUriRest : (fuel : Nat) → Cursor → Except Fault (List Char × Cursor)
  | 0, _ => .error .malformed
  | fuel + 1, cursor => do
    let (plain, cursor) := cursor.span isUriChar
    if cursor.peek == some '%' then
      let (bytes, cursor) ← readEscapedBytes (fuel + 1) cursor
      match Text.Utf8.decode bytes with
      | .error _ => .error .malformed
      | .ok text =>
        let (more, cursor) ← readUriRest fuel cursor
        return (plain ++ text ++ more, cursor)
    else return (plain, cursor)

def readUri (fuel : Nat) (cursor : Cursor) : Except Fault (List Char × Cursor) :=
  if (cursor.peek.map fun c => isUriChar c || c == '%').getD false then readUriRest fuel cursor
  else .error .malformed

/-- A tag handle `!`, `!!` or `!name!`; a lone `!` only before a blank. -/
def readHandle (cursor : Cursor) : Except Fault (String × Cursor) :=
  if cursor.peek != some '!' then .error .malformed
  else
    let cursor := cursor.advance
    if cursor.peek == some ' ' then .ok ("!", cursor)
    else
      let (name, cursor) := cursor.span isNameChar
      if cursor.peek == some '!' then .ok ("!" ++ String.ofList name ++ "!", cursor.advance)
      else .error .malformed

/-- A tag as it is written: a handle and what follows it, or no handle. -/
structure WrittenTag where
  handle : Option String
  name : String
  deriving DecidableEq, Repr

def wordHasMark : List Char → Bool
  | [] => false
  | c :: rest => if endsField (some c) then false else c == '!' || wordHasMark rest

/-- A tag that begins at its exclamation mark. -/
def readTag (fuel : Nat) (cursor : Cursor) : Except Fault (WrittenTag × Cursor) := do
  let next := cursor.peekAt 1
  let (tag, cursor) ←
    if next == some '<' then
      let (name, cursor) ← readUri fuel (cursor.skip 2)
      if cursor.peek == some '>' then
        pure ((⟨none, String.ofList name⟩ : WrittenTag), cursor.advance)
      else .error .malformed
    else if endsWord next then pure ((⟨none, "!"⟩ : WrittenTag), cursor.advance)
    else
      let (handle, cursor) ←
        if wordHasMark (cursor.rest.drop 1) then readHandle cursor else pure ("!", cursor.advance)
      let (name, cursor) ← readUri fuel cursor
      pure ((⟨some handle, String.ofList name⟩ : WrittenTag), cursor)
  if endsField cursor.peek then return (tag, cursor) else .error .malformed

inductive Directive where
  | version (major minor : Nat)
  | tag (handle expansion : String)
  | other
  deriving DecidableEq, Repr

def readVersionNumber (cursor : Cursor) : Except Fault (Nat × Cursor) :=
  let (digits, cursor) := cursor.span Char.isDigit
  if digits.isEmpty then .error .malformed
  else if Text.maxIntegerDigits < digits.length then .error (.longInteger digits.length)
  else .ok (Text.ofDigits 10 (digits.filterMap Text.hexDigit?), cursor)

/-- A directive whose percent sign is already read, with its line. -/
def readDirective (fuel : Nat) (cursor : Cursor) : Except Fault (Directive × Cursor) := do
  let (name, cursor) := cursor.span isNameChar
  if name.isEmpty || !endsField cursor.peek then .error .malformed
  else
    let name := String.ofList name
    let blank := fun c : Char => c == ' '
    let (directive, cursor) ←
      if name == "YAML" then
        let (major, cursor) ← readVersionNumber (cursor.skipWhile blank)
        if cursor.peek == some '.' then
          let (minor, cursor) ← readVersionNumber cursor.advance
          if endsField cursor.peek then pure (Directive.version major minor, cursor)
          else .error .malformed
        else .error .malformed
      else if name == "TAG" then
        let (handle, cursor) ← readHandle (cursor.skipWhile blank)
        if cursor.peek == some ' ' then
          let (expansion, cursor) ← readUri fuel (cursor.skipWhile blank)
          if endsField cursor.peek then
            pure (Directive.tag handle (String.ofList expansion), cursor)
          else .error .malformed
        else .error .malformed
      else pure (Directive.other, cursor.skipWhile (!isBreak ·))
    let cursor := cursor.skipComment
    if endsLine cursor.peek then return (directive, (cursor.lineBreak?.map (·.2)).getD cursor)
    else .error .malformed

end Fakery.Yaml
