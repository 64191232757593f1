import Fakery.Text.Quoted

/-!
# JSON values and their text

Values are written in ASCII, indented by two blanks; empty lists and objects stay
on one line.
-/

namespace Fakery

/-- A JSON value.  Numbers keep the text they are written with. -/
inductive Json where
  | null
  | truth (value : Bool)
  | number (literal : String)
  | text (value : String)
  | list (items : List Json)
  | object (fields : List (String × Json))
  deriving Inhabited, Repr

namespace Json

/-- The value of a field; the last field of a name counts. -/
def field? (name : String) : Json → Option Json
  | .object fields => (fields.filter (·.1 == name)).getLast?.map (·.2)
  | _ => none

def ofNat (n : Nat) : Json :=
  .number (toString n)

/-- A character by the code of its UTF-16 units. -/
def escapeUnits (c : Char) : List Char :=
  let n := c.toNat
  let unit := fun (u : Nat) => '\\' :: 'u' :: Text.hexDigits 4 u
  if n < 0x10000 then unit n
  else unit (0xD800 + (n - 0x10000) / 0x400) ++ unit (0xDC00 + (n - 0x10000) % 0x400)

def escapeChar (c : Char) : List Char :=
  if c == '"' || c == '\\' then ['\\', c]
  else if c == '\n' then ['\\', 'n']
  else if c == '\r' then ['\\', 'r']
  else if c == '\t' then ['\\', 't']
  else if c == '\x08' then ['\\', 'b']
  else if c == '\x0c' then ['\\', 'f']
  else if ' ' ≤ c && c ≤ '~' then [c]
  else escapeUnits c

def renderText (s : String) : List Char :=
  '"' :: s.toList.flatMap escapeChar ++ ['"']

def newLine (level : Nat) : List Char :=
  '\n' :: List.replicate (2 * level) ' '

mutual

/-- The text of a value at a level of indentation. -/
def renderAt (level : Nat) : Json → List Char
  | .null => "null".toList
  | .truth value => if value then "true".toList else "false".toList
  | .number literal => literal.toList
  | .text value => renderText value
  | .list items =>
    if items.isEmpty then ['[', ']']
    else '[' :: renderItems (level + 1) items ++ newLine level ++ [']']
  | .object fields =>
    if fields.isEmpty then ['\x7b', '\x7d']
    else '\x7b' :: renderFields (level + 1) fields ++ newLine level ++ ['\x7d']

/-- Items, each on a line of its own, with commas between them. -/
def renderItems (level : Nat) : List Json → List Char
  | [] => []
  | item :: rest =>
    newLine level ++ renderAt level item
      ++ (if rest.isEmpty then [] else [',']) ++ renderItems level rest

/-- Fields, each on a line of its own, with commas between them. -/
def renderFields (level : Nat) : List (String × Json) → List Char
  | [] => []
  | (name, value) :: rest =>
    newLine level ++ renderText name ++ [':', ' '] ++ renderAt level value
      ++ (if rest.isEmpty then [] else [',']) ++ renderFields level rest

end

def render (value : Json) : String :=
  String.ofList (renderAt 0 value)

end Json

end Fakery
