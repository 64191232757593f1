import Fakery.Files.Path
import Fakery.Number.Shortest
import Fakery.Settings.Format
import Fakery.Yaml.Document

/-!
# Settings

What the settings file of a directory says about indentation, the output directory
and excluded paths.  Entries of the wrong type are passed over.
-/

namespace Fakery

def settingsFileName : String := ".autofake.yml"

structure Settings where
  /-- The directory that the settings file is in. -/
  root : Path
  format : Format := {}
  outputDirectory : Option Path := none
  excludePaths : List String := []
  deriving DecidableEq, Repr

/-- Why a settings file cannot be used. -/
inductive SettingsFault where
  | unreadable (fault : Yaml.Fault)
  | notAMapping
  /-- A number has too many digits to be written out. -/
  | longNumber
  deriving DecidableEq, Repr

def SettingsFault.message : SettingsFault → String
  | .unreadable .malformed =>
    "Failed to parse " ++ settingsFileName ++ ": " ++ Yaml.Fault.malformed.message
  | .unreadable fault => fault.message
  | .notAMapping => settingsFileName ++ " must contain a mapping at the root"
  | .longNumber =>
    "Exceeds the limit (" ++ toString Text.maxIntegerDigits
      ++ " digits) for integer string conversion; "
      ++ "use sys.set_int_max_str_digits() to increase the limit"

/-- Faults that are reported as faults of the settings file; others end the program. -/
def SettingsFault.isReported : SettingsFault → Bool
  | .unreadable fault => fault == .malformed
  | .notAMapping => true
  | .longNumber => false

namespace Yaml.Value

/-- A whole number that has too many digits to be written out. -/
def isLong : Value → Bool
  | .integer value => Text.maxIntegerDigits < (toString value.natAbs).length
  | _ => false

/-- The text of a scalar: numbers and truth values are written out. -/
def itemText? : Value → Option String
  | .text value => some value
  | .integer value => some (toString value)
  | .float value => some value.text
  | .truth value => some (if value then "True" else "False")
  | _ => none

/-- Text, or a number written out. -/
def text? : Value → Option String
  | .truth _ => none
  | value => value.itemText?

/-- Writes a value out, unless it is too long. -/
def written (write : Value → Option String) (value : Value) :
    Except SettingsFault (Option String) :=
  if value.isLong then .error .longNumber else .ok (write value)

/-- A whole number, which may be written as text. -/
def integer? : Value → Option Int
  | .integer value => some value
  | .text value => Text.readInteger value.toList
  | _ => none

/-- A truth value, or a word for one. -/
def isTrue : Value → Bool
  | .truth value => value
  | .text value =>
    ["true", "yes", "1"].contains (String.ofList ((Text.trim value.toList).map Char.toLower))
  | _ => false

end Yaml.Value

namespace Settings

open Yaml (Document Node)

/-- Looks into a document. -/
def reading {α : Type} (found : Except Yaml.Fault α) : Except SettingsFault α :=
  found.mapError .unreadable

/-- A list of texts; a text alone is a list of one. -/
def textsOf (document : Document) : Option Yaml.Value → Except SettingsFault (List String)
  | some (.text value) => return [value]
  | some (.sequence items) => do
    let values ← reading (items.mapM document.value)
    let texts ← values.mapM (Yaml.Value.written Yaml.Value.itemText?)
    return texts.filterMap id
  | some (.bytes value) => return value.map fun byte => toString byte.toNat
  | _ => return []

/-- The value of a key of a mapping inside a mapping. -/
def lookupIn (document : Document) (part : Option Yaml.Value) (name : String) :
    Except SettingsFault (Option Yaml.Value) :=
  match part with
  | some (.mapping node) => reading (document.lookup node name)
  | _ => return none

def formatOf (document : Document) (part : Option Yaml.Value) : Except SettingsFault Format := do
  let indent ← lookupIn document part "indent"
  let useTabs ← lookupIn document part "use_tabs"
  return ⟨((indent.bind Yaml.Value.integer?).filter (0 < ·)).getD 4,
    (useTabs.map Yaml.Value.isTrue).getD false⟩

def directoryOf (document : Document) (root : Path) (part : Option Yaml.Value) :
    Except SettingsFault (Option Path) := do
  match ← lookupIn document part "directory" with
  | none => return none
  | some value =>
    let text ← value.written Yaml.Value.text?
    return (text.filter (· != "")).map fun text => root.join (Path.ofString text)

/-- The settings in a document whose root is a mapping. -/
def ofMapping (document : Document) (root : Path) (mapping : Node) :
    Except SettingsFault Settings := do
  let format ← formatOf document (← reading (document.lookup mapping "format"))
  let outputDirectory ←
    directoryOf document root (← reading (document.lookup mapping "output"))
  let excludePaths ← textsOf document (← reading (document.lookup mapping "exclude_paths"))
  return { root, format, outputDirectory, excludePaths }

/-- The settings in a document; one that says nothing gives the standard settings. -/
def ofDocument (document : Document) (root : Path) : Except SettingsFault Settings := do
  match ← reading (document.value document.root) with
  | .null => return { root }
  | .mapping mapping => ofMapping document root mapping
  | _ => .error .notAMapping

/-- The settings that a text gives for a directory.  A blank text, and one that says
nothing, give the standard settings. -/
def ofText (loader : Yaml.Loader) (root : Path) (text : List Char) :
    Except SettingsFault Settings :=
  if Text.isBlankText text then .ok { root }
  else do
    match ← reading (loader.load text) with
    | none => return { root }
    | some document => ofDocument document root

end Settings

end Fakery
