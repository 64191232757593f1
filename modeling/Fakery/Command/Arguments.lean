import Fakery.Text.Integer
import Fakery.Text.Quoted

/-!
# Reading command-line arguments

A grammar lists the options of a command and what its positional argument is.
Long options may be shortened to any unambiguous beginning, a value may follow an
equals sign, and short flags may be written together.  Behind `--` nothing is an
option.
-/

namespace Fakery.Command

/-- What an option does to the choices made so far. -/
inductive OptionKind (σ : Type) where
  | help
  | flag (choose : σ → σ)
  | text (choose : String → σ → σ)
  | integer (choose : Int → σ → σ)

structure OptionSpec (σ : Type) where
  names : List String
  kind : OptionKind σ

/-- What stands among the arguments besides options. -/
inductive Positional (σ : Type) where
  | nothing
  /-- At most one text. -/
  | optional (choose : String → σ → σ)
  /-- A command, which takes all arguments behind it. -/
  | command

structure Grammar (σ : Type) where
  options : List (OptionSpec σ)
  positional : Positional σ

/-- Why reading stops early. -/
inductive Stop where
  | help
  | refused (message : String)
  deriving DecidableEq, Repr

/-- Text written to an option, behind an equals sign or right behind a short name. -/
structure Attached where
  behindEquals : Bool
  text : List Char

/-- An argument that looks like an option: the option, if there is one, the name it
was recognised by, and the text attached to it. -/
structure OptionUse (σ : Type) where
  spec : Option (OptionSpec σ)
  name : String
  attached : Option Attached

inductive Mark (σ : Type) where
  | separator
  | argument
  | option (used : OptionUse σ)

def Mark.isOption {σ : Type} : Mark σ → Bool
  | .option _ => true
  | _ => false

namespace Grammar

variable {σ : Type}

/-- Every name of an option with the option. -/
def names (grammar : Grammar σ) : List (String × OptionSpec σ) :=
  grammar.options.flatMap fun spec => spec.names.map (·, spec)

/-- Splits an argument at its first equals sign. -/
def splitEquals (arg : String) : String × Option Attached :=
  match arg.toList.span (· != '=') with
  | (name, _ :: value) => (String.ofList name, some ⟨true, value⟩)
  | (name, []) => (String.ofList name, none)

/-- The options that an argument may be short for. -/
def candidates (grammar : Grammar σ) (arg : String) : List (OptionUse σ) :=
  let cs := arg.toList
  if (cs.drop 1).head? == some '-' then
    let (start, value) := splitEquals arg
    (grammar.names.filter fun (name, _) => start.toList.isPrefixOf name.toList).map
      fun (name, spec) => ⟨some spec, name, value⟩
  else
    grammar.names.filterMap fun (name, spec) =>
      if name.toList == cs.take 2 then some ⟨some spec, name, some ⟨false, cs.drop 2⟩⟩
      else if cs.isPrefixOf name.toList then some ⟨some spec, name, none⟩
      else none

/-- A negative number, which is no option.  A line feed at its end does not count. -/
def isNegativeNumber (cs : List Char) : Bool :=
  let isDigit := fun c => (Text.decimalDigit? c).isSome
  match if cs.getLast? == some '\n' then cs.dropLast else cs with
  | '-' :: rest =>
    match rest.dropWhile isDigit with
    | [] => !rest.isEmpty
    | '.' :: fraction => !fraction.isEmpty && fraction.all isDigit
    | _ => false
  | _ => false

/-- What an argument before any `--` is. -/
def mark (grammar : Grammar σ) (arg : String) : Except Stop (Mark σ) :=
  let cs := arg.toList
  if cs.head? != some '-' then .ok .argument
  else
    match grammar.names.lookup arg with
    | some spec => .ok (.option ⟨some spec, arg, none⟩)
    | none =>
      let (start, value) := splitEquals arg
      if cs.length == 1 then .ok .argument
      else
        match value, grammar.names.lookup start with
        | some value, some spec => .ok (.option ⟨some spec, start, some value⟩)
        | _, _ =>
          match grammar.candidates arg with
          | [used] => .ok (.option used)
          | [] =>
            if isNegativeNumber cs || cs.contains ' ' then .ok .argument
            else .ok (.option ⟨none, arg, none⟩)
          | several =>
            .error (.refused ("ambiguous option: " ++ arg ++ " could match "
              ++ String.intercalate ", " (several.map (·.name))))

def marks (grammar : Grammar σ) : List String → Except Stop (List (String × Mark σ))
  | [] => .ok []
  | "--" :: rest => .ok (("--", .separator) :: rest.map (·, .argument))
  | arg :: rest => do
    let found ← grammar.mark arg
    let more ← grammar.marks rest
    return (arg, found) :: more

end Grammar

/-- The state of reading: the choices, what nobody understands, and the command with
its arguments. -/
structure Progress (σ : Type) where
  choices : σ
  positional : Positional σ
  extras : List String := []
  command : Option (List String) := none

variable {σ : Type}

def OptionSpec.refuse (spec : OptionSpec σ) (message : String) : Stop :=
  .refused ("argument " ++ String.intercalate "/" spec.names ++ ": " ++ message)

def OptionSpec.takesValue (spec : OptionSpec σ) : Bool :=
  match spec.kind with
  | .help => false
  | .flag _ => false
  | _ => true

def OptionSpec.apply (spec : OptionSpec σ) (value : String) (choices : σ) : Except Stop σ :=
  match spec.kind with
  | .help => .error .help
  | .flag choose => .ok (choose choices)
  | .text choose => .ok (choose value choices)
  | .integer choose =>
    match Text.readInteger value.toList with
    | some n => .ok (choose n choices)
    | none => .error (spec.refuse ("invalid int value: " ++ Text.quoted value))

/-- Options to carry out, the arguments behind them, and what nobody understands. -/
structure Uses (σ : Type) where
  steps : List (OptionSpec σ × String)
  rest : List (String × Mark σ)
  extras : List String := []

/-- An option without attached text: it takes the next argument if it needs a
value. -/
def useNext (spec : OptionSpec σ) (rest : List (String × Mark σ)) : Except Stop (Uses σ) :=
  if spec.takesValue then
    match rest with
    | (value, .argument) :: rest => .ok { steps := [(spec, value)], rest }
    | _ => .error (spec.refuse "expected one argument")
  else .ok { steps := [(spec, "")], rest }

/-- An option with attached text: its value, or for a short flag more short options.
Text that starts with no short option is left over with a dash of its own. -/
def useAttached (grammar : Grammar σ) (isShort behindEquals : Bool)
    (rest : List (String × Mark σ)) : OptionSpec σ → List Char → Except Stop (Uses σ)
  | spec, cs =>
    if spec.takesValue then .ok { steps := [(spec, String.ofList cs)], rest }
    else
      let refusal := spec.refuse ("ignored explicit argument " ++ Text.quoted (String.ofList cs))
      match cs with
      | [] => .error refusal
      | c :: more =>
        if !isShort || behindEquals || c == '-' then .error refusal
        else
          match grammar.names.lookup (String.ofList ['-', c]) with
          | none =>
            .ok { steps := [(spec, "")], rest, extras := [String.ofList ('-' :: c :: more)] }
          | some next => do
            let uses ←
              match more with
              | [] => useNext next rest
              | '=' :: value => useAttached grammar isShort true rest next value
              | more => useAttached grammar isShort false rest next more
            return { uses with steps := (spec, "") :: uses.steps }
termination_by _ cs => cs.length

def applyAll : List (OptionSpec σ × String) → σ → Except Stop σ
  | [], choices => .ok choices
  | (spec, value) :: rest, choices => do
    let choices ← spec.apply value choices
    applyAll rest choices

/-- Takes positional arguments from the front, as many as the grammar allows. -/
def takePositional (progress : Progress σ) (items : List (String × Mark σ)) :
    Progress σ × List (String × Mark σ) :=
  match progress.positional with
  | .nothing => (progress, items)
  | .command =>
    let isSeparator := fun (item : String × Mark σ) =>
      match item.2 with
      | .separator => true
      | _ => false
    match items.dropWhile isSeparator with
    | (_, .argument) :: _ =>
      ({ progress with positional := .nothing, command := some (items.map (·.1)) }, [])
    | _ => (progress, items)
  | .optional choose =>
    let progress := { progress with positional := .nothing }
    let dropSeparator := fun (items : List (String × Mark σ)) =>
      match items with
      | (_, .separator) :: rest => rest
      | _ => items
    match dropSeparator items with
    | (value, .argument) :: rest =>
      ({ progress with choices := choose value progress.choices }, dropSeparator rest)
    | rest => (progress, rest)

/-- Reads arguments from the front, positional ones and options in turn. -/
def readItems (grammar : Grammar σ) : (fuel : Nat) → Progress σ → List (String × Mark σ) →
    Except Stop (Progress σ)
  | 0, progress, _ => .ok progress
  | fuel + 1, progress, items =>
    if items.any (·.2.isOption) then
      match items with
      | (arg, .option used) :: rest =>
        match used.spec with
        | none =>
          readItems grammar fuel { progress with extras := progress.extras ++ [arg] } rest
        | some spec => do
          let uses ←
            match used.attached with
            | none => useNext spec rest
            | some attached =>
              useAttached grammar ((used.name.toList.drop 1).head? != some '-')
                attached.behindEquals rest spec attached.text
          let choices ← applyAll uses.steps progress.choices
          readItems grammar fuel
            { progress with choices, extras := progress.extras ++ uses.extras } uses.rest
      | _ =>
        let (progress, rest) := takePositional progress items
        if rest.length < items.length then readItems grammar fuel progress rest
        else
          let skipped := items.takeWhile fun item => !item.2.isOption
          readItems grammar fuel
            { progress with extras := progress.extras ++ skipped.map (·.1) }
            (items.drop skipped.length)
    else
      let (progress, rest) := takePositional progress items
      .ok { progress with extras := progress.extras ++ rest.map (·.1) }

def Grammar.read (grammar : Grammar σ) (choices : σ) (args : List String) :
    Except Stop (Progress σ) := do
  let items ← grammar.marks args
  readItems grammar (items.length + 1) { choices, positional := grammar.positional } items

end Fakery.Command
