import Fakery.Command.Arguments
import Fakery.Command.Help

/-!
# The commands of the program
-/

namespace Fakery.Command

/-- Everything that arguments can choose. -/
structure Choices where
  verbose : Bool := false
  logFile : Option String := none
  path : String := "."
  outputDirectory : Option String := none
  dryRun : Bool := false
  asJson : Bool := false
  host : String := "127.0.0.1"
  port : Int := 8000
  deriving DecidableEq, Repr

inductive Name where
  | expand
  | inspect
  | serve
  deriving DecidableEq, Repr

def Name.text : Name → String
  | .expand => "expand"
  | .inspect => "inspect"
  | .serve => "serve"

def allNames : List Name := [.expand, .inspect, .serve]

def Name.ofText? (text : String) : Option Name :=
  allNames.find? (·.text == text)

structure Invocation where
  name : Name
  choices : Choices
  deriving DecidableEq, Repr

/-- A run that ends before a command is carried out. -/
structure Exit where
  code : Nat
  output : String := ""
  errors : String := ""
  deriving DecidableEq, Repr

def sharedOptions : List (OptionSpec Choices) := [
  ⟨["-h", "--help"], .help⟩,
  ⟨["-v", "--verbose"], .flag fun choices => { choices with verbose := true }⟩,
  ⟨["--log-file"], .text fun value choices => { choices with logFile := some value }⟩]

def choosePath (value : String) (choices : Choices) : Choices :=
  { choices with path := value }

def mainGrammar : Grammar Choices :=
  ⟨sharedOptions, .command⟩

def Name.grammar : Name → Grammar Choices
  | .expand =>
    ⟨sharedOptions ++ [
      ⟨["--output-dir"], .text fun value choices =>
        { choices with outputDirectory := some value }⟩,
      ⟨["--dry-run"], .flag fun choices => { choices with dryRun := true }⟩],
      .optional choosePath⟩
  | .inspect =>
    ⟨sharedOptions ++ [⟨["--json"], .flag fun choices => { choices with asJson := true }⟩],
      .optional choosePath⟩
  | .serve =>
    ⟨sharedOptions ++ [
      ⟨["--host"], .text fun value choices => { choices with host := value }⟩,
      ⟨["--port"], .integer fun value choices => { choices with port := value }⟩],
      .nothing⟩

def Name.usage : Name → String
  | .expand => expandUsage
  | .inspect => inspectUsage
  | .serve => serveUsage

def Name.help : Name → String
  | .expand => expandHelp
  | .inspect => inspectHelp
  | .serve => serveHelp

/-- How a run ends whose arguments are not carried out. -/
def Stop.exit (program usage help : String) : Stop → Exit
  | .help => { code := 0, output := help }
  | .refused message => { code := 2, errors := usage ++ program ++ ": error: " ++ message ++ "\n" }

def refuseMain (message : String) : Exit :=
  Stop.exit programName mainUsage mainHelp (.refused message)

/-- Reads the arguments of a command.  `unknown` holds what was not understood before
it. -/
def readCommand (choices : Choices) (unknown : List String) (name : Name) (args : List String) :
    Except Exit Invocation :=
  match name.grammar.read choices args with
  | .error stop => .error (stop.exit (programName ++ " " ++ name.text) name.usage name.help)
  | .ok progress =>
    let unknown := unknown ++ progress.extras
    if unknown.isEmpty then .ok ⟨name, progress.choices⟩
    else .error (refuseMain ("unrecognized arguments: " ++ String.intercalate " " unknown))

def read (args : List String) : Except Exit Invocation :=
  match mainGrammar.read {} args with
  | .error stop => .error (stop.exit programName mainUsage mainHelp)
  | .ok progress =>
    match progress.command with
    | none => .error (refuseMain "the following arguments are required: command")
    | some [] => .error (refuseMain "the following arguments are required: command")
    | some (word :: args) =>
      match Name.ofText? word with
      | some name => readCommand progress.choices progress.extras name args
      | none =>
        .error (refuseMain ("argument command: invalid choice: " ++ Text.quoted word
          ++ " (choose from " ++ String.intercalate ", "
            (allNames.map fun name => Text.quoted name.text) ++ ")"))

end Fakery.Command
