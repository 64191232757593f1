import Fakery.Command.Invocation
import Fakery.Json.Value
import Fakery.Run.Outcome

/-!
# Carrying out commands

A command runs in a workspace and ends with an exit code and what it prints.
-/

namespace Fakery.Command

/-- What a command did: how it ended, and the address it served, if it did. -/
structure Result where
  exit : Exit
  served : Option (String × Int) := none
  deriving DecidableEq, Repr

/-- The title and the version under which the service is announced. -/
def serviceTitle : String := "AutoFake Service"

def serviceVersion : String := "0.1.0"

def consoleLine (record : LogRecord) : String :=
  "[autofake] " ++ record.level.name ++ " " ++ record.message ++ "\n"

def consoleLog (verbose : Bool) (log : List LogRecord) : String :=
  let shown := if verbose then log else log.filter (·.level != .debug)
  String.join (shown.map consoleLine)

/-- A path as seen from the working directory, if it is below it. -/
def relativize (here : List String) (path : Path) : String :=
  ((path.relativeTo? (Path.ofNames here)).getD path).text

def reportFile (here : List String) (dryRun : Bool) (file : FileOutcome) : String :=
  if dryRun then String.ofList file.diff
  else
    match file.written with
    | some written =>
      "Expanded " ++ relativize here file.path ++ " -> " ++ relativize here written ++ "\n"
    | none =>
      let source := (file.expansion.map (·.source)).getD []
      String.ofList (if source.getLast? == some '\n' then source else source ++ ['\n'])

def reportExpand (here : List String) (dryRun : Bool) (outcome : RunOutcome) : String :=
  if outcome.changed.isEmpty then
    if outcome.failures.isEmpty then "No @AutoFake declarations found\n" else ""
  else String.join (outcome.changed.map (reportFile here dryRun))

/-- The declarations of a run with the files they are in. -/
def entries (here : List String) (outcome : RunOutcome) : List (String × Summary) :=
  outcome.changed.flatMap fun file =>
    ((file.expansion.map (·.declarations)).getD []).map (relativize here file.path, ·)

def entryJson (entry : String × Summary) : Json :=
  let (file, summary) := entry
  .object [
    ("file", .text file),
    ("line", .ofNat summary.line),
    ("name", .text summary.name),
    ("keyword", .text summary.keyword),
    ("strategy", .text summary.strategy.name),
    ("parameters", .list (summary.parameters.map .text)),
    ("annexes", .list (summary.helpers.map .text))]

def entryLine (entry : String × Summary) : String :=
  let (file, summary) := entry
  let parameters := Text.joined ", " summary.parameters
  file ++ ":" ++ toString summary.line ++ ": " ++ summary.keyword ++ " " ++ summary.name ++ " ["
    ++ summary.strategy.name ++ "] parameters: " ++ (if parameters == "" then "-" else parameters)
    ++ "\n"

def reportInspect (here : List String) (asJson : Bool) (outcome : RunOutcome) : String :=
  if asJson then (Json.list ((entries here outcome).map entryJson)).render ++ "\n"
  else String.join ((entries here outcome).map entryLine)

/-- The list of failed files at the end of a run. -/
def failureText (name : Name) (failures : List FileOutcome) : String :=
  "autofake " ++ name.text ++ " failed for " ++ toString failures.length ++ " file(s):\n"
    ++ String.join (failures.map fun file => "  " ++ file.error.getD "" ++ "\n")

def openLog (text : String) : Action Unit := do
  let path := Path.ofString text
  Action.change fun tree here => tree.ensureDirectory here path.parent
  let file := Path.ofNames (← Action.resolve path)
  Action.change fun tree here => tree.modifyFile here file id
  modify fun workspace => { workspace with logFile := some file }

/-- Faults that a command reports itself; others end the program. -/
def isReported : RunFault → Bool
  | .sourceNotFound _ => true
  | .file fault => fault.kind == .notFound
  | .settings fault => fault.isReported
  | _ => false

def runOptions (invocation : Invocation) : RunOptions :=
  match invocation.name with
  | .expand =>
    { outputDirectory := invocation.choices.outputDirectory, dryRun := invocation.choices.dryRun }
  | _ => { dryRun := true }

/-- Runs `expand` or `inspect`, and gives exit code, output and errors without the
log. -/
def runSources (tools : Tools) (invocation : Invocation) : Action Exit := do
  let path := invocation.choices.path
  let outcome ← tryCatch (Except.ok <$> Action.expandPath tools (runOptions invocation) path)
    fun fault => if isReported fault then return Except.error fault else throw fault
  match outcome with
  | .error fault =>
    return {
      code := 1
      errors := "autofake " ++ invocation.name.text ++ " failed: " ++ fault.message ++ "\n" }
  | .ok outcome =>
    let here := (← get).here
    let output :=
      match invocation.name with
      | .expand => reportExpand here invocation.choices.dryRun outcome
      | _ => reportInspect here invocation.choices.asJson outcome
    if outcome.failures.isEmpty then return { code := 0, output }
    else return { code := 1, output, errors := failureText invocation.name outcome.failures }

def serviceMissing : String :=
  "Service mode requires FastAPI and uvicorn (fastapi is missing). "
    ++ "Install them with \x60pip install autofake[service]\x60.\n"

/-- Carries out a command.  `hasService` says whether the service can be run. -/
def run (tools : Tools) (hasService : Bool) (invocation : Invocation) : Action Result := do
  let choices := invocation.choices
  modify fun workspace => { workspace with log := [], logFile := none }
  if let some text := choices.logFile then openLog text
  match invocation.name with
  | .serve =>
    if hasService then return ⟨{ code := 0 }, some (choices.host, choices.port)⟩
    else return ⟨{ code := 1, errors := serviceMissing }, none⟩
  | _ =>
    let exit ← runSources tools invocation
    let log := (← get).log
    return ⟨{ exit with errors := consoleLog choices.verbose log ++ exit.errors }, none⟩

def execute (tools : Tools) (hasService : Bool) (args : List String) : Action Result :=
  match read args with
  | .error exit => return ⟨exit, none⟩
  | .ok invocation => run tools hasService invocation

end Fakery.Command
