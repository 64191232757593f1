import Fakery.Diff.Unified
import Fakery.Expansion
import Fakery.Run.Scan
import Fakery.Source.Reader.Language

/-!
# Expanding files

A run expands one file or every source file below a directory.  A file that cannot
be read or expanded is recorded, and the run goes on.
-/

namespace Fakery

structure FileOutcome where
  path : Path
  expansion : Option Expansion := none
  /-- Where the expanded source was written. -/
  written : Option Path := none
  diff : List Char := []
  error : Option String := none

structure RunOutcome where
  root : Path
  files : List FileOutcome

namespace RunOutcome

def failures (outcome : RunOutcome) : List FileOutcome :=
  outcome.files.filter (·.error.isSome)

def changed (outcome : RunOutcome) : List FileOutcome :=
  outcome.files.filter fun file => (file.expansion.map Expansion.changed).getD false

end RunOutcome

/-- What a run relies on: a parser of the language of the sources, and a loader of settings
files. -/
structure Tools where
  language : Language
  loader : Yaml.Loader

def Tools.standard : Tools where
  language := swift
  loader := .standard

structure RunOptions where
  /-- A directory to write to, which takes precedence over the settings. -/
  outputDirectory : Option String := none
  /-- Only computes diffs. -/
  dryRun : Bool := false
  /-- Settings to use instead of those of the source's directory. -/
  settings : Option Settings := none
  /-- Excluded paths to use instead of those of the settings; the inner `none` asks
  for those of the scanned directory. -/
  excludes : Option (Option (List String)) := none

namespace Action

def expanderRecord (level : LogLevel) (message : String) : LogRecord :=
  ⟨level, "expander", message⟩

/-- The directory that expanded sources are written to. -/
def destination (options : RunOptions) (settings : Settings) : Action (Option Path) := do
  match options.outputDirectory with
  | some text => return some (Path.ofNames (← resolve (← expandHome (Path.ofString text))))
  | none =>
    match settings.outputDirectory with
    | some path => return some (Path.ofNames (← resolve path))
    | none => return none

/-- Writes an expanded source below a directory. -/
def writeBelow (directory : Path) (name : String) (source : List Char) : Action Path := do
  let written := directory.child name
  change fun tree here => tree.ensureDirectory here written.parent
  change fun tree here => tree.writeFile here written (Text.Utf8.encode source)
  return written

def expandRead (language : Language) (unit name : String) (path : Path)
    (directory : Option Path) (dryRun : Bool) (source : List Char) : Action FileOutcome := do
  emitAll (expansionLog language source)
  match expand language unit name source with
  | .error error =>
    emit (expanderRecord .error s!"Failed to expand {name}: {error.message}")
    return { path, error := some error.message }
  | .ok expansion =>
    if expansion.changed then
      emit (expanderRecord .info
        s!"Generated {expansion.declarations.length} fake constructor(s) in {name}")
    if dryRun then
      let diff := Diff.unified name source expansion.source
      return { path, expansion := some expansion, diff }
    else
      match directory with
      | none => return { path, expansion := some expansion }
      | some directory =>
        let written ← writeBelow directory name expansion.source
        return { path, expansion := some expansion, written := some written }

/-- Expands one file, called `name` below the root of the run. -/
def expandFile (language : Language) (unit name : String) (path : Path)
    (directory : Option Path) (dryRun : Bool) : Action FileOutcome := do
  let source ← tryCatch (Except.ok <$> readText path) fun fault => return Except.error fault
  match source with
  | .error fault =>
    emit (expanderRecord .error s!"Failed to read {name}: {fault.message}")
    return { path, error := some (name ++ ": " ++ fault.message) }
  | .ok source => expandRead language unit name path directory dryRun source

def isInside (directory : Option Path) (path : Path) : Bool :=
  match directory with
  | none => false
  | some directory => (path.relativeTo? directory).isSome

/-- Expands files one after another, without those inside the directory that is
written to. -/
def expandFiles (language : Language) (unit : String) (root : Path) (directory : Option Path)
    (dryRun : Bool) : List SourceFile → Action (List FileOutcome)
  | [] => return []
  | file :: rest => do
    let path := root.child file.path
    if isInside directory path then expandFiles language unit root directory dryRun rest
    else
      let outcome ← expandFile language unit file.path path directory dryRun
      let more ← expandFiles language unit root directory dryRun rest
      return outcome :: more

/-- The settings of a run: the given ones, or those for its source. -/
def runSettings (loader : Yaml.Loader) (options : RunOptions) (target : List String)
    (entry : Entry) : Action Settings :=
  match options.settings with
  | some settings => return settings
  | none =>
    loadSettings loader (Path.ofNames (if entry.isDirectory then target else target.dropLast))

def expandPath (tools : Tools) (options : RunOptions) (path : String) : Action RunOutcome := do
  let target ← resolve (← expandHome (Path.ofString path))
  match ← look fun tree _ => tree.get? target with
  | none => throw (.sourceNotFound path)
  | some entry =>
    let settings ← runSettings tools.loader options target entry
    let excludes := options.excludes.getD (some settings.excludePaths)
    let manifest ← scan tools.loader excludes (Path.ofNames target).text
    let directory ← destination options settings
    emit (expanderRecord .debug s!"Scanner discovered {manifest.files.length} Swift file(s)")
    let files ← expandFiles tools.language settings.format.unit manifest.root directory
      options.dryRun manifest.files
    let outcome : RunOutcome := ⟨manifest.root, files⟩
    emit (expanderRecord .info
      (s!"Expanded {outcome.changed.length} of {files.length} file(s) under "
        ++ s!"{manifest.root.text} ({outcome.failures.length} failed)"))
    return outcome

end Action

end Fakery
