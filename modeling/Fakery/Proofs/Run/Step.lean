import Fakery.Proofs.Run.Plan

/-!
# What becomes of one file

Expanding a file reads its source, and then changes nothing, writes the expansion, or
fails to write it.
-/

namespace Fakery

/-- The expansion of a file's content, if it can be read and expanded. -/
def expansionOf? (language : Language) (unit name : String) (content : Option (List UInt8)) :
    Option Expansion := do
  let bytes ← content
  let text ← (Text.Utf8.decode bytes).toOption
  (expand language unit name (Text.normalizeNewlines text)).toOption

variable {language : Language}

theorem expansionOf?_of_decode {bytes : List UInt8} {text : List Char} (unit name : String)
    (h : Text.Utf8.decode bytes = .ok text) :
    expansionOf? language unit name (some bytes) =
      (expand language unit name (Text.normalizeNewlines text)).toOption := by
  simp [expansionOf?, h, Except.toOption]

theorem expansionOf?_of_fault {bytes : List UInt8} {fault : Text.Utf8.Fault} (unit name : String)
    (h : Text.Utf8.decode bytes = .error fault) :
    expansionOf? language unit name (some bytes) = none := by
  simp [expansionOf?, h, Except.toOption]

/-- An outcome has an expansion or an error. -/
structure FileOutcome.Tells (outcome : FileOutcome) (path : Path)
    (expansion : Option Expansion) : Prop where
  path_eq : outcome.path = path
  expansion_eq : outcome.expansion = expansion
  error_eq_none_iff : outcome.error = none ↔ expansion.isSome = true

/-- What can become of one file: its workspace only gains log records, the expansion is
written, or it cannot be written. -/
inductive FileStep (before : Workspace) (path : Path) (expansion : Option Expansion) :
    Option Path → Except RunFault FileOutcome → Workspace → Prop
  | kept {target : Option Path} {outcome : FileOutcome} {log : List LogRecord}
      (hidle : target = none ∨ expansion = none) (htells : outcome.Tells path expansion) :
      FileStep before path expansion target (.ok outcome) { before with log }
  | written {target : Path} {outcome : FileOutcome} {expanded : Expansion} {tree : Entry}
      {log : List LogRecord} (hexpansion : expansion = some expanded)
      (htells : outcome.Tells path expansion)
      (htree : tree.fileAt? = Function.update before.tree.fileAt? target.parts
        (some (Text.Utf8.encode expanded.source))) :
      FileStep before path expansion (some target) (.ok outcome) { before with tree, log }
  | failed {target : Path} {fault : RunFault} {tree : Entry} {log : List LogRecord}
      (htree : tree.fileAt? = before.tree.fileAt?) :
      FileStep before path expansion (some target) (.error fault) { before with tree, log }

namespace FileStep

variable {before after : Workspace} {path : Path} {expansion : Option Expansion}
  {target : Option Path} {result : Except RunFault FileOutcome} {outcome : FileOutcome}

theorem of_log {log : List LogRecord}
    (h : FileStep { before with log } path expansion target result after) :
    FileStep before path expansion target result after := by
  cases h with
  | kept hidle htells => exact .kept hidle htells
  | written hexpansion htells htree => exact .written hexpansion htells htree
  | failed htree => exact .failed htree

theorem logFile_eq (h : FileStep before path expansion target result after) :
    after.logFile = before.logFile := by
  cases h <;> rfl

theorem tree_eq (h : FileStep before path expansion target result after)
    (htarget : target = none) : after.tree = before.tree := by
  cases h with
  | kept => rfl
  | written => cases htarget
  | failed => cases htarget

/-- A step changes at most the file that it writes. -/
theorem fileAt?_eq (h : FileStep before path expansion target result after) {names : List String}
    (hnames : expansion.isSome = true → ∀ written ∈ target, names ≠ written.parts) :
    after.tree.fileAt? names = before.tree.fileAt? names := by
  cases h with
  | kept => rfl
  | written hexpansion _ htree =>
      rw [htree, Function.update_of_ne (hnames (by simp [hexpansion]) _ rfl)]
  | failed htree => rw [htree]

theorem fileAt?_written (h : FileStep before path expansion target (.ok outcome) after)
    {expanded : Expansion} (hexpanded : expanded ∈ expansion) {written : Path}
    (hwritten : written ∈ target) :
    after.tree.fileAt? written.parts = some (Text.Utf8.encode expanded.source) := by
  cases h with
  | kept hidle => rcases hidle with rfl | rfl <;> contradiction
  | written hexpansion _ htree =>
      cases hwritten
      cases hexpansion
      cases hexpanded
      rw [htree, Function.update_self]

theorem tells (h : FileStep before path expansion target (.ok outcome) after) :
    outcome.Tells path expansion := by
  cases h with
  | kept _ htells => exact htells
  | written _ htells => exact htells

end FileStep

namespace Action

section Step

variable {workspace : Workspace} (hquiet : workspace.logFile = none)

include hquiet

theorem run_emit (record : LogRecord) :
    (emit record).run workspace =
      (.ok (), { workspace with log := workspace.log ++ [record] }) := by
  change (Except.ok (), workspace.emit record) = _
  rw [Workspace.emit, hquiet]

theorem run_emitAll (records : List LogRecord) :
    (emitAll records).run workspace =
      (.ok (), { workspace with log := workspace.log ++ records }) := by
  change (Except.ok (), records.foldl (fun workspace record => workspace.emit record) workspace) = _
  congr 1
  induction records generalizing workspace with
  | nil => simp
  | cons record records ih =>
      have hemit : workspace.emit record =
          { workspace with log := workspace.log ++ [record] } := by
        rw [Workspace.emit, hquiet]
      rw [List.foldl_cons, hemit]
      refine (@ih { workspace with log := workspace.log ++ [record] } hquiet).trans ?_
      simp

omit hquiet in
theorem run_change (f : Entry → List String → Except FileFault Entry) :
    (change f).run workspace =
      match f workspace.tree workspace.here with
      | .ok tree => (.ok (), { workspace with tree })
      | .error fault => (.error (.file fault), workspace) := by
  change (ofFile (f workspace.tree workspace.here) >>= fun tree =>
    modify fun workspace => { workspace with tree }).run workspace = _
  cases f workspace.tree workspace.here <;> rfl

variable {unit name : String} {path : Path} {directory : Path}

omit hquiet in
/-- Writing below a directory changes one file or none. -/
theorem writeBelow_cases (hresolved : (directory.child name).Resolved)
    (hparts : (directory.child name).parts ≠ []) (source : List Char) :
    (∃ tree, (writeBelow directory name source).run workspace =
        (.ok (directory.child name), { workspace with tree }) ∧
      tree.fileAt? = Function.update workspace.tree.fileAt? (directory.child name).parts
        (some (Text.Utf8.encode source))) ∨
    ∃ fault tree, (writeBelow directory name source).run workspace =
        (.error fault, { workspace with tree }) ∧ tree.fileAt? = workspace.tree.fileAt? := by
  rw [writeBelow, run_bind, run_change]
  cases hmade : workspace.tree.ensureDirectory workspace.here (directory.child name).parent with
  | error fault => exact .inr ⟨_, workspace.tree, rfl, rfl⟩
  | ok made =>
      have hsame := Entry.fileAt?_makeDirectories hmade
      simp only
      rw [run_bind, run_change]
      cases hwritten : made.writeFile workspace.here (directory.child name)
          (Text.Utf8.encode source) with
      | error fault =>
          simp only
          exact .inr ⟨_, made, rfl, hsame⟩
      | ok tree =>
          simp only
          refine .inl ⟨tree, rfl, ?_⟩
          rw [Entry.fileAt?_writeFile hresolved.isAbsolute hresolved.parts hparts hwritten, hsame]

/-- An action does to one file what can become of it. -/
def Steps (action : Action FileOutcome) (workspace : Workspace) (path : Path)
    (expansion : Option Expansion) (target : Option Path) : Prop :=
  FileStep workspace path expansion target (action.run workspace).1 (action.run workspace).2

variable {rest : Action FileOutcome} {expansion : Option Expansion} {target : Option Path}
  (hrest : ∀ log, Steps rest { workspace with log } path expansion target)

include hrest

theorem Steps.emit_bind (record : LogRecord) :
    Steps (emit record >>= fun _ => rest) workspace path expansion target := by
  rw [Steps, run_bind, run_emit hquiet]
  exact (hrest _).of_log

theorem Steps.emitAll_bind (records : List LogRecord) :
    Steps (emitAll records >>= fun _ => rest) workspace path expansion target := by
  rw [Steps, run_bind, run_emitAll hquiet]
  exact (hrest _).of_log

end Step

section Files

/-- Where the expansion of a file is written. -/
def targetOf (directory : Option Path) (dryRun : Bool) (name : String) : Option Path :=
  if dryRun then none else directory.map (·.child name)

/-- The paths that files are written to can be followed name by name. -/
def TargetsResolved (directory : Option Path) (dryRun : Bool) (name : String) : Prop :=
  ∀ target ∈ targetOf directory dryRun name, target.Resolved ∧ target.parts ≠ []

variable {workspace : Workspace} {unit name : String} {path : Path} {directory : Option Path}
  {dryRun : Bool}

theorem steps_expanded (source : List Char) (expansion : Expansion) :
    TargetsResolved directory dryRun name →
    Steps (if dryRun then
        pure ({ path, expansion := some expansion,
                diff := Diff.unified name source expansion.source } : FileOutcome)
      else match directory with
        | none => pure { path, expansion := some expansion }
        | some directory => do
          let written ← writeBelow directory name expansion.source
          pure { path, expansion := some expansion, written := some written })
      workspace path (some expansion) (targetOf directory dryRun name) := by
  intro htarget
  cases dryRun with
  | true => exact .kept (.inl rfl) ⟨rfl, rfl, by simp⟩
  | false =>
      cases directory with
      | none => exact .kept (.inl rfl) ⟨rfl, rfl, by simp⟩
      | some directory =>
          obtain ⟨hresolved, hparts⟩ := htarget _ rfl
          have hwrite := @writeBelow_cases workspace _ _ hresolved hparts expansion.source
          rw [Steps, if_neg Bool.false_ne_true]
          simp only
          rw [run_bind]
          obtain ⟨tree, hrun, htree⟩ | ⟨fault, tree, hrun, htree⟩ := hwrite
          · rw [hrun]
            exact .written rfl ⟨rfl, rfl, by simp⟩ htree
          · rw [hrun]
            exact .failed htree

/-- Expanding a text does to its file what can become of it. -/
theorem expandRead_steps {language : Language} (hquiet : workspace.logFile = none)
    (htarget : TargetsResolved directory dryRun name) (source : List Char) :
    Steps (expandRead language unit name path directory dryRun source) workspace path
      (expand language unit name source).toOption (targetOf directory dryRun name) := by
  apply Steps.emitAll_bind hquiet
  intro log
  have hlogged : ({ workspace with log } : Workspace).logFile = none := hquiet
  cases expand language unit name source with
  | error error =>
      apply Steps.emit_bind hlogged
      intro log
      exact .kept (.inr rfl) ⟨rfl, rfl, by simp [Except.toOption]⟩
  | ok expansion =>
      simp only
      split
      · apply Steps.emit_bind hlogged
        intro log
        exact steps_expanded source expansion htarget
      · exact steps_expanded source expansion htarget

/-- The text that an action reads from the file at a path. -/
theorem toOption_readText (hpath : path.Resolved) :
    ((readText path).run workspace).1.toOption =
      (workspace.tree.fileAt? path.parts).bind fun bytes =>
        (Text.Utf8.decode bytes).toOption.map Text.normalizeNewlines := by
  have hlook : (look fun tree here => tree.readFile here path).run workspace =
      (.ok (workspace.tree.readFile workspace.here path), workspace) := rfl
  rw [readText, run_bind, hlook]
  simp only
  rw [run_bind]
  cases hread : workspace.tree.readFile workspace.here path with
  | error fault =>
      cases hfile : workspace.tree.fileAt? path.parts with
      | none => rfl
      | some bytes =>
          rw [(Entry.readFile_eq_ok_iff hpath.isAbsolute hpath.parts).2 hfile] at hread
          cases hread
  | ok bytes =>
      have hfile : (ofFile (.ok bytes)).run workspace = (.ok bytes, workspace) := rfl
      rw [(Entry.readFile_eq_ok_iff hpath.isAbsolute hpath.parts).1 hread, Option.bind_some, hfile]
      simp only
      cases Text.Utf8.decode bytes <;> rfl

/-- A fault of reading a text is kept as its result. -/
theorem run_attempt (path : Path) :
    (tryCatch (Except.ok <$> readText path) fun fault => return Except.error fault :
        Action (Except RunFault (List Char))).run workspace =
      (.ok ((readText path).run workspace).1, workspace) := by
  rw [run_tryCatch, ← bind_pure_comp, run_bind, (reads_readText path).run_eq workspace]
  cases ((readText path).run workspace).1 <;> rfl

/-- One file of a run. -/
theorem expandFile_steps (language : Language) (unit : String) (hquiet : workspace.logFile = none)
    (htarget : TargetsResolved directory dryRun name) (hpath : path.Resolved) :
    Steps (expandFile language unit name path directory dryRun) workspace path
      (expansionOf? language unit name (workspace.tree.fileAt? path.parts))
      (targetOf directory dryRun name) := by
  have hexpansion : expansionOf? language unit name (workspace.tree.fileAt? path.parts) =
      ((readText path).run workspace).1.toOption.bind fun source =>
        (expand language unit name source).toOption := by
    rw [toOption_readText hpath, expansionOf?, Option.bind_assoc]
    simp [bind, Option.bind_map]
  rw [hexpansion, expandFile, Steps, run_bind, run_attempt]
  cases ((readText path).run workspace).1 with
  | error fault =>
      apply Steps.emit_bind hquiet
      intro log
      exact .kept (.inr rfl) ⟨rfl, rfl, by simp [Except.toOption]⟩
  | ok source => exact expandRead_steps hquiet htarget source

end Files

end Action

end Fakery
