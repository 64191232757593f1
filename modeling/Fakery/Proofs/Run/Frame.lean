import Fakery.Proofs.Run.Step

/-!
# What a run leaves behind

A run changes no file outside of the directory that it writes to.  Inside of it, a run
that ends well leaves the expansion of every source that could be expanded, each at a
place of its own and each as the source was before the run.
-/

namespace Fakery

/-- What becomes of files that are expanded one after another. -/
structure FilesStep (before : Workspace) (path : SourceFile → Path)
    (expansion : SourceFile → Option Expansion) (target : SourceFile → Option Path)
    (sources : List SourceFile) (result : Except RunFault (List FileOutcome))
    (after : Workspace) : Prop where
  quiet : after.logFile = before.logFile
  idle : (∀ file ∈ sources, target file = none) → after.tree = before.tree
  frame : ∀ names, (∀ file ∈ sources, (expansion file).isSome = true →
      ∀ written ∈ target file, names ≠ written.parts) →
    after.tree.fileAt? names = before.tree.fileAt? names
  written : ∀ outcomes, result = .ok outcomes → ∀ file ∈ sources,
    ∀ expanded ∈ expansion file, ∀ written ∈ target file,
      after.tree.fileAt? written.parts = some (Text.Utf8.encode expanded.source)
  tells : ∀ outcomes, result = .ok outcomes →
    List.Forall₂ (fun file (outcome : FileOutcome) => outcome.Tells (path file) (expansion file))
      sources outcomes

namespace FilesStep

variable {before middle after : Workspace} {path : SourceFile → Path}
  {expansion : SourceFile → Option Expansion} {target : SourceFile → Option Path}
  {file : SourceFile} {sources : List SourceFile} {outcome : FileOutcome}
  {result : Except RunFault (List FileOutcome)} {fault : RunFault}

theorem of_log {log : List LogRecord}
    (h : FilesStep { before with log } path expansion target sources result after) :
    FilesStep before path expansion target sources result after :=
  ⟨h.quiet, h.idle, h.frame, h.written, h.tells⟩

theorem nil : FilesStep before path expansion target [] (.ok []) before where
  quiet := rfl
  idle := fun _ => rfl
  frame := fun _ _ => rfl
  written := by simp
  tells := by
    intro outcomes houtcomes
    cases houtcomes
    exact .nil

theorem failed (h : FileStep before (path file) (expansion file) (target file) (.error fault) after) :
    FilesStep before path expansion target (file :: sources) (.error fault) after where
  quiet := h.logFile_eq
  idle := fun hidle => h.tree_eq (hidle file List.mem_cons_self)
  frame := fun _ hnames => h.fileAt?_eq (hnames file List.mem_cons_self)
  written := by simp
  tells := by simp

/-- Later steps keep what a step has written, since they write elsewhere. -/
theorem cons
    (h : FileStep before (path file) (expansion file) (target file) (.ok outcome) middle)
    (hrest : FilesStep middle path expansion target sources result after)
    (hapart : ∀ written ∈ target file, ∀ other ∈ sources, ∀ later ∈ target other,
      written.parts ≠ later.parts) :
    FilesStep before path expansion target (file :: sources) (result.map (outcome :: ·)) after where
  quiet := hrest.quiet.trans h.logFile_eq
  idle := by
    intro hidle
    rw [hrest.idle fun other hother => hidle other (List.mem_cons_of_mem _ hother)]
    exact h.tree_eq (hidle file List.mem_cons_self)
  frame := by
    intro names hnames
    rw [hrest.frame names fun other hother => hnames other (List.mem_cons_of_mem _ hother)]
    exact h.fileAt?_eq (hnames file List.mem_cons_self)
  written := by
    intro outcomes houtcomes other hother expanded hexpanded written hwritten
    cases result with
    | error fault => cases houtcomes
    | ok more =>
        obtain rfl | hother := List.mem_cons.1 hother
        · rw [hrest.frame _ fun later hlater _ => hapart written hwritten later hlater]
          exact h.fileAt?_written hexpanded hwritten
        · exact hrest.written more rfl other hother expanded hexpanded written hwritten
  tells := by
    intro outcomes houtcomes
    cases result with
    | error fault => cases houtcomes
    | ok more =>
        cases houtcomes
        exact .cons h.tells (hrest.tells more rfl)

end FilesStep

theorem isInside_iff {directory path : Path} (hdirectory : directory.Resolved)
    (hpath : path.Resolved) :
    Action.isInside (some directory) path = true ↔ directory.parts <+: path.parts := by
  simp [Action.isInside, Path.relativeTo?, hdirectory.mark, hpath.mark]

namespace ListedBelow

variable {path : Path} (hpath : path.Resolved) {files : List SourceFile}
  (h : ListedBelow [] files)

include hpath h

theorem child_spec {file : SourceFile} (hfile : file ∈ files) :
    (path.child file.path).Resolved ∧ path.parts <+: (path.child file.path).parts ∧
      path.parts ≠ (path.child file.path).parts := by
  obtain ⟨below, hbelow, hne, hnames⟩ := h.exists_below file hfile
  rw [List.nil_append] at hbelow
  rw [hpath.child_eq hbelow]
  refine ⟨⟨rfl, ?_⟩, List.prefix_append _ _, by simpa using hne⟩
  rw [List.mem_append, not_or]
  exact ⟨hpath.parts, fun hmem => (hnames _ hmem).ne_dots rfl⟩

theorem parts_ne_nil {file : SourceFile} (hfile : file ∈ files) :
    (path.child file.path).parts ≠ [] := by
  obtain ⟨-, hfront, hne⟩ := h.child_spec hpath hfile
  intro hnil
  rw [hnil] at hfront hne
  exact hne (List.prefix_nil.1 hfront)

/-- Files of one listing have different places below any directory. -/
theorem nodup_child : (files.map fun file => (path.child file.path).parts).Nodup := by
  have hsplit : (files.map fun file => (path.child file.path).parts) =
      (files.map fun file => Path.ofString file.path).map fun below => (path.join below).parts := by
    rw [List.map_map]
    rfl
  rw [hsplit]
  apply h.apart.map_on
  intro left hleft right hright heq
  obtain ⟨file, hfile, rfl⟩ := List.mem_map.1 hleft
  obtain ⟨other, hother, rfl⟩ := List.mem_map.1 hright
  obtain ⟨below, hbelow, -⟩ := h.exists_below file hfile
  obtain ⟨further, hfurther, -⟩ := h.exists_below other hother
  rw [List.nil_append] at hbelow hfurther
  change (path.child file.path).parts = (path.child other.path).parts at heq
  rw [hpath.child_eq hbelow, hpath.child_eq hfurther] at heq
  rw [hbelow, hfurther, List.append_cancel_left heq]

end ListedBelow

theorem ListedBelow.tail {names : List String} {file : SourceFile} {files : List SourceFile}
    (h : ListedBelow names (file :: files)) : ListedBelow names files :=
  ⟨fun other hother => h.exists_below other (List.mem_cons_of_mem _ hother),
    (List.nodup_cons.1 h.apart).2⟩

namespace Action

/-- The files that a run expands: those outside of the directory that it writes to. -/
def outside (root : Path) (directory : Option Path) (files : List SourceFile) : List SourceFile :=
  files.filter fun file => !isInside directory (root.child file.path)

section Outside

variable {root : Path} {directory : Option Path} {file : SourceFile} {files : List SourceFile}

theorem outside_cons_of_inside (h : isInside directory (root.child file.path) = true) :
    outside root directory (file :: files) = outside root directory files :=
  List.filter_cons_of_neg (by simp [h])

theorem outside_cons_of_not_inside (h : isInside directory (root.child file.path) = false) :
    outside root directory (file :: files) = file :: outside root directory files :=
  List.filter_cons_of_pos (by simp [h])

end Outside

end Action

namespace Plan

/-- The files that are expanded as planned. -/
def sources (plan : Plan) : List SourceFile :=
  Action.outside plan.manifest.root plan.directory plan.manifest.files

/-- The expansion of a source as it is among some files. -/
def expansion? (plan : Plan) (language : Language) (files : List String → Option (List UInt8))
    (file : SourceFile) :
    Option Expansion :=
  expansionOf? language plan.settings.format.unit file.path
    (files (plan.manifest.root.child file.path).parts)

/-- A directory holds the expansions of the sources, each at a place of its own, and no
other file has changed. -/
structure Mirrors (plan : Plan) (language : Language) (directory : Path)
    (before after : List String → Option (List UInt8)) (outcome : RunOutcome) : Prop where
  apart : (plan.sources.map fun file => directory.child file.path).Nodup
  written : ∀ file ∈ plan.sources, ∀ expansion ∈ plan.expansion? language before file,
    after (directory.child file.path).parts = some (Text.Utf8.encode expansion.source)
  frame : ∀ names, after names ≠ before names → ∃ file ∈ plan.sources,
    (plan.expansion? language before file).isSome = true ∧ names = (directory.child file.path).parts
  tells : List.Forall₂ (fun file (outcome : FileOutcome) =>
      outcome.Tells (plan.manifest.root.child file.path) (plan.expansion? language before file))
    plan.sources outcome.files

end Plan

namespace Action

section Run

variable {language : Language} {root : Path} {directory : Option Path} {dryRun : Bool}
  {files : List SourceFile}

theorem outside_subset : outside root directory files ⊆ files :=
  List.filter_subset_self _

theorem exists_of_mem_targetOf {name : String} {written : Path}
    (h : written ∈ targetOf directory dryRun name) :
    ∃ place ∈ directory, written = place.child name := by
  unfold targetOf at h
  split at h
  · cases h
  · obtain ⟨place, hplace, rfl⟩ := Option.map_eq_some_iff.1 h
    exact ⟨place, hplace, rfl⟩

variable (hroot : root.Resolved) (hdirectory : ∀ place ∈ directory, place.Resolved)
  (hlisted : ListedBelow [] files)

include hdirectory hlisted in
theorem targetsResolved (dryRun : Bool) {file : SourceFile} (hfile : file ∈ files) :
    TargetsResolved directory dryRun file.path := by
  intro written hwritten
  obtain ⟨place, hplace, rfl⟩ := exists_of_mem_targetOf hwritten
  exact ⟨(hlisted.child_spec (hdirectory place hplace) hfile).1,
    hlisted.parts_ne_nil (hdirectory place hplace) hfile⟩

include hroot hdirectory hlisted in
/-- No source is inside of the directory that is written to. -/
theorem not_inside_of_outside {file : SourceFile} (hfile : file ∈ outside root directory files)
    {place : Path} (hplace : place ∈ directory) :
    ¬ place.parts <+: (root.child file.path).parts := by
  obtain ⟨hmem, houtside⟩ := List.mem_filter.1 hfile
  obtain ⟨hresolved, -⟩ := hlisted.child_spec hroot hmem
  intro hinside
  cases hplace
  rw [(isInside_iff (hdirectory place rfl) hresolved).2 hinside] at houtside
  cases houtside

include hroot hdirectory hlisted in
/-- No file is written over a source. -/
theorem source_ne_target {file other : SourceFile} (hfile : file ∈ files)
    (hother : other ∈ outside root directory files) {written : Path}
    (hwritten : written ∈ targetOf directory dryRun file.path) :
    (root.child other.path).parts ≠ written.parts := by
  obtain ⟨place, hplace, rfl⟩ := exists_of_mem_targetOf hwritten
  obtain ⟨-, hinside, -⟩ := hlisted.child_spec (hdirectory place hplace) hfile
  intro heq
  rw [← heq] at hinside
  exact not_inside_of_outside hroot hdirectory hlisted hother hplace hinside

include hdirectory in
/-- No two files are written to one place. -/
theorem targets_ne {file other : SourceFile} (hlisted : ListedBelow [] (file :: files))
    (hother : other ∈ files) {written later : Path}
    (hwritten : written ∈ targetOf directory dryRun file.path)
    (hlater : later ∈ targetOf directory dryRun other.path) : written.parts ≠ later.parts := by
  obtain ⟨place, hplace, rfl⟩ := exists_of_mem_targetOf hwritten
  obtain ⟨same, hsame, rfl⟩ := exists_of_mem_targetOf hlater
  cases hplace
  cases hsame
  have hnodup := hlisted.nodup_child (hdirectory place rfl)
  rw [List.map_cons, List.nodup_cons] at hnodup
  intro heq
  exact hnodup.1 (heq ▸ List.mem_map_of_mem hother)

theorem run_expandFiles_cons {unit : String} {file : SourceFile} {workspace : Workspace}
    (houtside : isInside directory (root.child file.path) = false) :
    (expandFiles language unit root directory dryRun (file :: files)).run workspace =
      match (expandFile language unit file.path (root.child file.path) directory dryRun).run
          workspace with
      | (.error fault, after) => (.error fault, after)
      | (.ok outcome, middle) =>
        (((expandFiles language unit root directory dryRun files).run middle).1.map (outcome :: ·),
          ((expandFiles language unit root directory dryRun files).run middle).2) := by
  rw [expandFiles, if_neg (by simp [houtside]), run_bind]
  rcases (expandFile language unit file.path (root.child file.path) directory dryRun).run
    workspace with
    ⟨fault | outcome, middle⟩
  · rfl
  · simp only
    rw [run_bind]
    rcases (expandFiles language unit root directory dryRun files).run middle with
      ⟨fault | more, after⟩
    · rfl
    · rfl

include hroot hdirectory in
/-- The files of a run, one after another. -/
theorem expandFiles_step {unit : String} {workspace : Workspace}
    (hlisted : ListedBelow [] files) (hquiet : workspace.logFile = none)
    {expansion : SourceFile → Option Expansion}
    (hexpansion : ∀ file ∈ outside root directory files, expansion file =
      expansionOf? language unit file.path (workspace.tree.fileAt? (root.child file.path).parts)) :
    FilesStep workspace (fun file => root.child file.path) expansion
      (fun file => targetOf directory dryRun file.path) (outside root directory files)
      ((expandFiles language unit root directory dryRun files).run workspace).1
      ((expandFiles language unit root directory dryRun files).run workspace).2 := by
  induction files generalizing workspace with
  | nil => exact .nil
  | cons file files ih =>
      cases hinside : isInside directory (root.child file.path) with
      | true =>
          rw [outside_cons_of_inside hinside] at hexpansion ⊢
          rw [expandFiles, if_pos hinside]
          exact ih hlisted.tail hquiet hexpansion
      | false =>
          have houtside := @outside_cons_of_not_inside root directory file files hinside
          have hstep := expandFile_steps language unit hquiet
            (targetsResolved hdirectory hlisted dryRun List.mem_cons_self)
            (hlisted.child_spec hroot List.mem_cons_self).1
          rw [houtside] at hexpansion ⊢
          rw [Steps, ← hexpansion file List.mem_cons_self] at hstep
          rw [run_expandFiles_cons hinside]
          generalize (expandFile language unit file.path (root.child file.path) directory
            dryRun).run workspace = run at hstep ⊢
          obtain ⟨result, middle⟩ := run
          cases result with
          | error fault => exact .failed hstep
          | ok outcome =>
              apply FilesStep.cons hstep
              · apply ih hlisted.tail (hstep.logFile_eq.trans hquiet)
                intro other hother
                have hmem := List.mem_cons_of_mem file hother
                rw [hexpansion other hmem, hstep.fileAt?_eq]
                intro _ written hwritten
                exact source_ne_target hroot hdirectory hlisted List.mem_cons_self
                  (houtside ▸ hmem) hwritten
              · intro written hwritten other hother later hlater
                exact targets_ne hdirectory hlisted (outside_subset hother) hwritten hlater

end Run

/-- Besides expanding files, a run leaves log records. -/
theorem exists_filesStep (tools : Tools) (options : RunOptions) {plan : Plan}
    {workspace : Workspace}
    (hplan : plan.Sound workspace.tree) (hquiet : workspace.logFile = none) :
    ∃ result after,
      FilesStep workspace (fun file => plan.manifest.root.child file.path)
        (plan.expansion? tools.language workspace.tree.fileAt?)
        (fun file => targetOf plan.directory options.dryRun file.path) plan.sources result after ∧
      ((carryOut tools options plan).run workspace).1 = result.map (⟨plan.manifest.root, ·⟩) ∧
      ((carryOut tools options plan).run workspace).2.tree = after.tree := by
  rw [carryOut, run_bind, run_emit hquiet]
  simp only
  rw [run_bind]
  generalize workspace.log ++ [_] = log
  have hlogged : ({ workspace with log } : Workspace).logFile = none := hquiet
  have hstep : FilesStep { workspace with log } (fun file => plan.manifest.root.child file.path)
      (plan.expansion? tools.language workspace.tree.fileAt?)
      (fun file => targetOf plan.directory options.dryRun file.path) plan.sources _ _ :=
    expandFiles_step hplan.root hplan.directory hplan.listed hlogged fun _ _ => rfl
  generalize (expandFiles tools.language plan.settings.format.unit plan.manifest.root plan.directory
    options.dryRun plan.manifest.files).run { workspace with log } = run at hstep ⊢
  obtain ⟨result, after⟩ := run
  refine ⟨result, after, hstep.of_log, ?_⟩
  cases result with
  | error fault => exact ⟨rfl, rfl⟩
  | ok files =>
      simp only
      rw [run_bind, run_emit (hstep.quiet.trans hquiet)]
      exact ⟨rfl, rfl⟩

/-- A run carries out what it has planned. -/
theorem run_expandPath {tools : Tools} {options : RunOptions} {path : String}
    {workspace : Workspace} {made : Plan}
    (hmade : ((plan tools options path).run workspace).1 = .ok made) :
    (expandPath tools options path).run workspace =
      (carryOut tools options made).run workspace := by
  rw [expandPath_eq, run_bind, (reads_plan options path).run_eq workspace, hmade]

end Action

namespace Plan

variable {language : Language} {plan : Plan} {dryRun : Bool} {before after : Workspace}
  {result : Except RunFault (List FileOutcome)}
  (h : FilesStep before (fun file => plan.manifest.root.child file.path)
    (plan.expansion? language before.tree.fileAt?)
    (fun file => Action.targetOf plan.directory dryRun file.path) plan.sources result after)

include h

theorem tree_eq (hidle : dryRun = true ∨ plan.directory = none) : after.tree = before.tree := by
  apply h.idle
  intro file _
  rcases hidle with hdry | hnone
  · simp [Action.targetOf, hdry]
  · simp [Action.targetOf, hnone]

variable (hplan : plan.Sound before.tree) {directory : Path} (hdirectory : plan.directory = some directory)

include hplan hdirectory

/-- A file that changes is strictly inside of the directory that is written to. -/
theorem fileAt?_eq {names : List String}
    (hnames : ¬ (directory.parts <+: names ∧ directory.parts ≠ names)) :
    after.tree.fileAt? names = before.tree.fileAt? names := by
  apply h.frame
  rintro file hfile - written hwritten rfl
  obtain ⟨place, hplace, rfl⟩ := Action.exists_of_mem_targetOf hwritten
  rw [hdirectory] at hplace
  cases hplace
  exact hnames (hplan.listed.child_spec (hplan.directory directory hdirectory)
    (Action.outside_subset hfile)).2

/-- A run that is not dry mirrors its sources in the output directory. -/
theorem mirrors (hdry : dryRun = false) {files : List FileOutcome} (hok : result = .ok files) :
    plan.Mirrors language directory before.tree.fileAt? after.tree.fileAt?
      ⟨plan.manifest.root, files⟩ := by
  have htarget : ∀ file : SourceFile, Action.targetOf plan.directory dryRun file.path =
      some (directory.child file.path) := by
    intro file
    simp [Action.targetOf, hdry, hdirectory]
  constructor
  · have hparts := hplan.listed.nodup_child (hplan.directory directory hdirectory)
    apply List.Nodup.of_map Path.parts
    rw [List.map_map]
    exact hparts.sublist (List.filter_sublist.map _)
  · intro file hfile expansion hexpansion
    exact h.written files hok file hfile expansion hexpansion _ (htarget file)
  · intro names hne
    by_contra hnone
    push Not at hnone
    apply hne
    apply h.frame
    intro file hfile hsome written hwritten
    rw [htarget file] at hwritten
    cases hwritten
    exact hnone file hfile hsome
  · exact h.tells files hok

end Plan

section Returned

open Fakery.Action

variable {tools : Tools} {options : RunOptions} {path : String} {workspace : Workspace}
  (hworkspace : workspace.Sound) {made : Plan}
  (hmade : ((plan tools options path).run workspace).1 = .ok made) {outcome : RunOutcome}
  (hok : ((expandPath tools options path).run workspace).1 = .ok outcome)

include hworkspace hmade hok

/-- A run that succeeds goes through the files of its plan step by step. -/
theorem exists_filesStep_of_run :
    ∃ after, FilesStep workspace (fun file => made.manifest.root.child file.path)
        (made.expansion? tools.language workspace.tree.fileAt?)
        (fun file => targetOf made.directory options.dryRun file.path) made.sources
        (.ok outcome.files) after ∧ outcome.root = made.manifest.root ∧
      ((expandPath tools options path).run workspace).2.tree = after.tree := by
  obtain ⟨result, after, hstep, hresult, htree⟩ :=
    exists_filesStep tools options (sound_of_plan hworkspace hmade) hworkspace.quiet
  rw [run_expandPath hmade] at hok ⊢
  rw [hresult] at hok
  cases result with
  | error fault => cases hok
  | ok files =>
      cases hok
      exact ⟨after, hstep, rfl, htree⟩

theorem mirrors_of_run {directory : Path} (hdirectory : made.directory = some directory)
    (hdry : options.dryRun = false) :
    made.Mirrors tools.language directory workspace.tree.fileAt?
      ((expandPath tools options path).run workspace).2.tree.fileAt? outcome := by
  obtain ⟨after, hstep, hroot, htree⟩ := exists_filesStep_of_run hworkspace hmade hok
  obtain ⟨root, files⟩ := outcome
  cases hroot
  rw [htree]
  exact made.mirrors hstep (sound_of_plan hworkspace hmade) hdirectory hdry rfl

end Returned

open Fakery.Action in
/-- A run changes files only inside of the directory that it writes to, and there it leaves
the expansions of the sources as they were. -/
theorem expandPath_mirrors (tools : Tools) (options : RunOptions) (path : String)
    (workspace : Workspace)
    (hworkspace : workspace.Sound) :
    let run := (expandPath tools options path).run workspace
    (∀ fault, ((plan tools options path).run workspace).1 = .error fault →
      run = (.error fault, workspace)) ∧
    ∀ made, ((plan tools options path).run workspace).1 = .ok made →
      (options.dryRun = true ∨ made.directory = none → run.2.tree = workspace.tree) ∧
      ∀ directory, made.directory = some directory →
        (∀ names, ¬ (directory.parts <+: names ∧ directory.parts ≠ names) →
          run.2.tree.fileAt? names = workspace.tree.fileAt? names) ∧
        (options.dryRun = false → ∀ outcome, run.1 = .ok outcome →
          made.Mirrors tools.language directory workspace.tree.fileAt? run.2.tree.fileAt?
            outcome) := by
  intro run
  have hrun : run = (plan tools options path >>= carryOut tools options).run workspace := by
    rw [← expandPath_eq]
  rw [run_bind, (reads_plan options path).run_eq workspace] at hrun
  constructor
  · intro fault hfault
    rw [hrun, hfault]
  intro made hmade
  rw [hmade] at hrun
  have hsound := sound_of_plan hworkspace hmade
  obtain ⟨result, after, hstep, hresult, htree⟩ :=
    exists_filesStep tools options hsound hworkspace.quiet
  rw [hrun]
  simp only [hresult, htree]
  refine ⟨made.tree_eq hstep, fun directory hdirectory =>
    ⟨fun names hnames => made.fileAt?_eq hstep hsound hdirectory hnames, ?_⟩⟩
  intro hdry outcome houtcome
  cases hfiles : result with
  | error fault =>
      rw [hfiles] at houtcome
      cases houtcome
  | ok files =>
      rw [hfiles] at houtcome
      cases houtcome
      exact made.mirrors hstep hsound hdirectory hdry hfiles

/-- A source directory with the directory that it is expanded to inside of it. -/
def mirroredInside : Workspace where
  tree := .directory [("src", .directory [
    ("out", .directory [("Old.swift", .file (Text.Utf8.encode "struct Old \x7b\x7d".toList))]),
    ("Dot.swift", .file (Text.Utf8.encode "@AutoFake struct Dot \x7b\x7d".toList))])]
  here := ["src"]
  home := []

theorem mirroredInside_sound : mirroredInside.Sound where
  root := rfl
  tree := by
    have hout : (Entry.directory [("Old.swift", .file
        (Text.Utf8.encode "struct Old \x7b\x7d".toList))]).Sound := by
      refine .directory (by decide) (by simp; decide) ?_
      simpa using .file _
    refine .directory (by decide) (by simp; decide) ?_
    rw [List.forall_mem_singleton]
    refine .directory (by decide) (by simp; decide) ?_
    simpa using ⟨hout, .file _⟩
  here := by decide
  quiet := rfl

open Fakery.Action in
theorem expandPath_mirrors_inside :
    let run := (expandPath .standard { outputDirectory := some "out" } ".").run mirroredInside
    ∃ made outcome,
      ((plan .standard { outputDirectory := some "out" } ".").run mirroredInside).1 = .ok made ∧
      made.manifest.files.map (·.path) = ["Dot.swift", "out/Old.swift"] ∧
      made.directory = some ⟨"/", ["src", "out"]⟩ ∧ run.1 = .ok outcome ∧
      made.Mirrors swift ⟨"/", ["src", "out"]⟩ mirroredInside.tree.fileAt? run.2.tree.fileAt?
        outcome := by
  have hplan : ((plan .standard { outputDirectory := some "out" } ".").run
    mirroredInside).1.toOption.map
      (fun made => (made.manifest.files.map (·.path), made.directory)) =
        some (["Dot.swift", "out/Old.swift"], some ⟨"/", ["src", "out"]⟩) := by
    decide +kernel
  have hok : ((expandPath .standard { outputDirectory := some "out" } ".").run
      mirroredInside).1.toOption.isSome = true := by
    decide +kernel
  obtain ⟨made, hmade, hfiles⟩ := Option.map_eq_some_iff.1 hplan
  obtain ⟨hpaths, hdirectory⟩ := Prod.mk.inj hfiles
  obtain ⟨outcome, houtcome⟩ := Option.isSome_iff_exists.1 hok
  replace hmade := eq_ok_of_toOption hmade
  replace houtcome := eq_ok_of_toOption houtcome
  exact ⟨made, outcome, hmade, hpaths, hdirectory, houtcome,
    (((expandPath_mirrors _ _ _ _ mirroredInside_sound).2 made hmade).2 _ hdirectory).2 rfl
      outcome houtcome⟩

end Fakery
