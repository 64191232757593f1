import Fakery.Proofs.Files.Writing
import Fakery.Proofs.Run.Frame

/-!
# What a run records

A file that cannot be decoded or expanded has its error on its own outcome.  A run returns
exactly if every expansion can be written, and then it has one outcome for each source, in
the order of the listing.
-/

namespace Fakery

def FileOutcome.ofBytes (language : Language) (unit name : String) (path : Path)
    (directory : Option Path)
    (dryRun : Bool) (bytes : List UInt8) : FileOutcome :=
  match Text.Utf8.decode bytes with
  | .error fault => { path, error := some (name ++ ": " ++ fault.message) }
  | .ok text =>
    match expand language unit name (Text.normalizeNewlines text) with
    | .error error => { path, error := some error.message }
    | .ok expansion =>
      if dryRun then
        { path, expansion := some expansion
          diff := Diff.unified name (Text.normalizeNewlines text) expansion.source }
      else { path, expansion := some expansion, written := directory.map (·.child name) }

/-- The outcome of a file tells of the expansion of its bytes. -/
theorem FileOutcome.tells_ofBytes (language : Language) (unit name : String) (path : Path)
    (directory : Option Path) (dryRun : Bool) (bytes : List UInt8) :
    (ofBytes language unit name path directory dryRun bytes).Tells path
      (expansionOf? language unit name (some bytes)) := by
  unfold ofBytes
  cases hdecode : Text.Utf8.decode bytes with
  | error fault =>
      rw [expansionOf?_of_fault unit name hdecode]
      exact ⟨rfl, rfl, by simp⟩
  | ok text =>
      rw [expansionOf?_of_decode unit name hdecode]
      simp only
      cases expand language unit name (Text.normalizeNewlines text) with
      | error error => exact ⟨rfl, rfl, by simp [Except.toOption]⟩
      | ok expansion => cases dryRun <;> exact ⟨rfl, rfl, by simp [Except.toOption]⟩

namespace Action

section File

variable {language : Language} {workspace : Workspace} {unit name : String} {path : Path}
  {directory : Option Path} {dryRun : Bool} {bytes : List UInt8}

/-- A file that is there is read as its decoded text with normal line ends. -/
theorem run_readText (hpath : path.Resolved)
    (hbytes : workspace.tree.fileAt? path.parts = some bytes) :
    (readText path).run workspace =
      (match Text.Utf8.decode bytes with
      | .ok text => .ok (Text.normalizeNewlines text)
      | .error fault => .error (.decoding fault), workspace) := by
  have hread : workspace.tree.readFile workspace.here path = .ok bytes :=
    (Entry.readFile_eq_ok_iff hpath.isAbsolute hpath.parts).2 hbytes
  change (ofFile (workspace.tree.readFile workspace.here path) >>= _ : Action _).run workspace = _
  rw [hread]
  change (match Text.Utf8.decode bytes with
    | .ok text => pure (Text.normalizeNewlines text)
    | .error fault => throw (.decoding fault) : Action _).run workspace = _
  cases Text.Utf8.decode bytes <;> rfl

/-- What is left to do for a file once its outcome is known. -/
def finish (name : String) (outcome : FileOutcome) : Option (Path × List Char) → Action FileOutcome
  | none => pure outcome
  | some (directory, source) => writeBelow directory name source >>= fun _ => pure outcome

/-- The directory and the text that a file is written with. -/
def writing? (directory : Option Path) (dryRun : Bool) (expansion : Option Expansion) :
    Option (Path × List Char) :=
  if dryRun then none else directory.bind fun place => expansion.map fun expanded => (place, expanded.source)

theorem writing?_none : writing? directory dryRun none = none := by
  cases directory <;> simp [writing?]

theorem expanded_eq_finish (source : List Char) (expansion : Expansion) :
    (if dryRun then
      pure ({ path, expansion := some expansion,
              diff := Diff.unified name source expansion.source } : FileOutcome)
    else match directory with
      | none => pure { path, expansion := some expansion }
      | some directory => do
        let written ← writeBelow directory name expansion.source
        pure { path, expansion := some expansion, written := some written }) =
    finish name
      (if dryRun then { path, expansion := some expansion
                        diff := Diff.unified name source expansion.source }
      else { path, expansion := some expansion, written := directory.map (·.child name) })
      (writing? directory dryRun (some expansion)) := by
  cases dryRun with
  | true => rfl
  | false =>
      cases directory with
      | none => rfl
      | some directory =>
          change (writeBelow directory name expansion.source >>= fun written => _) =
            (writeBelow directory name expansion.source >>= fun _ => _)
          simp only [writeBelow, bind_assoc, pure_bind]
          rfl

/-- Besides leaving log records, expanding a file writes its expansion. -/
theorem exists_run_expandFile (hquiet : workspace.logFile = none) (hpath : path.Resolved)
    (hbytes : workspace.tree.fileAt? path.parts = some bytes) :
    ∃ log, (expandFile language unit name path directory dryRun).run workspace =
      (finish name (.ofBytes language unit name path directory dryRun bytes)
        (writing? directory dryRun (expansionOf? language unit name (some bytes)))).run
          { workspace with log } := by
  rw [expandFile, run_bind, run_attempt, run_readText hpath hbytes, FileOutcome.ofBytes]
  cases hdecode : Text.Utf8.decode bytes with
  | error fault =>
      simp only
      rw [run_bind, run_emit hquiet, expansionOf?_of_fault unit name hdecode, writing?_none]
      exact ⟨_, rfl⟩
  | ok text =>
      simp only
      rw [expandRead, run_bind, run_emitAll hquiet, expansionOf?_of_decode unit name hdecode]
      generalize workspace.log ++ _ = log
      have hlogged : ({ workspace with log } : Workspace).logFile = none := hquiet
      cases expand language unit name (Text.normalizeNewlines text) with
      | error error =>
          simp only
          rw [run_bind, run_emit hlogged, Except.toOption, writing?_none]
          exact ⟨_, rfl⟩
      | ok expansion =>
          have hrest := @expanded_eq_finish name path directory dryRun
            (Text.normalizeNewlines text) expansion
          simp only
          split
          · rw [run_bind, run_emit hlogged]
            exact ⟨_, congrArg (fun action : Action FileOutcome => action.run _) hrest⟩
          · exact ⟨log, congrArg (fun action : Action FileOutcome => action.run _) hrest⟩

/-- A write to a place that accepts a file succeeds. -/
theorem run_writeBelow_of_accepts {directory : Path} (hresolved : (directory.child name).Resolved)
    (hparts : (directory.child name).parts ≠ []) (source : List Char)
    (haccepts : workspace.tree.Accepts (directory.child name).parts) :
    ∃ tree, (writeBelow directory name source).run workspace =
        (.ok (directory.child name), { workspace with tree }) ∧
      tree.kind? = Entry.kindsAfter workspace.tree.kind? (directory.child name).parts
        (Text.Utf8.encode source) := by
  obtain ⟨made, tree, hmade, hwritten, hkinds⟩ := @Entry.exists_written _ workspace.here _
    hresolved.isAbsolute hresolved.parts hparts (Text.Utf8.encode source) haccepts
  refine ⟨tree, ?_, hkinds⟩
  rw [writeBelow, run_bind, run_change, hmade]
  simp only
  rw [run_bind, run_change, hwritten]
  rfl

theorem run_writeBelow_of_not_accepts {directory : Path}
    (hresolved : (directory.child name).Resolved) (hparts : (directory.child name).parts ≠ [])
    (source : List Char) (haccepts : ¬ workspace.tree.Accepts (directory.child name).parts) :
    ∃ fault, ((writeBelow directory name source).run workspace).1 = .error fault := by
  obtain ⟨fault, hfault⟩ | ⟨made, fault, hmade, hfault⟩ := @Entry.exists_fault _ workspace.here _
    hresolved.isAbsolute hresolved.parts hparts (Text.Utf8.encode source) haccepts
  · rw [writeBelow, run_bind, run_change, hfault]
    exact ⟨_, rfl⟩
  · rw [writeBelow, run_bind, run_change, hmade]
    simp only
    rw [run_bind, run_change, hfault]
    exact ⟨_, rfl⟩

end File

/-- Two files of a listing, neither of which is above the other. -/
def Apart (file other : SourceFile) : Prop :=
  ¬ (Path.ofString file.path).parts <+: (Path.ofString other.path).parts ∧
    ¬ (Path.ofString other.path).parts <+: (Path.ofString file.path).parts

end Action

theorem ListedBelow.parts_child {files : List SourceFile} (h : ListedBelow [] files) {path : Path}
    (hpath : path.Resolved) {file : SourceFile} (hfile : file ∈ files) :
    (path.child file.path).parts = path.parts ++ (Path.ofString file.path).parts := by
  obtain ⟨below, hbelow, -⟩ := h.exists_below file hfile
  rw [hpath.child_eq hbelow, hbelow]

/-- A file of a tree is not above another one. -/
theorem Manifest.Sound.not_above {manifest : Manifest} {tree : Entry} (h : manifest.Sound tree)
    {file other : SourceFile} (hfile : file ∈ manifest.files) (hother : other ∈ manifest.files)
    (hne : Path.ofString file.path ≠ Path.ofString other.path) :
    ¬ (Path.ofString file.path).parts <+: (Path.ofString other.path).parts := by
  intro hfront
  have hproper : (Path.ofString file.path).parts ≠ (Path.ofString other.path).parts := by
    obtain ⟨below, hbelow, -⟩ := h.listed.exists_below file hfile
    obtain ⟨further, hfurther, -⟩ := h.listed.exists_below other hother
    rw [hbelow, hfurther] at hne ⊢
    exact fun heq => hne (congrArg (Path.mk "") heq)
  obtain ⟨own, hown⟩ := Option.isSome_iff_exists.1 (h.there file hfile)
  obtain ⟨bytes, hbytes⟩ := Option.isSome_iff_exists.1 (h.there other hother)
  obtain ⟨entry, hentry, -⟩ := Option.bind_eq_some_iff.1 hbytes
  rw [h.listed.parts_child h.root hfile, ← Entry.kind?_eq_file_iff] at hown
  rw [h.listed.parts_child h.root hother] at hentry
  rw [Entry.kind?_above hentry ((List.prefix_append_right_inj _).2 hfront)
    fun heq => hproper (List.append_cancel_left heq)] at hown
  cases hown

theorem Manifest.Sound.apart {manifest : Manifest} {tree : Entry} (h : manifest.Sound tree) :
    manifest.files.Pairwise Action.Apart := by
  have hdistinct := List.pairwise_map.1 h.listed.apart
  apply hdistinct.imp_of_mem
  intro file other hfile hother hne
  exact ⟨h.not_above hfile hother hne, h.not_above hother hfile (Ne.symm hne)⟩

namespace Action

section Files

variable {language : Language} {unit : String} {root : Path} {directory : Option Path}
  {dryRun : Bool}
  {files : List SourceFile}

/-- The expansions of files can be written. -/
def Writable (tree : Entry) (expansion : SourceFile → Option Expansion)
    (target : SourceFile → Option Path) (sources : List SourceFile) : Prop :=
  ∀ file ∈ sources, (expansion file).isSome = true →
    ∀ written ∈ target file, tree.Accepts written.parts

/-- What becomes of a file whose bytes are there: an outcome that tells of them, and at most
one more file. -/
inductive Recorded (before : Workspace) (outcome : FileOutcome) (expansion : Option Expansion) :
    Option Path → Except RunFault FileOutcome → Workspace → Prop
  | kept {target : Option Path} {log : List LogRecord} (hidle : target = none ∨ expansion = none) :
      Recorded before outcome expansion target (.ok outcome) { before with log }
  | written {target : Path} {content : List UInt8} {tree : Entry} {log : List LogRecord}
      (haccepts : before.tree.Accepts target.parts)
      (hkinds : tree.kind? = Entry.kindsAfter before.tree.kind? target.parts content) :
      Recorded before outcome expansion (some target) (.ok outcome) { before with tree, log }
  | refused {target : Path} {fault : RunFault} {after : Workspace}
      (hexpansion : expansion.isSome = true) (hrefuses : ¬ before.tree.Accepts target.parts) :
      Recorded before outcome expansion (some target) (.error fault) after

namespace Recorded

variable {before after : Workspace} {outcome found : FileOutcome} {expansion : Option Expansion}
  {target : Option Path} (h : Recorded before outcome expansion target (.ok found) after)

include h

theorem eq_outcome : found = outcome := by
  cases h <;> rfl

theorem logFile_eq : after.logFile = before.logFile := by
  cases h <;> rfl

theorem fileAt?_eq {names : List String} (hnames : ∀ written ∈ target, names ≠ written.parts) :
    after.tree.fileAt? names = before.tree.fileAt? names := by
  cases h with
  | kept => rfl
  | written haccepts hkinds => exact Entry.fileAt?_of_kinds haccepts hkinds (hnames _ rfl)

/-- A step leaves the places alone that are neither above nor below the file it writes. -/
theorem accepts_iff {names : List String} (hnames : ∀ written ∈ target,
    ¬ written.parts <+: names ∧ ¬ names <+: written.parts) :
    after.tree.Accepts names ↔ before.tree.Accepts names := by
  cases h with
  | kept => exact Iff.rfl
  | written haccepts hkinds =>
      exact Entry.accepts_iff_of_kinds haccepts hkinds (hnames _ rfl).1 (hnames _ rfl).2

/-- What a step has written could be written. -/
theorem accepts (hexpansion : expansion.isSome = true) {written : Path} (hwritten : written ∈ target) :
    before.tree.Accepts written.parts := by
  cases h with
  | kept hidle =>
      rcases hidle with rfl | rfl
      · cases hwritten
      · cases hexpansion
  | written haccepts hkinds =>
      cases hwritten
      exact haccepts

theorem writable_iff {others : SourceFile → Option Expansion} {targets : SourceFile → Option Path}
    {sources : List SourceFile} (hapart : ∀ written ∈ target, ∀ other ∈ sources,
      ∀ later ∈ targets other, ¬ written.parts <+: later.parts ∧ ¬ later.parts <+: written.parts) :
    Writable after.tree others targets sources ↔ Writable before.tree others targets sources := by
  apply forall₂_congr
  intro other hother
  apply forall_congr'
  intro _
  apply forall₂_congr
  intro later hlater
  apply h.accepts_iff
  intro written hwritten
  exact hapart written hwritten other hother later hlater

omit h in
theorem not_accepts {fault : RunFault}
    (h : Recorded before outcome expansion target (.error fault) after) :
    expansion.isSome = true ∧ ∃ written ∈ target, ¬ before.tree.Accepts written.parts := by
  cases h with
  | refused hexpansion hrefuses => exact ⟨hexpansion, _, rfl, hrefuses⟩

end Recorded

/-- One file of a run. -/
theorem expandFile_recorded {workspace : Workspace} {name : String} {path : Path}
    {bytes : List UInt8} (hquiet : workspace.logFile = none) (hpath : path.Resolved)
    (htarget : TargetsResolved directory dryRun name)
    (hbytes : workspace.tree.fileAt? path.parts = some bytes) :
    Recorded workspace (.ofBytes language unit name path directory dryRun bytes)
      (expansionOf? language unit name (some bytes)) (targetOf directory dryRun name)
      ((expandFile language unit name path directory dryRun).run workspace).1
      ((expandFile language unit name path directory dryRun).run workspace).2 := by
  obtain ⟨log, hrun⟩ := @exists_run_expandFile language _ unit name path directory dryRun _ hquiet
    hpath
    hbytes
  rw [hrun]
  generalize FileOutcome.ofBytes language unit name path directory dryRun bytes = outcome
  cases hexpansion : expansionOf? language unit name (some bytes) with
  | none =>
      rw [writing?_none]
      exact .kept (.inr rfl)
  | some expansion =>
      cases dryRun with
      | true => exact .kept (.inl rfl)
      | false =>
          cases directory with
          | none => exact .kept (.inl rfl)
          | some directory =>
              obtain ⟨hresolved, hparts⟩ := htarget _ rfl
              change Recorded _ _ _ (some (directory.child name))
                ((writeBelow directory name expansion.source >>= fun _ => pure outcome).run _).1
                ((writeBelow directory name expansion.source >>= fun _ => pure outcome).run _).2
              rw [run_bind]
              by_cases haccepts : workspace.tree.Accepts (directory.child name).parts
              · obtain ⟨tree, hwrite, hkinds⟩ := @run_writeBelow_of_accepts
                  { workspace with log } _ _ hresolved hparts expansion.source haccepts
                rw [hwrite]
                exact .written haccepts hkinds
              · obtain ⟨fault, hfault⟩ := @run_writeBelow_of_not_accepts
                  { workspace with log } _ _ hresolved hparts expansion.source haccepts
                generalize (writeBelow directory name expansion.source).run _ = run at hfault ⊢
                obtain ⟨result, after⟩ := run
                cases hfault
                exact .refused rfl haccepts

theorem writable_cons_iff {tree : Entry} {expansion : SourceFile → Option Expansion}
    {target : SourceFile → Option Path} {file : SourceFile} {sources : List SourceFile} :
    Writable tree expansion target (file :: sources) ↔
      ((expansion file).isSome = true → ∀ written ∈ target file, tree.Accepts written.parts) ∧
        Writable tree expansion target sources :=
  List.forall_mem_cons

theorem map_eq_ok_iff {α β : Type} {f : α → β} {result : Except RunFault α} {b : β} :
    result.map f = .ok b ↔ ∃ a, result = .ok a ∧ b = f a := by
  cases result with
  | error fault => simp [Except.map]
  | ok a => simp [Except.map, eq_comm]

/-- Files that stand apart are written to paths of which neither leads to the other. -/
theorem targets_apart (hdirectory : ∀ place ∈ directory, place.Resolved)
    (hlisted : ListedBelow [] files) {file other : SourceFile} (hfile : file ∈ files)
    (hother : other ∈ files) (hapart : Apart file other) {written later : Path}
    (hwritten : written ∈ targetOf directory dryRun file.path)
    (hlater : later ∈ targetOf directory dryRun other.path) :
    ¬ written.parts <+: later.parts ∧ ¬ later.parts <+: written.parts := by
  obtain ⟨place, hplace, rfl⟩ := exists_of_mem_targetOf hwritten
  obtain ⟨same, hsame, rfl⟩ := exists_of_mem_targetOf hlater
  cases hplace
  cases hsame
  rw [hlisted.parts_child (hdirectory place rfl) hfile,
    hlisted.parts_child (hdirectory place rfl) hother, List.prefix_append_right_inj,
    List.prefix_append_right_inj]
  exact hapart

/-- What is written for a file is none of the sources behind it. -/
theorem Recorded.sources_kept {before after : Workspace} {file : SourceFile}
    {outcome found : FileOutcome} {expansion : Option Expansion}
    (h : Recorded before outcome expansion (targetOf directory dryRun file.path) (.ok found) after)
    (hroot : root.Resolved) (hdirectory : ∀ place ∈ directory, place.Resolved)
    (hlisted : ListedBelow [] (file :: files))
    (hinside : isInside directory (root.child file.path) = false)
    {bytes : SourceFile → List UInt8} (hbytes : ∀ other ∈ outside root directory (file :: files),
      before.tree.fileAt? (root.child other.path).parts = some (bytes other)) :
    ∀ other ∈ outside root directory files,
      after.tree.fileAt? (root.child other.path).parts = some (bytes other) := by
  intro other hother
  have hmem : other ∈ outside root directory (file :: files) := by
    rw [outside_cons_of_not_inside hinside]
    exact List.mem_cons_of_mem _ hother
  rw [h.fileAt?_eq, hbytes other hmem]
  intro written hwritten
  exact source_ne_target hroot hdirectory hlisted List.mem_cons_self hmem hwritten

/-- Files are expanded to the end exactly if every expansion can be written. -/
theorem run_expandFiles_eq_ok_iff {workspace : Workspace} (hroot : root.Resolved)
    (hdirectory : ∀ place ∈ directory, place.Resolved) (hlisted : ListedBelow [] files)
    (hapart : files.Pairwise Apart) (hquiet : workspace.logFile = none)
    {bytes : SourceFile → List UInt8} (hbytes : ∀ file ∈ outside root directory files,
      workspace.tree.fileAt? (root.child file.path).parts = some (bytes file))
    {outcomes : List FileOutcome} :
    ((expandFiles language unit root directory dryRun files).run workspace).1 = .ok outcomes ↔
      Writable workspace.tree (fun file => expansionOf? language unit file.path (some (bytes file)))
          (fun file => targetOf directory dryRun file.path) (outside root directory files) ∧
        outcomes = (outside root directory files).map fun file =>
          .ofBytes language unit file.path (root.child file.path) directory dryRun
            (bytes file) := by
  induction files generalizing workspace outcomes with
  | nil =>
      change Except.ok [] = Except.ok outcomes ↔ _
      rw [Except.ok.injEq, eq_comm]
      simp [outside, Writable]
  | cons file files ih =>
      rw [List.pairwise_cons] at hapart
      cases hinside : isInside directory (root.child file.path) with
      | true =>
          rw [outside_cons_of_inside hinside] at hbytes ⊢
          rw [expandFiles, if_pos hinside]
          exact ih hlisted.tail hapart.2 hquiet hbytes
      | false =>
          have houtside := @outside_cons_of_not_inside root directory file files hinside
          have hstep := @expandFile_recorded language unit directory dryRun _ _ _ _ hquiet
            (hlisted.child_spec hroot List.mem_cons_self).1
            (targetsResolved hdirectory hlisted dryRun List.mem_cons_self)
            (hbytes file (by simp [houtside]))
          rw [houtside, writable_cons_iff, run_expandFiles_cons hinside]
          generalize (expandFile language unit file.path (root.child file.path) directory
            dryRun).run workspace = run at hstep ⊢
          obtain ⟨result, middle⟩ := run
          cases result with
          | error fault =>
              obtain ⟨hexpansion, written, hwritten, hrefuses⟩ := hstep.not_accepts
              refine iff_of_false (fun h => by cases h) ?_
              rintro ⟨⟨haccepts, -⟩, -⟩
              exact hrefuses (haccepts hexpansion written hwritten)
          | ok found =>
              have hfound := hstep.eq_outcome
              subst hfound
              have hkept := hstep.sources_kept hroot hdirectory hlisted hinside hbytes
              have hrest := fun more => @ih middle hlisted.tail hapart.2
                (hstep.logFile_eq.trans hquiet) hkept more
              rw [hstep.writable_iff] at hrest
              · rw [map_eq_ok_iff]
                simp only [hrest, List.map_cons, and_iff_right (fun h written hwritten =>
                  hstep.accepts h hwritten)]
                grind
              · intro written hwritten other hother later hlater
                have hmem := outside_subset hother
                exact targets_apart hdirectory hlisted List.mem_cons_self
                  (List.mem_cons_of_mem _ hmem) (hapart.1 other hmem) hwritten hlater

theorem exists_result_carryOut (tools : Tools) (options : RunOptions) (plan : Plan)
    {workspace : Workspace}
    (hquiet : workspace.logFile = none) :
    ∃ log, ((carryOut tools options plan).run workspace).1 =
      ((expandFiles tools.language plan.settings.format.unit plan.manifest.root plan.directory
        options.dryRun plan.manifest.files).run { workspace with log }).1.map
          (⟨plan.manifest.root, ·⟩) := by
  rw [carryOut, run_bind, run_emit hquiet]
  simp only
  rw [run_bind]
  generalize workspace.log ++ [_] = log
  refine ⟨log, ?_⟩
  rcases (expandFiles tools.language plan.settings.format.unit plan.manifest.root plan.directory
    options.dryRun plan.manifest.files).run { workspace with log } with ⟨fault | files, after⟩
  · rfl
  · rfl

end Files

end Action

namespace Plan

/-- The outcome of a source as it is among some files. -/
def outcome? (plan : Plan) (language : Language) (dryRun : Bool)
    (files : List String → Option (List UInt8)) (file : SourceFile) : Option FileOutcome :=
  (files (plan.manifest.root.child file.path).parts).map
    (.ofBytes language plan.settings.format.unit file.path (plan.manifest.root.child file.path)
      plan.directory dryRun)

/-- Every expansion can be written in a tree. -/
def Writable (plan : Plan) (language : Language) (dryRun : Bool) (tree : Entry) : Prop :=
  ∀ file ∈ plan.sources, (plan.expansion? language tree.fileAt? file).isSome = true →
    ∀ written ∈ Action.targetOf plan.directory dryRun file.path, tree.Accepts written.parts

def bytes (plan : Plan) (tree : Entry) (file : SourceFile) : List UInt8 :=
  (tree.fileAt? (plan.manifest.root.child file.path).parts).getD []

section Sources

variable {language : Language} {plan : Plan} {tree : Entry} (hplan : plan.Sound tree)

include hplan

theorem fileAt?_eq_bytes {file : SourceFile} (hfile : file ∈ plan.sources) :
    tree.fileAt? (plan.manifest.root.child file.path).parts = some (plan.bytes tree file) := by
  obtain ⟨content, hcontent⟩ :=
    Option.isSome_iff_exists.1 (hplan.there file (Action.outside_subset hfile))
  rw [bytes, hcontent, Option.getD_some]

theorem map_outcome? (dryRun : Bool) :
    plan.sources.map (plan.outcome? language dryRun tree.fileAt?) =
      (plan.sources.map fun file => FileOutcome.ofBytes language plan.settings.format.unit file.path
        (plan.manifest.root.child file.path) plan.directory dryRun
        (plan.bytes tree file)).map some := by
  rw [List.map_map]
  apply List.map_congr_left
  intro file hfile
  rw [outcome?, fileAt?_eq_bytes hplan hfile]
  rfl

end Sources

/-- A plan is carried out to the end exactly if every expansion can be written. -/
theorem run_carryOut_eq_ok_iff {tools : Tools} {plan : Plan} {options : RunOptions}
    {workspace : Workspace}
    (hplan : plan.Sound workspace.tree) (hquiet : workspace.logFile = none)
    {outcome : RunOutcome} :
    ((Action.carryOut tools options plan).run workspace).1 = .ok outcome ↔
      plan.Writable tools.language options.dryRun workspace.tree ∧
        outcome.root = plan.manifest.root ∧
        outcome.files.map some =
          plan.sources.map
            (plan.outcome? tools.language options.dryRun workspace.tree.fileAt?) := by
  obtain ⟨log, hresult⟩ := Action.exists_result_carryOut tools options plan hquiet
  have hlogged : ({ workspace with log } : Workspace).logFile = none := hquiet
  have hwritable : Action.Writable workspace.tree (fun file => expansionOf?
          tools.language plan.settings.format.unit file.path
            (some (plan.bytes workspace.tree file)))
        (fun file => Action.targetOf plan.directory options.dryRun file.path) plan.sources ↔
      plan.Writable tools.language options.dryRun workspace.tree := by
    apply forall₂_congr
    intro file hfile
    rw [expansion?, fileAt?_eq_bytes hplan hfile]
  obtain ⟨root, files⟩ := outcome
  have hfiles := @Action.run_expandFiles_eq_ok_iff tools.language plan.settings.format.unit
    plan.manifest.root plan.directory options.dryRun plan.manifest.files { workspace with log }
      hplan.root
    hplan.directory hplan.listed hplan.apart hlogged (plan.bytes workspace.tree)
    (fun file hfile => fileAt?_eq_bytes hplan hfile) files
  rw [hresult, map_outcome? hplan, (Option.some_injective _).list_map.eq_iff, ← hwritable,
    Action.map_eq_ok_iff]
  constructor
  · rintro ⟨same, hsame, heq⟩
    cases heq
    obtain ⟨hall, hrecorded⟩ := hfiles.1 hsame
    exact ⟨hall, rfl, hrecorded⟩
  · rintro ⟨hall, rfl, hrecorded⟩
    exact ⟨files, hfiles.2 ⟨hall, hrecorded⟩, rfl⟩

end Plan

end Fakery
