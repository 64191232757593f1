import Fakery.Proofs.Run.Listing
import Fakery.Proofs.Text.Utf8
import Fakery.Run.Outcome

/-!
# What a run reads before it writes

A run first finds out what to do, without changing anything, and then expands file
after file.
-/

namespace Fakery

/-- What a run works on: its settings, the files it has listed and the directory that
it writes to. -/
structure Plan where
  settings : Settings
  manifest : Manifest
  directory : Option Path

namespace Action

variable {α β : Type} {workspace after : Workspace} {loader : Yaml.Loader} {tools : Tools}

theorem run_bind (action : Action α) (next : α → Action β) (workspace : Workspace) :
    (action >>= next).run workspace =
      match action.run workspace with
      | (.ok a, after) => (next a).run after
      | (.error fault, after) => (.error fault, after) := by
  unfold ExceptT.run
  simp only [bind, ExceptT.bind, ExceptT.mk, StateT.bind, ExceptT.bindCont]
  cases action workspace with
  | mk result after => cases result <;> rfl

/-- An action that leaves its workspace as it is. -/
def Reads (action : Action α) : Prop :=
  ∀ workspace, (action.run workspace).2 = workspace

theorem Reads.run_eq {action : Action α} (h : Reads action) (workspace : Workspace) :
    action.run workspace = ((action.run workspace).1, workspace) :=
  Prod.ext rfl (h workspace)

theorem Reads.bind {action : Action α} {next : α → Action β} (h : Reads action)
    (hnext : ∀ a, Reads (next a)) : Reads (action >>= next) := by
  intro workspace
  rw [run_bind, h.run_eq workspace]
  cases (action.run workspace).1 with
  | error fault => rfl
  | ok a => exact hnext a workspace

/-- The result of an action that follows one that only reads. -/
theorem Reads.exists_of_bind {action : Action α} {next : α → Action β} (h : Reads action) {b : β}
    (hok : ((action >>= next).run workspace).1 = .ok b) :
    ∃ a, (action.run workspace).1 = .ok a ∧ ((next a).run workspace).1 = .ok b := by
  rw [run_bind, h.run_eq workspace] at hok
  cases hresult : (action.run workspace).1 with
  | error fault =>
      rw [hresult] at hok
      cases hok
  | ok a =>
      rw [hresult] at hok
      exact ⟨a, rfl, hok⟩

theorem reads_pure (a : α) : Reads (pure a : Action α) :=
  fun _ => rfl

theorem reads_throw (fault : RunFault) : Reads (throw fault : Action α) :=
  fun _ => rfl

theorem reads_look (f : Entry → List String → α) : Reads (look f) :=
  fun _ => rfl

theorem reads_resolve (path : Path) : Reads (resolve path) :=
  fun _ => rfl

theorem Reads.map {action : Action α} (h : Reads action) (f : α → β) : Reads (f <$> action) := by
  rw [← bind_pure_comp]
  exact h.bind fun a => reads_pure (f a)

theorem run_tryCatch (action : Action α) (handle : RunFault → Action α) (workspace : Workspace) :
    (tryCatch action handle).run workspace =
      match action.run workspace with
      | (.ok a, after) => (.ok a, after)
      | (.error fault, after) => (handle fault).run after := by
  unfold ExceptT.run
  simp only [tryCatch, tryCatchThe, MonadExceptOf.tryCatch, ExceptT.tryCatch, ExceptT.mk, bind,
    StateT.bind]
  cases action workspace with
  | mk result after => cases result <;> rfl

theorem Reads.recover {action : Action α} {handle : RunFault → Action α} (h : Reads action)
    (hhandle : ∀ fault, Reads (handle fault)) : Reads (tryCatch action handle) := by
  intro workspace
  rw [run_tryCatch, h.run_eq workspace]
  cases (action.run workspace).1 with
  | error fault => exact hhandle fault workspace
  | ok a => rfl

theorem reads_ofFile (result : Except FileFault α) : Reads (ofFile result) := by
  cases result with
  | error fault => exact reads_throw _
  | ok a => exact reads_pure a

theorem reads_get : Reads (get : Action Workspace) :=
  fun _ => rfl

theorem reads_expandHome (path : Path) : Reads (expandHome path) := by
  apply reads_get.bind
  intro workspace
  simp only
  split
  · exact reads_throw _
  · exact reads_pure _

theorem reads_readText (path : Path) : Reads (readText path) := by
  apply (reads_look _).bind
  intro result
  apply (reads_ofFile result).bind
  intro bytes
  cases Text.Utf8.decode bytes with
  | error fault => exact reads_throw _
  | ok text => exact reads_pure _

theorem reads_settingsPath (path : Path) : Reads (settingsPath path) := by
  apply (reads_expandHome path).bind
  intro path
  apply (reads_look _).bind
  intro isDirectory
  apply (reads_resolve _).bind
  intro names
  exact reads_pure _

theorem reads_loadSettings (path : Path) : Reads (loadSettings loader path) := by
  apply (reads_settingsPath path).bind
  intro file
  apply (reads_look _).bind
  intro isThere
  split
  · apply (reads_readText file).bind
    intro text
    cases Settings.ofText loader file.parent text with
    | error fault => exact reads_throw _
    | ok settings => exact reads_pure _
  · exact reads_pure _

theorem reads_settingsExcludes (root : Path) : Reads (settingsExcludes loader root) := by
  apply Reads.recover
  · apply (reads_loadSettings root).bind
    intro settings
    exact reads_pure _
  · intro fault
    split
    · exact reads_pure _
    · exact reads_pure _
    · exact reads_throw _

theorem reads_ignoreRules (root : Path) (excludes : Option (List String)) :
    Reads (ignoreRules loader root excludes) := by
  apply (reads_look _).bind
  intro isThere
  cases excludes with
  | some excludes =>
      cases isThere with
      | true =>
          apply (((reads_readText _).map _).map _).bind
          intro rules
          exact (reads_pure excludes).bind fun _ => reads_pure _
      | false => exact (reads_pure excludes).bind fun _ => reads_pure _
  | none =>
      cases isThere with
      | true =>
          apply (((reads_readText _).map _).map _).bind
          intro rules
          exact (reads_settingsExcludes root).bind fun _ => reads_pure _
      | false => exact (reads_settingsExcludes root).bind fun _ => reads_pure _

theorem reads_scan (excludes : Option (List String)) (path : String) :
    Reads (scan loader excludes path) := by
  apply (reads_expandHome _).bind
  intro home
  apply (reads_resolve home).bind
  intro target
  apply (reads_look _).bind
  intro found
  rcases found with _ | content | children
  · exact reads_throw _
  · exact reads_pure _
  · apply (reads_ignoreRules _ excludes).bind
    intro rules
    exact reads_pure _

theorem reads_runSettings (options : RunOptions) (target : List String) (entry : Entry) :
    Reads (runSettings loader options target entry) := by
  unfold runSettings
  cases options.settings with
  | some settings => exact reads_pure settings
  | none => exact reads_loadSettings _

theorem reads_destination (options : RunOptions) (settings : Settings) :
    Reads (destination options settings) := by
  unfold destination
  cases options.outputDirectory with
  | some text =>
      apply (reads_expandHome _).bind
      intro home
      apply (reads_resolve home).bind
      intro names
      exact reads_pure _
  | none =>
      cases settings.outputDirectory with
      | some path =>
          apply (reads_resolve path).bind
          intro names
          exact reads_pure _
      | none => exact reads_pure none

/-- The first part of a run, which only reads. -/
def plan (tools : Tools) (options : RunOptions) (path : String) : Action Plan := do
  let target ← resolve (← expandHome (Path.ofString path))
  match ← look fun tree _ => tree.get? target with
  | none => throw (.sourceNotFound path)
  | some entry =>
    let settings ← runSettings tools.loader options target entry
    let excludes := options.excludes.getD (some settings.excludePaths)
    let manifest ← scan tools.loader excludes (Path.ofNames target).text
    let directory ← destination options settings
    return ⟨settings, manifest, directory⟩

/-- The second part of a run, which expands the files. -/
def carryOut (tools : Tools) (options : RunOptions) (plan : Plan) : Action RunOutcome := do
  emit (expanderRecord .debug s!"Scanner discovered {plan.manifest.files.length} Swift file(s)")
  let files ← expandFiles tools.language plan.settings.format.unit plan.manifest.root plan.directory
    options.dryRun plan.manifest.files
  let outcome : RunOutcome := ⟨plan.manifest.root, files⟩
  emit (expanderRecord .info
    (s!"Expanded {outcome.changed.length} of {files.length} file(s) under "
      ++ s!"{plan.manifest.root.text} ({outcome.failures.length} failed)"))
  return outcome

/-- A run makes a plan and carries it out. -/
theorem expandPath_eq (tools : Tools) (options : RunOptions) (path : String) :
    expandPath tools options path = plan tools options path >>= carryOut tools options := by
  unfold expandPath plan
  simp only [bind_assoc]
  congr 1
  funext home
  congr 1
  funext target
  congr 1
  funext found
  cases found with
  | none => rfl
  | some entry =>
      simp only [bind_assoc, pure_bind]
      rfl

/-- Making a plan changes nothing. -/
theorem reads_plan (options : RunOptions) (path : String) : Reads (plan tools options path) := by
  apply (reads_expandHome _).bind
  intro home
  apply (reads_resolve home).bind
  intro target
  apply (reads_look _).bind
  intro found
  cases found with
  | none => exact reads_throw _
  | some entry =>
      apply (reads_runSettings options target entry).bind
      intro settings
      apply (reads_scan _ _).bind
      intro manifest
      apply (reads_destination options settings).bind
      intro directory
      exact reads_pure _

end Action

/-- A workspace as a run finds it: its root is a directory, directories hold names, and
log records go to no file. -/
structure Workspace.Sound (workspace : Workspace) : Prop where
  root : workspace.tree.isDirectory = true
  tree : workspace.tree.Sound
  here : ".." ∉ workspace.here
  quiet : workspace.logFile = none

/-- An absolute path in which no part leads up. -/
structure Path.Resolved (path : Path) : Prop where
  mark : path.mark = "/"
  parts : ".." ∉ path.parts

theorem Path.Resolved.isAbsolute {path : Path} (h : path.Resolved) : path.isAbsolute = true := by
  rw [Path.isAbsolute, h.mark]
  rfl

theorem Path.Resolved.child_eq {path : Path} (hpath : path.Resolved) {name : String}
    {below : List String} (hname : Path.ofString name = ⟨"", below⟩) :
    path.child name = ⟨"/", path.parts ++ below⟩ := by
  simp [Path.child, Path.join, hname, hpath.mark, Path.isAbsolute]

/-- A resolved path holds no `..`. -/
theorem Path.not_mem_resolve {here : List String} (hhere : ".." ∉ here) (path : Path) :
    ".." ∉ path.resolve here := by
  have hclimb : ∀ (parts start : List String), ".." ∉ start → ".." ∉ parts.foldl climb start := by
    intro parts
    induction parts with
    | nil => exact fun start hstart => hstart
    | cons part parts ih =>
        intro start hstart
        apply ih
        unfold climb
        split
        · exact fun hmem => hstart (List.mem_of_mem_drop hmem)
        · next hpart =>
            rw [List.mem_cons, not_or]
            exact ⟨fun heq => hpart (by simp [← heq]), hstart⟩
  rw [resolve, List.mem_reverse]
  apply hclimb
  split
  · simp
  · simpa using hhere

/-- What a manifest lists leads down from its root to files of a tree. -/
structure Manifest.Sound (manifest : Manifest) (tree : Entry) : Prop where
  root : manifest.root.Resolved
  listed : ListedBelow [] manifest.files
  there : ∀ file ∈ manifest.files, (tree.fileAt? (manifest.root.child file.path).parts).isSome

/-- A plan whose paths a run can follow name by name. -/
structure Plan.Sound (plan : Plan) (tree : Entry) : Prop extends plan.manifest.Sound tree where
  directory : ∀ directory, plan.directory = some directory → directory.Resolved

namespace Action

variable {workspace : Workspace} {loader : Yaml.Loader} {tools : Tools}

theorem resolved_of_destination (hworkspace : workspace.Sound) {options : RunOptions}
    {settings : Settings} {directory : Path}
    (h : ((destination options settings).run workspace).1 = .ok (some directory)) :
    directory.Resolved := by
  have hresolve : ∀ path : Path, (Path.ofNames (path.resolve workspace.here)).Resolved :=
    fun path => ⟨rfl, Path.not_mem_resolve hworkspace.here path⟩
  unfold destination at h
  split at h
  · obtain ⟨home, -, h⟩ := (reads_expandHome _).exists_of_bind h
    cases h
    exact hresolve home
  · split at h
    · cases h
      exact hresolve _
    · cases h

/-- A scan of a sound workspace gives a sound manifest. -/
theorem sound_of_scan (hworkspace : workspace.Sound) {excludes : Option (List String)}
    {path : String} {manifest : Manifest}
    (h : ((scan loader excludes path).run workspace).1 = .ok manifest) :
    manifest.Sound workspace.tree := by
  obtain ⟨home, -, h⟩ := (reads_expandHome _).exists_of_bind h
  obtain ⟨target, -, h⟩ := (reads_resolve home).exists_of_bind h
  obtain ⟨found, hfound, h⟩ := (reads_look _).exists_of_bind h
  have hget : workspace.tree.get? target = found := Except.ok.inj hfound
  cases found with
  | none => cases h
  | some entry =>
      obtain ⟨hsound, hnames⟩ := hworkspace.tree.names_of_get? hget
      have hdots : ".." ∉ target := fun hmem => (hnames _ hmem).ne_dots rfl
      cases entry with
      | file content =>
          cases h
          -- the root is a directory, so that a file has a name
          have hne : target ≠ [] := by
            rintro rfl
            have hroot := hworkspace.root
            rw [Option.some.inj hget, Entry.isDirectory] at hroot
            cases hroot
          have hname := hnames _ (List.getLast_mem hne)
          have hroot : (Path.ofNames target.dropLast).Resolved :=
            ⟨rfl, fun hmem => hdots (List.mem_of_mem_dropLast hmem)⟩
          rw [List.getLast?_eq_some_getLast hne, Option.getD_some]
          refine ⟨hroot, ⟨?_, List.nodup_singleton _⟩, ?_⟩
          · rw [List.forall_mem_singleton]
            exact ⟨[target.getLast hne], Path.ofString_name hname, by simp, by simpa using hname⟩
          · rw [List.forall_mem_singleton, hroot.child_eq (Path.ofString_name hname), Path.ofNames,
              List.dropLast_append_getLast, Entry.fileAt?, hget]
            rfl
      | directory children =>
          obtain ⟨rules, -, h⟩ := (reads_ignoreRules _ excludes).exists_of_bind h
          cases h
          have hroot : (Path.ofNames target).Resolved := ⟨rfl, hdots⟩
          refine ⟨hroot, listedBelow_filesBelow rules hsound rfl, ?_⟩
          intro file hfile
          obtain ⟨below, hpath, hthere⟩ := fileAt?_of_mem_filesBelow rules hsound rfl hfile
          rw [hroot.child_eq hpath, Entry.fileAt?, Path.ofNames, Entry.get?_append, hget]
          exact hthere

/-- A plan made in a sound workspace is sound. -/
theorem sound_of_plan (hworkspace : workspace.Sound) {options : RunOptions} {path : String}
    {made : Plan} (h : ((plan tools options path).run workspace).1 = .ok made) :
    made.Sound workspace.tree := by
  obtain ⟨home, -, h⟩ := (reads_expandHome _).exists_of_bind h
  obtain ⟨target, -, h⟩ := (reads_resolve home).exists_of_bind h
  obtain ⟨found, -, h⟩ := (reads_look _).exists_of_bind h
  cases found with
  | none => cases h
  | some entry =>
      obtain ⟨settings, -, h⟩ := (reads_runSettings options target entry).exists_of_bind h
      obtain ⟨manifest, hmanifest, h⟩ := (reads_scan _ _).exists_of_bind h
      obtain ⟨directory, hdirectory, h⟩ := (reads_destination options settings).exists_of_bind h
      cases h
      refine ⟨sound_of_scan hworkspace hmanifest, ?_⟩
      rintro written rfl
      exact resolved_of_destination hworkspace hdirectory

end Action

end Fakery
