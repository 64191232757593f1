import Fakery.Proofs.Files.Erasing
import Fakery.Proofs.Run.Plan

/-!
# What a run reads of a directory

For a directory, a run reads its settings and its ignore rules, each from one file, and lists
what stands below.  With a tree that agrees along these two paths it reads the same.
-/

namespace Fakery

/-! ## Paths of directories -/

namespace Path

theorem resolve_of_isAbsolute {path : Path} (habsolute : path.isAbsolute = true)
    (hdots : ".." ∉ path.parts) (here : List String) : path.resolve here = path.parts := by
  have hclimb : ∀ (parts start : List String), ".." ∉ parts →
      parts.foldl climb start = parts.reverse ++ start := by
    intro parts
    induction parts with
    | nil => exact fun start _ => rfl
    | cons part parts ih =>
        intro start hparts
        rw [List.mem_cons, not_or] at hparts
        rw [List.foldl_cons, ih _ hparts.2, climb, if_neg (by simpa using Ne.symm hparts.1),
          List.reverse_cons, List.append_assoc, List.singleton_append]
  rw [resolve, if_pos habsolute, hclimb _ _ hdots]
  simp

theorem splitAt_intercalate {names : List String} (hnames : ∀ name ∈ names, IsFileName name) :
    ((Text.splitAt '/' (['/'].intercalate (names.map String.toList))).map String.ofList).filter
      (fun part => part != "" && part != ".") = names := by
  induction names with
  | nil => rfl
  | cons name names ih =>
      rw [List.forall_mem_cons] at hnames
      have hown : [name].filter (fun part => part != "" && part != ".") = [name] := by
        simp [hnames.1.ne_empty, hnames.1.ne_dot]
      cases names with
      | nil =>
          rw [List.map_singleton, List.intercalate_singleton, splitAt_of_not_mem hnames.1.not_mem,
            List.map_singleton, String.ofList_toList, hown]
      | cons next names =>
          rw [List.map_cons, List.map_cons, List.intercalate_cons_cons, List.append_assoc,
            List.singleton_append, splitAt_append_cons, splitAt_of_not_mem hnames.1.not_mem,
            List.map_append, List.filter_append, ← List.map_cons, ih hnames.2, List.map_singleton,
            String.ofList_toList, hown, List.singleton_append]

theorem markOf_cons {cs : List Char} (h : cs.head? ≠ some '/') : markOf ('/' :: cs) = "/" := by
  cases cs with
  | nil => rfl
  | cons c cs =>
      rw [List.head?_cons, ne_eq, Option.some.injEq] at h
      unfold markOf
      split <;> simp_all

/-- The text of an absolute path reads as the path. -/
theorem ofString_text {names : List String} (hnames : ∀ name ∈ names, IsFileName name) :
    ofString (ofNames names).text = ofNames names := by
  have htext : (ofNames names).text.toList = '/' :: ['/'].intercalate (names.map String.toList) := by
    simp [text, ofNames, toList_joined, joinWith_eq_intercalate]
  have hhead : (['/'].intercalate (names.map String.toList)).head? ≠ some '/' := by
    cases names with
    | nil => simp
    | cons name names =>
        rw [List.forall_mem_cons] at hnames
        obtain ⟨c, cs, hcs⟩ :=
          List.exists_cons_of_ne_nil (mt String.toList_eq_nil_iff.1 hnames.1.ne_empty)
        have hc : c ≠ '/' := fun heq => hnames.1.not_mem (by simp [hcs, heq])
        cases names <;> simp [hcs, hc, List.intercalate_cons_cons]
  rw [ofString, htext, markOf_cons hhead, ofNames, Path.mk.injEq]
  refine ⟨rfl, ?_⟩
  rw [Text.splitAt, if_pos (by rfl), List.map_cons, List.filter_cons_of_neg (by decide)]
  exact splitAt_intercalate hnames

end Path

/-! ## Workspaces that an action does not tell apart -/

namespace Action

variable {α β : Type} {loader : Yaml.Loader} {workspace : Workspace} {tree : Entry}

/-- An action has the same result with another tree, whatever the log. -/
def Agrees (action : Action α) (workspace : Workspace) (tree : Entry) : Prop :=
  ∀ log, (action.run { workspace with tree, log }).1 = (action.run workspace).1

theorem Agrees.bind {action : Action α} {next : α → Action β} (hreads : Reads action)
    (h : Agrees action workspace tree)
    (hnext : ∀ a, (action.run workspace).1 = .ok a → Agrees (next a) workspace tree) :
    Agrees (action >>= next) workspace tree := by
  intro log
  rw [run_bind, run_bind, hreads.run_eq workspace, hreads.run_eq { workspace with tree, log }, h log]
  cases hresult : (action.run workspace).1 with
  | error fault => rfl
  | ok a => exact hnext a hresult log

theorem agrees_pure (a : α) : Agrees (pure a) workspace tree :=
  fun _ => rfl

theorem agrees_throw (fault : RunFault) : Agrees (throw fault : Action α) workspace tree :=
  fun _ => rfl

theorem Agrees.map {action : Action α} (hreads : Reads action) (h : Agrees action workspace tree)
    (f : α → β) : Agrees (f <$> action) workspace tree := by
  rw [← bind_pure_comp]
  exact h.bind hreads fun a _ => agrees_pure (f a)

theorem Agrees.recover {action : Action α} {handle : RunFault → Action α} (hreads : Reads action)
    (h : Agrees action workspace tree) (hhandle : ∀ fault, Agrees (handle fault) workspace tree) :
    Agrees (tryCatch action handle) workspace tree := by
  intro log
  rw [run_tryCatch, run_tryCatch, hreads.run_eq workspace,
    hreads.run_eq { workspace with tree, log }, h log]
  cases (action.run workspace).1 with
  | error fault => exact hhandle fault log
  | ok a => rfl

theorem agrees_resolve (path : Path) : Agrees (resolve path) workspace tree :=
  fun _ => rfl

theorem agrees_expandHome (path : Path) : Agrees (expandHome path) workspace tree := by
  intro log
  change ((if _ then throw RunFault.noHome else pure _ : Action Path).run
      { workspace with tree, log }).1 =
    ((if _ then throw RunFault.noHome else pure _ : Action Path).run workspace).1
  split <;> rfl

theorem agrees_target (path : Path) : Agrees (expandHome path >>= resolve) workspace tree :=
  (agrees_expandHome path).bind (reads_expandHome path) fun home _ => agrees_resolve home

theorem agrees_destination (options : RunOptions) (settings : Settings) :
    Agrees (destination options settings) workspace tree := by
  unfold destination
  cases options.outputDirectory with
  | some text =>
      apply (agrees_expandHome _).bind (reads_expandHome _)
      intro home _
      exact fun _ => rfl
  | none => cases settings.outputDirectory <;> exact fun _ => rfl

theorem agrees_readText {path : Path}
    (h : tree.readFile workspace.here path = workspace.tree.readFile workspace.here path) :
    Agrees (readText path) workspace tree := by
  apply Agrees.bind (reads_look _)
  · exact fun _ => congrArg Except.ok h
  · intro result _
    apply Agrees.bind (reads_ofFile result)
    · cases result <;> exact fun _ => rfl
    · intro bytes _
      cases Text.Utf8.decode bytes <;> exact fun _ => rfl

/-! ## Settings and rules of a directory -/

theorem run_expandHome_ofNames (names : List String) :
    (expandHome (Path.ofNames names)).run workspace = (.ok (Path.ofNames names), workspace) := by
  rfl

section Directory

variable {target : List String} (hdots : ".." ∉ target)
  (hdirectory : workspace.tree.kind? target = some none)

include hdots hdirectory

theorem run_settingsPath :
    (settingsPath (Path.ofNames target)).run workspace =
      (.ok (Path.ofNames (target ++ [settingsFileName])), workspace) := by
  have hthere : workspace.tree.directoryExists workspace.here (Path.ofNames target) = true :=
    (Entry.directoryExists_iff rfl hdots).2 hdirectory
  have hchild : (Path.ofNames target).child settingsFileName =
      Path.ofNames (target ++ [settingsFileName]) := rfl
  have hresolve : ((Path.ofNames target).child settingsFileName).resolve workspace.here =
      target ++ [settingsFileName] := by
    rw [hchild]
    exact Path.resolve_of_isAbsolute rfl (by simp [Path.ofNames, hdots, settingsFileName]) _
  rw [settingsPath, run_bind, run_expandHome_ofNames]
  change (Except.ok (Path.ofNames (Path.resolve workspace.here
    (if workspace.tree.directoryExists workspace.here (Path.ofNames target) then
      (Path.ofNames target).child settingsFileName else _))), workspace) = _
  rw [if_pos hthere, hresolve]

omit hdirectory in
/-- Reading a file of the target directory depends only on what stands at its path. -/
theorem agrees_readText_below {name : String} (hname : name ≠ "..")
    (hkinds : ∀ above, above <+: target ++ [name] → tree.kind? above = workspace.tree.kind? above) :
    Agrees (look fun tree here => tree.pathExists here (Path.ofNames (target ++ [name])))
        workspace tree ∧
      Agrees (readText (Path.ofNames (target ++ [name]))) workspace tree := by
  have hparts : ".." ∉ (Path.ofNames (target ++ [name])).parts := by
    simp [Path.ofNames, hdots, Ne.symm hname]
  constructor
  · have hexists : tree.pathExists workspace.here (Path.ofNames (target ++ [name])) =
        workspace.tree.pathExists workspace.here (Path.ofNames (target ++ [name])) := by
      rw [Entry.pathExists_eq rfl hparts, Entry.pathExists_eq rfl hparts]
      exact congrArg Option.isSome (hkinds _ List.prefix_rfl)
    exact fun _ => congrArg Except.ok hexists
  · exact agrees_readText (Entry.readFile_congr rfl hparts hkinds)

section Settings

variable (hkinds : ∀ above, above <+: target ++ [settingsFileName] →
  tree.kind? above = workspace.tree.kind? above)

include hkinds

/-- Loading the settings depends only on what stands at the path of their file. -/
theorem agrees_loadSettings :
    Agrees (loadSettings loader (Path.ofNames target)) workspace tree := by
  have htree : tree.kind? target = some none := by
    rw [← hdirectory]
    exact hkinds target (List.prefix_append _ _)
  obtain ⟨hexists, hread⟩ := agrees_readText_below hdots (by decide) hkinds
  apply Agrees.bind (reads_settingsPath _)
  · intro log
    rw [@run_settingsPath { workspace with tree, log } target hdots htree,
      run_settingsPath hdots hdirectory]
  intro file hfile
  rw [run_settingsPath hdots hdirectory] at hfile
  cases hfile
  apply hexists.bind (reads_look _)
  intro isThere _
  split
  · apply hread.bind (reads_readText _)
    intro text _
    cases Settings.ofText loader (Path.ofNames (target ++ [settingsFileName])).parent text with
    | error fault => exact agrees_throw _
    | ok settings => exact agrees_pure _
  · exact agrees_pure _

theorem agrees_settingsExcludes :
    Agrees (settingsExcludes loader (Path.ofNames target)) workspace tree := by
  apply Agrees.recover
  · exact (reads_loadSettings _).bind fun _ => reads_pure _
  · exact (agrees_loadSettings hdots hdirectory hkinds).bind (reads_loadSettings _)
      fun _ _ => agrees_pure _
  · intro fault
    split <;> exact fun _ => rfl

end Settings

/-- The rules depend only on what stands at the paths of the ignore file and the settings. -/
theorem agrees_ignoreRules (excludes : Option (List String))
    (hignore : ∀ above, above <+: target ++ [".gitignore"] →
      tree.kind? above = workspace.tree.kind? above)
    (hsettings : excludes = none → ∀ above, above <+: target ++ [settingsFileName] →
      tree.kind? above = workspace.tree.kind? above) :
    Agrees (ignoreRules loader (Path.ofNames target) excludes) workspace tree := by
  obtain ⟨hexists, hread⟩ := agrees_readText_below hdots (by decide) hignore
  have hlines := (hread.map (reads_readText _) Text.bareLines).map ((reads_readText _).map _)
    IgnoreRule.ofLines
  have hreads := ((reads_readText ((Path.ofNames target).child ".gitignore")).map
    Text.bareLines).map IgnoreRule.ofLines
  cases excludes with
  | some excludes =>
      apply hexists.bind (reads_look _)
      intro isThere _
      cases isThere with
      | true => exact hlines.bind hreads fun _ _ => agrees_pure _
      | false => exact agrees_pure _
  | none =>
      have hexcludes : ∀ rules : List IgnoreRule,
        Agrees (settingsExcludes loader (Path.ofNames target) >>=
          fun excludes => pure (rules ++ IgnoreRule.ofLines (excludes.map String.toList)))
          workspace tree := by
        intro rules
        exact (agrees_settingsExcludes hdots hdirectory (hsettings rfl)).bind
          (reads_settingsExcludes _) fun _ _ => agrees_pure _
      apply hexists.bind (reads_look _)
      intro isThere _
      cases isThere with
      | true => exact hlines.bind hreads fun rules _ => hexcludes rules
      | false => exact hexcludes []

end Directory

/-! ## Plans for a directory -/

/-- The files that a run asks for beside its sources, by their names in its root. -/
def asked (options : RunOptions) (isDirectory : Bool) : List String :=
  (if options.settings = none ∨ isDirectory = true ∧ options.excludes = some none then
    [settingsFileName] else []) ++ if isDirectory = true then [".gitignore"] else []

/-- A run finds the directory that it is given, its settings and its rules. -/
structure Ready (loader : Yaml.Loader) (options : RunOptions) (path : String)
    (workspace : Workspace)
    (target : List String) (entry : Entry) (settings : Settings) (rules : List IgnoreRule) :
    Prop where
  target_eq : ((expandHome (Path.ofString path) >>= resolve).run workspace).1 = .ok target
  get?_eq : workspace.tree.get? target = some entry
  isDirectory : entry.isDirectory = true
  settings_eq : ((runSettings loader options target entry).run workspace).1 = .ok settings
  rules_eq : ((ignoreRules loader (Path.ofNames target)
    (options.excludes.getD (some settings.excludePaths))).run workspace).1 = .ok rules

theorem Reads.run_bind_of_ok {action : Action α} {next : α → Action β} (h : Reads action) {a : α}
    (hok : (action.run workspace).1 = .ok a) :
    (action >>= next).run workspace = (next a).run workspace := by
  rw [run_bind, h.run_eq workspace, hok]

section Scan

variable {excludes : Option (List String)} {path : String} {target : List String} {entry : Entry}

theorem scan_eq_of_directory
    (htarget : ((expandHome (Path.ofString path) >>= resolve).run workspace).1 = .ok target)
    (hget : workspace.tree.get? target = some entry) (hentry : entry.isDirectory = true) :
    (scan loader excludes path).run workspace =
      (ignoreRules loader (Path.ofNames target) excludes >>= fun rules =>
        pure ⟨Path.ofNames target, filesBelow rules "" entry⟩).run workspace := by
  rw [scan, ← bind_assoc,
    ((reads_expandHome _).bind fun _ => reads_resolve _).run_bind_of_ok htarget,
    (reads_look _).run_bind_of_ok (congrArg Except.ok hget)]
  cases entry with
  | file content => cases hentry
  | directory children => rfl

variable (hnames : ∀ name ∈ target, IsFileName name)

include hnames

theorem run_target_text :
    ((expandHome (Path.ofString (Path.ofNames target).text) >>= resolve).run workspace).1 =
      .ok target := by
  have hresolve : (Path.ofNames target).resolve workspace.here = target :=
    Path.resolve_of_isAbsolute rfl (fun hmem => (hnames _ hmem).ne_dots rfl) _
  rw [Path.ofString_text hnames,
    (reads_expandHome _).run_bind_of_ok (by rw [run_expandHome_ofNames])]
  exact congrArg Except.ok hresolve

theorem run_scan_file {content : List UInt8}
    (hget : workspace.tree.get? target = some (.file content)) :
    (scan loader excludes (Path.ofNames target).text).run workspace =
      (.ok ⟨Path.ofNames target.dropLast, [⟨target.getLast?.getD "", content.length⟩]⟩,
        workspace) := by
  rw [scan, ← bind_assoc,
    ((reads_expandHome _).bind fun _ => reads_resolve _).run_bind_of_ok (run_target_text hnames),
    (reads_look _).run_bind_of_ok (congrArg Except.ok hget)]
  rfl

theorem run_scan_directory (hget : workspace.tree.get? target = some entry)
    (hentry : entry.isDirectory = true) :
    (scan loader excludes (Path.ofNames target).text).run workspace =
      (ignoreRules loader (Path.ofNames target) excludes >>= fun rules =>
        pure ⟨Path.ofNames target, filesBelow rules "" entry⟩).run workspace :=
  scan_eq_of_directory (run_target_text hnames) hget hentry

theorem run_scan {rules : List IgnoreRule} (hget : workspace.tree.get? target = some entry)
    (hentry : entry.isDirectory = true)
    (hrules : ((ignoreRules loader (Path.ofNames target) excludes).run workspace).1 = .ok rules) :
    ((scan loader excludes (Path.ofNames target).text).run workspace).1 =
      .ok ⟨Path.ofNames target, filesBelow rules "" entry⟩ := by
  rw [run_scan_directory hnames hget hentry, (reads_ignoreRules _ _).run_bind_of_ok hrules]
  rfl

end Scan

end Action

def Plan.below (target : List String) (entry : Entry) (settings : Settings)
    (rules : List IgnoreRule) (directory : Option Path) : Plan :=
  ⟨settings, ⟨Path.ofNames target, filesBelow rules "" entry⟩, directory⟩

namespace Action

variable {loader : Yaml.Loader} {tools : Tools} {workspace : Workspace} {options : RunOptions}
  {path : String} {target : List String} {entry : Entry} {settings : Settings}
  {rules : List IgnoreRule}

/-- The result of planning, once the path is known to lead to an entry. -/
theorem run_plan_eq_ok_iff
    (htarget : ((expandHome (Path.ofString path) >>= resolve).run workspace).1 = .ok target)
    (hget : workspace.tree.get? target = some entry) {made : Plan} :
    ((plan tools options path).run workspace).1 = .ok made ↔
      ((runSettings tools.loader options target entry).run workspace).1 = .ok made.settings ∧
      ((scan tools.loader (options.excludes.getD (some made.settings.excludePaths))
        (Path.ofNames target).text).run workspace).1 = .ok made.manifest ∧
      ((destination options made.settings).run workspace).1 = .ok made.directory := by
  rw [plan, ← bind_assoc,
    ((reads_expandHome _).bind fun _ => reads_resolve _).run_bind_of_ok htarget,
    (reads_look _).run_bind_of_ok (congrArg Except.ok hget)]
  simp only
  constructor
  · intro h
    obtain ⟨settings, hsettings, h⟩ := (reads_runSettings options target entry).exists_of_bind h
    obtain ⟨manifest, hmanifest, h⟩ := (reads_scan _ _).exists_of_bind h
    obtain ⟨directory, hdirectory, h⟩ := (reads_destination options settings).exists_of_bind h
    cases h
    exact ⟨hsettings, hmanifest, hdirectory⟩
  · rintro ⟨hsettings, hmanifest, hdirectory⟩
    rw [(reads_runSettings _ _ _).run_bind_of_ok hsettings,
      (reads_scan _ _).run_bind_of_ok hmanifest,
      (reads_destination _ _).run_bind_of_ok hdirectory]
    rfl

/-- What is planned for a directory. -/
theorem Ready.run_plan (hworkspace : workspace.Sound)
    (h : Ready tools.loader options path workspace target entry settings rules) :
    ((plan tools options path).run workspace).1 =
      ((destination options settings).run workspace).1.map
        (Plan.below target entry settings rules) := by
  have hnames := (hworkspace.tree.names_of_get? h.get?_eq).2
  rw [plan, ← bind_assoc,
    ((reads_expandHome _).bind fun _ => reads_resolve _).run_bind_of_ok h.target_eq,
    (reads_look _).run_bind_of_ok (congrArg Except.ok h.get?_eq)]
  simp only
  rw [(reads_runSettings _ _ _).run_bind_of_ok h.settings_eq,
    (reads_scan _ _).run_bind_of_ok (run_scan hnames h.get?_eq h.isDirectory h.rules_eq), run_bind,
    (reads_destination _ _).run_eq workspace]
  cases ((destination options settings).run workspace).1 <;> rfl

/-- The directory in which a run looks for settings. -/
def base (target : List String) (entry : Entry) : List String :=
  if entry.isDirectory then target else target.dropLast

section Asked

variable {tree other : Entry} (hsame : other.isDirectory = entry.isDirectory)
  (hdots : ".." ∉ base target entry)
  (hdirectory : workspace.tree.kind? (base target entry) = some none)
  (hkinds : ∀ name ∈ asked options entry.isDirectory, ∀ above, above <+: base target entry ++ [name] →
    tree.kind? above = workspace.tree.kind? above) (log : List LogRecord)

include hdots hdirectory hkinds

include hsame in
theorem run_runSettings_eq :
    ((runSettings loader options target other).run { workspace with tree, log }).1 =
      ((runSettings loader options target entry).run workspace).1 := by
  unfold runSettings
  cases hsettings : options.settings with
  | some settings => rfl
  | none =>
      simp only
      rw [hsame]
      exact agrees_loadSettings hdots hdirectory
        (hkinds settingsFileName (by simp [asked, hsettings])) log

theorem run_ignoreRules_eq (hentry : entry.isDirectory = true) (settings : Settings) :
    ((ignoreRules loader (Path.ofNames target)
        (options.excludes.getD (some settings.excludePaths))).run { workspace with tree, log }).1 =
      ((ignoreRules loader (Path.ofNames target)
        (options.excludes.getD (some settings.excludePaths))).run workspace).1 := by
  have hbase : base target entry = target := if_pos hentry
  rw [hentry, hbase] at hkinds
  rw [hbase] at hdots hdirectory
  refine agrees_ignoreRules hdots hdirectory _ (hkinds ".gitignore" (by simp [asked])) ?_ log
  intro hnone
  have hexcludes : options.excludes = some none := by
    cases hexcludes : options.excludes with
    | none => simp [hexcludes] at hnone
    | some excludes => simpa [hexcludes] using hnone
  exact hkinds settingsFileName (by simp [asked, hexcludes])

end Asked

/-- In another tree, a run finds what it did if the files that it asks for are the same. -/
theorem Ready.of_kinds (h : Ready loader options path workspace target entry settings rules)
    (hdots : ".." ∉ target) {tree other : Entry} (hget : tree.get? target = some other)
    (hother : other.isDirectory = true)
    (hkinds : ∀ name ∈ asked options true, ∀ above, above <+: target ++ [name] →
      tree.kind? above = workspace.tree.kind? above) (log : List LogRecord) :
    Ready loader options path { workspace with tree, log } target other settings rules := by
  have hdirectory : workspace.tree.kind? target = some none := by
    rw [Entry.kind?_eq_directory_iff, h.get?_eq]
    have hisDirectory := h.isDirectory
    cases entry with
    | file content => cases hisDirectory
    | directory children => exact ⟨children, rfl⟩
  have hbase : base target entry = target := if_pos h.isDirectory
  rw [← hbase] at hdots hdirectory
  rw [← h.isDirectory, ← hbase] at hkinds
  refine ⟨?_, hget, hother, ?_, ?_⟩
  · exact (agrees_target _ log).trans h.target_eq
  · rw [← h.settings_eq]
    exact run_runSettings_eq (hother.trans h.isDirectory.symm) hdots hdirectory hkinds log
  · rw [← h.rules_eq]
    exact run_ignoreRules_eq hdots hdirectory hkinds log h.isDirectory settings

theorem asked_subset (options : RunOptions) (isDirectory : Bool) :
    asked options isDirectory ⊆ [settingsFileName, ".gitignore"] := by
  intro name hname
  unfold asked at hname
  grind

/-- Without a file that is neither settings nor rules, a run still finds what it did. -/
theorem Ready.erase (hworkspace : workspace.Sound)
    (h : Ready loader options path workspace target entry settings rules) {below : List String}
    (hbelow : below ≠ []) (hnames : ∀ name ∈ [settingsFileName, ".gitignore"], below ≠ [name])
    {content : List UInt8} (hfile : entry.fileAt? below = some content) :
    Ready loader options path { workspace with tree := workspace.tree.erase (target ++ below) }
      target
      (entry.erase below) settings rules := by
  have hplace : workspace.tree.fileAt? (target ++ below) = some content := by
    rw [Entry.fileAt?, Entry.get?_append, h.get?_eq]
    exact hfile
  have hdots : ".." ∉ target :=
    fun hmem => ((hworkspace.tree.names_of_get? h.get?_eq).2 _ hmem).ne_dots rfl
  refine h.of_kinds hdots (Entry.get?_erase hbelow h.get?_eq)
    (Entry.isDirectory_erase h.isDirectory below) ?_ workspace.log
  intro name hname above habove
  rw [Entry.kind?_erase (by simp [hbelow]) hplace, Function.update_of_ne]
  rintro rfl
  rw [List.prefix_append_right_inj] at habove
  rcases List.prefix_concat_iff.1 (List.nil_append [name] ▸ habove) with heq | hnil
  · exact hnames name (asked_subset options true hname) heq
  · exact hbelow (List.prefix_nil.1 hnil)

end Action

end Fakery
