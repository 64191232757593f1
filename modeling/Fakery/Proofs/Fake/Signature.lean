import Fakery.Proofs.Fake.OwnDefault

/-!
# Names of generated parameters

A function that is generated from an initializer calls its parameters by their labels, and
by their local names where there is no label.  So its parameters can have one name even if
those of the initializer have not: a label may be repeated, or be the local name of another
parameter, and a parameter may have no name at all.  These are the only ways in which a
generated signature is not well formed.
-/

namespace Fakery

/-- The parameters of a function have names of their own, and each argument of the call that
it makes refers to one of them. -/
structure GeneratedFunction.WellFormed (function : GeneratedFunction) : Prop where
  nodup : (function.parameters.map (·.name)).Nodup
  named : "_" ∉ function.parameters.map (·.name)
  refers : ∀ arguments, function.body = .selfCall arguments → ∀ argument ∈ arguments,
    function.parameters.countP (·.name == argument.value) = 1

/-- The name of a parameter inside of its initializer: the second one if there are two. -/
def Parameter.localName (parameter : Parameter) : String :=
  parameter.secondName.getD parameter.firstName

/-- A wildcard without a name behind it. -/
def Parameter.Nameless (parameter : Parameter) : Prop :=
  parameter.firstName = "_" ∧ parameter.secondName.getD "" ∈ ["", "_"]

/-- Two parameters that are called the same: they have one label, or the label of one is the
local name of the other, which has no label. -/
inductive Parameter.Clashes (a b : Parameter) : Prop
  | labels (hlabel : a.firstName ≠ "_") (heq : b.firstName = a.firstName)
  | labelLeft (hlabel : a.firstName ≠ "_") (hfirst : b.firstName = "_")
      (hsecond : b.secondName = some a.firstName)
  | labelRight (hlabel : b.firstName ≠ "_") (hfirst : a.firstName = "_")
      (hsecond : a.secondName = some b.firstName)

/-- Each parameter of an initializer has a name, and no two are called the same. -/
structure Initializer.TellsApart (declared : Initializer) : Prop where
  named : ∀ parameter ∈ declared.parameters, ¬ parameter.Nameless
  apart : declared.parameters.Pairwise fun a b => ¬ a.Clashes b

/-! ## Parameters of an initializer -/

section Parameter

variable {a b : Parameter} {name other : String}

theorem Parameter.Called.eq_wildcard_iff (h : a.Called name) : name = "_" ↔ a.Nameless := by
  cases h with
  | second _ hfirst hsecond hname => simp [Nameless, hfirst, hsecond, hname]
  | first hname =>
      constructor
      · intro hfirst
        exact ⟨hfirst, by simp [hname.resolve_left (not_not.2 hfirst)]⟩
      · exact And.left

theorem Parameter.labelled_of_called_first (hnamed : ¬ a.Nameless)
    (h : a.firstName ≠ "_" ∨ a.secondName.getD "" = "") : a.firstName ≠ "_" := by
  rcases h with hlabel | hsecond
  · exact hlabel
  · exact fun hfirst => hnamed ⟨hfirst, by simp [hsecond]⟩

/-- Two parameters with names of their own inside of the initializer are called the same
exactly if they clash. -/
theorem Parameter.Called.eq_iff_clashes (ha : a.Called name) (hb : b.Called other)
    (hnamed : ¬ a.Nameless) (hnamed' : ¬ b.Nameless) (hlocal : a.localName ≠ b.localName) :
    name = other ↔ a.Clashes b := by
  cases ha with
  | second _ hfirst hsecond _ =>
      cases hb with
      | second _ hfirst' hsecond' _ =>
          have hne : name ≠ other := by
            simpa [localName, hsecond, hsecond'] using hlocal
          refine iff_of_false hne ?_
          rintro (⟨hlabel, -⟩ | ⟨hlabel, -, -⟩ | ⟨hlabel, -, -⟩)
          · exact hlabel hfirst
          · exact hlabel hfirst
          · exact hlabel hfirst'
      | first hname' =>
          have hlabel := labelled_of_called_first hnamed' hname'
          constructor
          · rintro rfl
            exact .labelRight hlabel hfirst hsecond
          · rintro (⟨hne, -⟩ | ⟨hne, -, -⟩ | ⟨-, -, heq⟩)
            · exact absurd hfirst hne
            · exact absurd hfirst hne
            · exact Option.some.inj (hsecond.symm.trans heq)
  | first hname =>
      have hlabel := labelled_of_called_first hnamed hname
      cases hb with
      | second _ hfirst' hsecond' _ =>
          constructor
          · rintro rfl
            exact .labelLeft hlabel hfirst' hsecond'
          · rintro (⟨-, heq⟩ | ⟨-, -, heq⟩ | ⟨hne, -, -⟩)
            · exact absurd (heq.symm.trans hfirst') hlabel
            · exact Option.some.inj (heq.symm.trans hsecond')
            · exact absurd hfirst' hne
      | first hname' =>
          have hlabel' := labelled_of_called_first hnamed' hname'
          constructor
          · exact fun heq => .labels hlabel heq.symm
          · rintro (⟨-, heq⟩ | ⟨-, hfirst, -⟩ | ⟨-, hfirst, -⟩)
            · exact heq.symm
            · exact absurd hfirst hlabel'
            · exact absurd hfirst hlabel

end Parameter

theorem forall₂_called_iff {parameters : List Parameter} {names : List String} :
    List.Forall₂ Parameter.Called parameters names ↔
      names = parameters.map fun parameter => (ConstructorParameter.ofParameter parameter).name :=
  forall₂_iff_eq_map fun parameter name => @Parameter.called_iff parameter name

/-- The parameters of an initializer get names of their own exactly if it tells them apart. -/
theorem Initializer.nodup_called_iff {declared : Initializer} {names : List String}
    (hlocal : (declared.parameters.map Parameter.localName).Nodup)
    (hnames : List.Forall₂ Parameter.Called declared.parameters names) :
    names.Nodup ∧ "_" ∉ names ↔ declared.TellsApart := by
  obtain rfl := forall₂_called_iff.1 hnames
  have hcalled : ∀ parameter : Parameter,
      parameter.Called (ConstructorParameter.ofParameter parameter).name :=
    fun _ => Parameter.called_iff.2 rfl
  have hwildcard : "_" ∉ declared.parameters.map
      (fun parameter => (ConstructorParameter.ofParameter parameter).name) ↔
      ∀ parameter ∈ declared.parameters, ¬ parameter.Nameless := by
    simp only [List.mem_map, not_exists, not_and]
    exact forall₂_congr fun parameter _ => not_congr (hcalled parameter).eq_wildcard_iff
  rw [List.Nodup, List.pairwise_map] at hlocal ⊢
  constructor
  · rintro ⟨hnodup, hnone⟩
    have hnamed := hwildcard.1 hnone
    refine ⟨hnamed, (hnodup.and hlocal).imp_of_mem ?_⟩
    rintro a b ha hb ⟨hne, hlocal⟩ hclash
    exact hne (((hcalled a).eq_iff_clashes (hcalled b) (hnamed a ha) (hnamed b hb) hlocal).2 hclash)
  · rintro ⟨hnamed, hapart⟩
    refine ⟨(hapart.and hlocal).imp_of_mem ?_, hwildcard.2 hnamed⟩
    rintro a b ha hb ⟨hclash, hlocal⟩ heq
    exact hclash (((hcalled a).eq_iff_clashes (hcalled b) (hnamed a ha) (hnamed b hb) hlocal).1 heq)

/-! ## Properties of a declaration -/

/-- The names of memberwise parameters are names of stored instance properties. -/
theorem Memberwise.sublist_storedNames {members : List Member}
    {parameters : List GeneratedParameter} {arguments : List Argument}
    (h : Memberwise members parameters arguments) :
    (parameters.map (·.name)).Sublist (members.filterMap Member.storedName?) := by
  induction h with
  | nil => exact .slnil
  | @keep property binding _ _ _ _ _ hstores hstatic _ _ _ _ ih =>
      rw [List.filterMap_cons_some (hstores.storedName? hstatic)]
      exact ih.cons_cons _
  | @skip m rest _ _ _ _ ih => exact ih.trans ((List.sublist_cons_self m rest).filterMap _)

theorem Memberwise.wildcard_not_mem {members : List Member}
    {parameters : List GeneratedParameter} {arguments : List Argument}
    (h : Memberwise members parameters arguments) : "_" ∉ parameters.map (·.name) := by
  intro hmem
  obtain ⟨parameter, hparameter, hname⟩ := List.mem_map.1 hmem
  obtain ⟨property, binding, -, hstores, -, hpattern, -⟩ := h.exists_of_mem hparameter
  exact hstores.ne_wildcard (hpattern.symm.trans hname)

theorem Memberwise.values_eq {members : List Member} {parameters : List GeneratedParameter}
    {arguments : List Argument} (h : Memberwise members parameters arguments) :
    arguments.map (·.value) = parameters.map (·.name) := by
  induction h with
  | nil => rfl
  | keep _ _ _ _ _ _ ih => simp only [List.map_cons, ih]
  | skip _ _ ih => exact ih

/-! ## Generated functions -/

/-- A function that hands its parameters on is well formed if they have names of their own. -/
theorem GeneratedFunction.wellFormed_iff {function : GeneratedFunction}
    (hvalues : ∀ arguments, function.body = .selfCall arguments →
      arguments.map (·.value) = function.parameters.map (·.name)) :
    function.WellFormed ↔ (function.parameters.map (·.name)).Nodup ∧
      "_" ∉ function.parameters.map (·.name) := by
  constructor
  · exact fun h => ⟨h.nodup, h.named⟩
  · rintro ⟨hnodup, hnamed⟩
    refine ⟨hnodup, hnamed, fun arguments hbody argument hargument => ?_⟩
    have hmem : argument.value ∈ function.parameters.map (·.name) := by
      rw [← hvalues arguments hbody]
      exact List.mem_map_of_mem hargument
    have hcount := List.count_eq_one_of_mem hnodup hmem
    rwa [List.count, List.countP_map] at hcount

theorem TypeDecl.FirstInitializer.unique {decl : TypeDecl} {declared other : Initializer}
    (h : decl.FirstInitializer declared) (hother : decl.FirstInitializer other) :
    declared = other :=
  Member.initializer.inj (IsFirst.unique h hother)

/-- A generated function is well formed exactly if it does not come from an initializer or
that one tells its parameters apart. -/
theorem wellFormed_iff_tellsApart {decl : TypeDecl} {generation : Generation}
    (hgeneration : Generation.ofDecl decl = .ok generation)
    (hlocal : ∀ declared, Member.initializer declared ∈ decl.members →
      (declared.parameters.map Parameter.localName).Nodup)
    (hproperties : decl.storedNames.Nodup) :
    generation.function.WellFormed ↔
      (generation.function.strategy = .manualConstructor →
        ∀ declared, decl.FirstInitializer declared → declared.TellsApart) := by
  have hbuilds := generator_eq_ok_iff.1 (Generation.parts_of_ofDecl hgeneration).1
  generalize generation.function = function at hbuilds ⊢
  cases hbuilds with
  | enumFirstCase => exact iff_of_true ⟨by simp, by simp, by simp⟩ (by simp)
  | rawRepresentableSingleton => exact iff_of_true ⟨by simp, by simp, by simp⟩ (by simp)
  | @manualConstructor declared parameters arguments _ _ _ hfirst hparameters harguments =>
      have hnames : List.Forall₂ Parameter.Called declared.parameters
          (parameters.map (·.name)) :=
        List.forall₂_map_right_iff.2 (hparameters.imp fun _ _ h => h.called)
      have hvalues : List.Forall₂ Parameter.Called declared.parameters
          (arguments.map (·.value)) :=
        List.forall₂_map_right_iff.2 (harguments.imp fun _ _ h => h.called)
      rw [GeneratedFunction.wellFormed_iff,
        Initializer.nodup_called_iff (hlocal declared hfirst.mem) hnames]
      · constructor
        · intro hapart _ other hother
          rwa [hother.unique hfirst]
        · exact fun h => h rfl declared hfirst
      · rintro _ ⟨⟩
        rw [forall₂_called_iff.1 hvalues, forall₂_called_iff.1 hnames]
  | memberwiseDefault _ _ _ _ hmembers =>
      refine iff_of_true ?_ (by simp)
      rw [GeneratedFunction.wellFormed_iff]
      · exact ⟨hproperties.sublist hmembers.sublist_storedNames, hmembers.wildcard_not_mem⟩
      · rintro _ ⟨⟩
        exact hmembers.values_eq

/-- A struct with a property `x: Int` and one initializer. -/
def initialized (parameters : List Parameter) : TypeDecl where
  header := { (default : Header) with keyword := "struct", name := "A" }
  members := [.property (annotatedX [] "5"), .initializer ⟨[], [], parameters, 0, 0, false⟩]
  conditional := []

theorem parameters_of_mem_initialized {parameters : List Parameter} {declared : Initializer}
    (h : .initializer declared ∈ (initialized parameters).members) :
    declared.parameters = parameters := by
  simp only [initialized, List.mem_cons, reduceCtorEq, Member.initializer.injEq, List.not_mem_nil,
    or_false, false_or] at h
  rw [h]

/-- An initializer `init(_ x: Int, at y: Int)`. -/
def partlyLabelled : List Parameter :=
  [⟨"_", some "x", "Int", none, false⟩, ⟨"at", some "y", "Int", none, false⟩]

theorem wellFormed_iff_tellsApart_partlyLabelled :
    (initialized partlyLabelled).storedNames = ["x"] ∧
      ∃ generation, Generation.ofDecl (initialized partlyLabelled) = .ok generation ∧
        generation.function.parameters.map (·.name) = ["x", "at"] ∧
        generation.function.WellFormed := by
  let function : GeneratedFunction := ⟨"fake", .manualConstructor,
    [⟨"x", .ofText "Int", "_autoFakeDefault_x()"⟩, ⟨"at", .ofText "Int", "0"⟩],
    .selfCall [⟨"x", none⟩, ⟨"at", some "at"⟩], "Self"⟩
  let generation : Generation := ⟨Report.ofDecl (initialized partlyLabelled), function,
    (Report.ofDecl (initialized partlyLabelled)).helpers⟩
  have hgeneration : Generation.ofDecl (initialized partlyLabelled) = .ok generation := by
    decide +kernel
  have hstored : (initialized partlyLabelled).storedNames = ["x"] := by decide +kernel
  have hlocal : ∀ declared, .initializer declared ∈ (initialized partlyLabelled).members →
      (declared.parameters.map Parameter.localName).Nodup := by
    intro declared hdeclared
    rw [parameters_of_mem_initialized hdeclared]
    decide
  have hiff := wellFormed_iff_tellsApart hgeneration hlocal (by rw [hstored]; decide)
  refine ⟨hstored, generation, hgeneration, rfl, hiff.2 fun _ declared hdeclared => ?_⟩
  have hparameters := parameters_of_mem_initialized (IsFirst.mem hdeclared)
  constructor
  · rw [hparameters]
    simp [partlyLabelled, Parameter.Nameless]
  · rw [hparameters, partlyLabelled, List.pairwise_pair]
    rintro (⟨hlabel, -⟩ | ⟨hlabel, -, -⟩ | ⟨-, -, heq⟩)
    · exact hlabel rfl
    · exact hlabel rfl
    · exact absurd heq (by decide)

/-- An initializer `init(at x: Int, at y: Int)`. -/
def repeatedLabel : List Parameter :=
  [⟨"at", some "x", "Int", none, false⟩, ⟨"at", some "y", "Int", none, false⟩]

/-- Its parameters have different local names, but one label. -/
theorem not_wellFormed_repeatedLabel :
    (∀ declared, .initializer declared ∈ (initialized repeatedLabel).members →
      (declared.parameters.map Parameter.localName).Nodup) ∧
    (initialized repeatedLabel).storedNames.Nodup ∧
    ∃ generation, Generation.ofDecl (initialized repeatedLabel) = .ok generation ∧
      generation.function.parameters.map (·.name) = ["at", "at"] ∧
      ¬ generation.function.WellFormed := by
  let parameter : GeneratedParameter := ⟨"at", .ofText "Int", "0"⟩
  let function : GeneratedFunction := ⟨"fake", .manualConstructor, [parameter, parameter],
    .selfCall [⟨"at", some "at"⟩, ⟨"at", some "at"⟩], "Self"⟩
  let generation : Generation := ⟨Report.ofDecl (initialized repeatedLabel), function,
    (Report.ofDecl (initialized repeatedLabel)).helpers⟩
  refine ⟨?_, by decide +kernel, generation, by decide +kernel, rfl, ?_⟩
  · intro declared hdeclared
    rw [parameters_of_mem_initialized hdeclared]
    decide
  · intro hwell
    exact absurd hwell.nodup (by decide)

end Fakery
