import Fakery.Proofs.Fake.Signature

/-!
# The implicit initializer

A struct that declares no initializer has an implicit one, which takes the stored properties
in order.  A property without a value has to be passed, unless it is an optional variable, and
a constant that has its value already cannot be passed.  A memberwise function passes what
stands alone in its declaration and has a written type, and does not look at values.  So its
call need not fit the implicit initializer; the theorem says when it does.
-/

namespace Fakery

/-! ## Stored properties -/

structure StoredVariable where
  name : String
  /-- Whether it is declared by `let`. -/
  isConstant : Bool
  hasValue : Bool
  type : Option WrittenType
  /-- Whether it is the one name that its declaration introduces. -/
  isAlone : Bool
  deriving DecidableEq, Repr

namespace StoredVariable

def label (v : StoredVariable) : String :=
  withoutBackticks v.name

/-- An optional variable is empty unless something is passed for it. -/
def isOptionalVariable (v : StoredVariable) : Bool :=
  !v.isConstant && v.type.any (·.isOptional)

/-- The implicit initializer cannot be called without it. -/
def isRequired (v : StoredVariable) : Bool :=
  !v.hasValue && !v.isOptionalVariable

/-- The implicit initializer has no parameter for it. -/
def isRejected (v : StoredVariable) : Bool :=
  v.isConstant && v.hasValue

/-- A memberwise function has a parameter for it and passes it. -/
def isPassed (v : StoredVariable) : Bool :=
  v.isAlone && v.type.isSome

end StoredVariable

/-- The types that names of one declaration have: a name without type and value has the type
of the name behind it. -/
def declaredTypes : List Binding → List (Option WrittenType)
  | [] => []
  | binding :: rest =>
    let later := declaredTypes rest
    let own := (binding.typeText.filter (· != "")).map WrittenType.ofText
    own.or (if binding.initializer.isNone then later.head?.join else none) :: later

def Property.introduced? (property : Property) (declared : Binding × Option WrittenType) :
    Option StoredVariable :=
  if declared.1.isStored then
    some {
      name := declared.1.pattern
      isConstant := property.specifier == "let"
      hasValue := declared.1.initializer.isSome
      type := declared.2
      isAlone := property.bindings.length == 1 && declared.1.isIdentifier }
  else none

def Member.variables : Member → List StoredVariable
  | .property p =>
    if p.modifiers.contains "static" then []
    else (p.bindings.zip (declaredTypes p.bindings)).filterMap p.introduced?
  | _ => []

/-- The stored properties of a type, in the order of their declaration. -/
def TypeDecl.variables (decl : TypeDecl) : List StoredVariable :=
  decl.members.flatMap Member.variables

/-- The implicit initializer of a type can be called with the given labels. -/
structure TypeDecl.Fits (decl : TypeDecl) (labels : List String) : Prop where
  isStruct : decl.header.keyword = "struct"
  uninitialized : ∀ declared, .initializer declared ∉ decl.members
  ordered : labels.Sublist ((decl.variables.filter fun v => !v.isRejected).map (·.label))
  complete : ∀ v ∈ decl.variables, v.isRequired = true → v.label ∈ labels

/-! ## What a memberwise function passes -/

theorem Property.stores_iff {property : Property} {binding : Binding} :
    property.Stores binding ↔
      property.bindings = [binding] ∧ binding.isIdentifier = true ∧ binding.isStored = true := by
  rw [Binding.isStored_iff, Binding.isIdentifier]
  constructor
  · intro h
    exact ⟨h.bindings_eq, h.isIdentifier, h.observed⟩
  · rintro ⟨hbindings, hidentifier, hobserved⟩
    simp only [Bool.and_eq_true, bne_iff_ne, ne_eq] at hidentifier
    exact ⟨hbindings, hidentifier.2, hidentifier.1, hobserved⟩

theorem Member.variables_of_stores {property : Property} {binding : Binding} {text : String}
    (hstores : property.Stores binding) (hstatic : "static" ∉ property.modifiers)
    (htype : binding.typeText = some text) (htext : text ≠ "") :
    ∃ v, (Member.property property).variables = [v] ∧ v.isPassed = true ∧
      v.label = withoutBackticks binding.pattern := by
  obtain ⟨hbindings, hidentifier, hstored⟩ := Property.stores_iff.1 hstores
  refine ⟨⟨binding.pattern, property.specifier == "let", binding.initializer.isSome,
    some (.ofText text), true⟩, ?_, rfl, rfl⟩
  simp [Member.variables, hstatic, hbindings, declaredTypes, Property.introduced?, hstored,
    hidentifier, htype, htext]

/-- What a memberwise function passes is a stored and typed property. -/
theorem Member.exists_stores_of_isPassed {m : Member} {v : StoredVariable}
    (hv : v ∈ m.variables) (hpassed : v.isPassed = true) :
    ∃ property binding, m = .property property ∧ property.Stores binding ∧
      "static" ∉ property.modifiers ∧ binding.IsTyped := by
  cases m with
  | property property =>
      simp only [Member.variables] at hv
      split at hv
      · cases hv
      · next hstatic =>
          obtain ⟨declared, hdeclared, hvariable⟩ := List.mem_filterMap.1 hv
          simp only [Property.introduced?, Option.ite_none_right_eq_some, Option.some.injEq]
            at hvariable
          obtain ⟨hstored, rfl⟩ := hvariable
          simp only [StoredVariable.isPassed, Bool.and_eq_true, beq_iff_eq] at hpassed
          obtain ⟨⟨hlength, hidentifier⟩, htyped⟩ := hpassed
          obtain ⟨binding, hbindings⟩ := List.length_eq_one_iff.1 hlength
          rw [hbindings] at hdeclared
          simp only [declaredTypes, List.zip_cons_cons, List.zip_nil_right,
            List.mem_singleton] at hdeclared
          subst hdeclared
          refine ⟨property, binding, rfl,
            Property.stores_iff.2 ⟨hbindings, hidentifier, hstored⟩, by simpa using hstatic, ?_⟩
          exact binding.isTyped_iff.1 (by simpa using htyped)
  | _ => cases hv

/-- The labels of a memberwise call are those of the properties that are passed. -/
theorem Memberwise.labels_eq {members : List Member} {parameters : List GeneratedParameter}
    {arguments : List Argument} (h : Memberwise members parameters arguments) :
    arguments.map (·.label) =
      ((members.flatMap Member.variables).filter (·.isPassed)).map fun v => some v.label := by
  induction h with
  | nil => rfl
  | keep hstores hstatic htype htext _ _ ih =>
      obtain ⟨v, hvariables, hpassed, hlabel⟩ :=
        Member.variables_of_stores hstores hstatic htype htext
      rw [List.map_cons, List.flatMap_cons, hvariables, List.singleton_append,
        List.filter_cons_of_pos (by simpa using hpassed), List.map_cons, hlabel, ih]
  | @skip m rest _ _ hskip _ ih =>
      have hnone : m.variables.filter (·.isPassed) = [] := by
        refine List.filter_eq_nil_iff.2 fun v hv hpassed => ?_
        obtain ⟨property, binding, hm, hstores, hstatic, htyped⟩ :=
          Member.exists_stores_of_isPassed hv hpassed
        exact (hskip property binding hm hstores).elim hstatic (fun h => h htyped)
      rw [List.flatMap_cons, List.filter_append, hnone, List.nil_append, ih]

/-! ## When the call fits -/

/-- The properties that are passed fit the implicit initializer exactly if it requires no
others and rejects none of them. -/
theorem TypeDecl.fits_iff {decl : TypeDecl} (hstruct : decl.header.keyword = "struct")
    (hnone : ∀ declared, .initializer declared ∉ decl.members)
    (hnodup : (decl.variables.map (·.label)).Nodup) :
    decl.Fits ((decl.variables.filter (·.isPassed)).map (·.label)) ↔
      ∀ v ∈ decl.variables, (v.isRequired = true → v.isPassed = true) ∧
        (v.isRejected = true → v.isPassed = false) := by
  have hsame : ∀ v ∈ decl.variables, ∀ w ∈ decl.variables, v.label = w.label → v = w :=
    fun v hv w hw hlabel => List.inj_on_of_nodup_map hnodup hv hw hlabel
  constructor
  · intro hfits v hv
    constructor
    · intro hrequired
      obtain ⟨w, hw, hlabel⟩ := List.mem_map.1 (hfits.complete v hv hrequired)
      obtain ⟨hw, hpassed⟩ := List.mem_filter.1 hw
      rwa [hsame v hv w hw hlabel.symm]
    · intro hrejected
      by_contra hpassed
      rw [Bool.not_eq_false] at hpassed
      have hmem : v.label ∈ (decl.variables.filter (·.isPassed)).map (·.label) :=
        List.mem_map_of_mem (List.mem_filter.2 ⟨hv, hpassed⟩)
      obtain ⟨w, hw, hlabel⟩ := List.mem_map.1 (hfits.ordered.subset hmem)
      obtain ⟨hw, hkept⟩ := List.mem_filter.1 hw
      rw [← hsame v hv w hw hlabel.symm, hrejected] at hkept
      cases hkept
  · intro hall
    have hkept : decl.variables.filter (·.isPassed) =
        (decl.variables.filter fun v => !v.isRejected).filter (·.isPassed) := by
      rw [List.filter_filter]
      refine List.filter_congr fun v hv => ?_
      cases hpassed : v.isPassed with
      | false => rfl
      | true =>
          have hrejected : v.isRejected ≠ true := fun h => by
            simp [(hall v hv).2 h] at hpassed
          simp [hrejected]
    refine ⟨hstruct, hnone, ?_, fun v hv hrequired => ?_⟩
    · rw [hkept]
      exact List.filter_sublist.map _
    · exact List.mem_map_of_mem (List.mem_filter.2 ⟨hv, (hall v hv).1 hrequired⟩)

/-- A memberwise function passes, in the order of their declaration, the stored properties that
stand alone in their declaration and have a written type, whatever their values.  Its call fits
the implicit initializer exactly if that one requires no others and rejects none of them. -/
theorem memberwise_fits_iff {decl : TypeDecl} {generation : Generation}
    (hstruct : decl.header.keyword = "struct")
    (hnone : ∀ declared, .initializer declared ∉ decl.members)
    (hgeneration : Generation.ofDecl decl = .ok generation)
    (hstrategy : generation.function.strategy = .memberwiseDefault) :
    ∃ arguments, generation.function.body = .selfCall arguments ∧
      arguments.map (·.label) =
        (decl.variables.filter (·.isPassed)).map (fun v => some v.label) ∧
      ((decl.variables.map (·.label)).Nodup →
        (decl.Fits (arguments.filterMap (·.label)) ↔
          ∀ v ∈ decl.variables, (v.isRequired = true → v.isPassed = true) ∧
            (v.isRejected = true → v.isPassed = false))) := by
  have hbuilds := generator_eq_ok_iff.1 (Generation.parts_of_ofDecl hgeneration).1
  generalize generation.function = function at hbuilds hstrategy ⊢
  cases hbuilds with
  | @memberwiseDefault parameters arguments _ _ _ _ hmembers =>
      have hlabels := hmembers.labels_eq
      refine ⟨arguments, rfl, hlabels, fun hnodup => ?_⟩
      have hpassed : arguments.filterMap (·.label) =
          (decl.variables.filter (·.isPassed)).map (·.label) := by
        have hmap := congrArg (List.filterMap id) hlabels
        simpa [List.filterMap_map, Function.comp_def, TypeDecl.variables] using hmap
      rw [hpassed, TypeDecl.fits_iff hstruct hnone hnodup]
  | _ => cases hstrategy

/-- A struct with the given properties and nothing else. -/
def structOf (properties : List Property) : TypeDecl where
  header := { (default : Header) with keyword := "struct", name := "A" }
  members := properties.map .property
  conditional := []

theorem initializer_not_mem_structOf (properties : List Property) (declared : Initializer) :
    .initializer declared ∉ (structOf properties).members := by
  simp [structOf]

/-- The properties `let id: Int`, `var note: String?, tag: Int?`, `var count = 0` and
`var limit: Int = 9`. -/
def fittingProperties : List Property := [
  ⟨[], [], "let", [⟨"id", some "Int", none, none⟩], 0, 0⟩,
  ⟨[], [], "var", [⟨"note", some "String?", none, none⟩, ⟨"tag", some "Int?", none, none⟩], 0, 0⟩,
  ⟨[], [], "var", [⟨"count", none, some "0", none⟩], 0, 0⟩,
  ⟨[], [], "var", [⟨"limit", some "Int", some "9", none⟩], 0, 0⟩]

/-- What is generated for properties by a call of the implicit initializer. -/
def callOf (properties : List Property) (parameters : List GeneratedParameter)
    (arguments : List Argument) : Generation :=
  ⟨Report.ofDecl (structOf properties),
    ⟨"fake", .memberwiseDefault, parameters, .selfCall arguments, "Self"⟩, []⟩

theorem memberwise_fits_iff_fittingProperties :
    ∃ generation arguments,
      Generation.ofDecl (structOf fittingProperties) = .ok generation ∧
        generation.function.body = .selfCall arguments ∧
        arguments.map (·.label) = [some "id", some "limit"] ∧
        (structOf fittingProperties).Fits (arguments.filterMap (·.label)) := by
  have hgeneration : Generation.ofDecl (structOf fittingProperties) =
      .ok (callOf fittingProperties [⟨"id", .ofText "Int", "0"⟩, ⟨"limit", .ofText "Int", "0"⟩]
        [⟨"id", some "id"⟩, ⟨"limit", some "limit"⟩]) := by
    decide +kernel
  obtain ⟨arguments, hbody, hlabels, hfits⟩ := memberwise_fits_iff rfl
    (initializer_not_mem_structOf fittingProperties) hgeneration rfl
  refine ⟨_, arguments, hgeneration, hbody, hlabels.trans (by decide +kernel),
    (hfits (by decide +kernel)).2 ?_⟩
  decide +kernel

/-- The property `let x: Int = 5`. -/
def valuedConstant : Property :=
  ⟨[], [], "let", [⟨"x", some "Int", some "5", none⟩], 0, 0⟩

/-- The properties `let x: Int, y: Int`. -/
def twoConstants : Property :=
  ⟨[], [], "let", [⟨"x", some "Int", none, none⟩, ⟨"y", some "Int", none, none⟩], 0, 0⟩

/-- A constant that has its value is passed, and constants of one declaration are not. -/
theorem not_fits_constants :
    (∃ generation, Generation.ofDecl (structOf [valuedConstant]) = .ok generation ∧
      generation.function.strategy = .memberwiseDefault ∧
      generation.function.body = .selfCall [⟨"x", some "x"⟩] ∧
      ¬ (structOf [valuedConstant]).Fits ["x"]) ∧
    ∃ generation, Generation.ofDecl (structOf [twoConstants]) = .ok generation ∧
      generation.function.strategy = .memberwiseDefault ∧
      generation.function.body = .selfCall [] ∧
      ¬ (structOf [twoConstants]).Fits [] := by
  refine ⟨⟨callOf [valuedConstant] [⟨"x", .ofText "Int", "0"⟩] [⟨"x", some "x"⟩],
      by decide +kernel, rfl, rfl, ?_⟩,
    ⟨callOf [twoConstants] [] [], by decide +kernel, rfl, rfl, ?_⟩⟩
  · intro hfits
    exact absurd hfits.ordered (by decide +kernel)
  · intro hfits
    have hx : (⟨"x", true, false, some (.ofText "Int"), false⟩ : StoredVariable) ∈
        (structOf [twoConstants]).variables := by decide +kernel
    cases hfits.complete _ hx (by decide +kernel)

end Fakery
