import Fakery.Fake.Generator
import Fakery.Proofs.Text.Solid
import Mathlib.Data.List.Forall2
import Mathlib.Data.List.TakeWhile

/-!
# Which function is generated

The four strategies are described on declarations as they are read, without the report
in between: a relation says which function belongs to a declaration.  The generator
gives exactly the functions of this relation, and refuses exactly the declarations that
have none.
-/

namespace Fakery

/-- `x` is the first element of a list with a property. -/
def IsFirst {α : Type} (p : α → Prop) (xs : List α) (x : α) : Prop :=
  ∃ before after, xs = before ++ x :: after ∧ p x ∧ ∀ y ∈ before, ¬ p y

section First

variable {α β : Type}

theorem isFirst_cons {p : α → Prop} {x y : α} {ys : List α} :
    IsFirst p (y :: ys) x ↔ (p y ∧ x = y) ∨ (¬ p y ∧ IsFirst p ys x) := by
  constructor
  · rintro ⟨before, after, hys, hx, hbefore⟩
    cases before with
    | nil =>
        obtain ⟨rfl, -⟩ := List.cons.inj hys
        exact Or.inl ⟨hx, rfl⟩
    | cons z before =>
        obtain ⟨rfl, htail⟩ := List.cons.inj hys
        obtain ⟨hy, hbefore⟩ := List.forall_mem_cons.1 hbefore
        exact Or.inr ⟨hy, before, after, htail, hx, hbefore⟩
  · rintro (⟨hy, rfl⟩ | ⟨hy, before, after, rfl, hx, hbefore⟩)
    · exact ⟨[], ys, rfl, hy, by simp⟩
    · exact ⟨y :: before, after, rfl, hx, List.forall_mem_cons.2 ⟨hy, hbefore⟩⟩

theorem not_isFirst_nil {p : α → Prop} {x : α} : ¬ IsFirst p [] x := by
  rintro ⟨before, after, hnil, -⟩
  simp at hnil

theorem IsFirst.holds {p : α → Prop} {xs : List α} {x : α} (h : IsFirst p xs x) : p x := by
  obtain ⟨-, -, -, hx, -⟩ := h
  exact hx

theorem IsFirst.unique {p : α → Prop} {xs : List α} {x y : α} (hx : IsFirst p xs x)
    (hy : IsFirst p xs y) : x = y := by
  induction xs with
  | nil => exact absurd hx not_isFirst_nil
  | cons z zs ih =>
      rcases isFirst_cons.1 hx with ⟨hz, rfl⟩ | ⟨hz, hx⟩
      · rcases isFirst_cons.1 hy with ⟨-, rfl⟩ | ⟨hz', -⟩
        · rfl
        · exact absurd hz hz'
      · rcases isFirst_cons.1 hy with ⟨hz', -⟩ | ⟨-, hy⟩
        · exact absurd hz' hz
        · exact ih hx hy

theorem IsFirst.mem {p : α → Prop} {xs : List α} {x : α} (h : IsFirst p xs x) : x ∈ xs := by
  obtain ⟨before, after, rfl, -⟩ := h
  simp

theorem isFirst_congr {p q : α → Prop} {xs : List α} (h : ∀ x ∈ xs, p x ↔ q x) {x : α} :
    IsFirst p xs x ↔ IsFirst q xs x := by
  induction xs with
  | nil => simp [not_isFirst_nil]
  | cons y ys ih =>
      obtain ⟨hy, hys⟩ := List.forall_mem_cons.1 h
      rw [isFirst_cons, isFirst_cons, hy, ih hys]

theorem exists_isFirst {p : α → Prop} {xs : List α} {x : α} (hx : x ∈ xs) (hp : p x) :
    ∃ first, IsFirst p xs first := by
  induction xs with
  | nil => cases hx
  | cons y ys ih =>
      by_cases hy : p y
      · exact ⟨y, isFirst_cons.2 (.inl ⟨hy, rfl⟩)⟩
      · have hne : x ≠ y := by
          rintro rfl
          exact hy hp
        obtain ⟨first, hfirst⟩ := ih (List.mem_of_ne_of_mem hne hx)
        exact ⟨first, isFirst_cons.2 (.inr ⟨hy, hfirst⟩)⟩

/-- The first element with a property stands before one that has it, or is that one. -/
theorem isFirst_append_cons {p : α → Prop} {before after : List α} {x y : α} (hy : p y) :
    IsFirst p (before ++ y :: after) x ↔
      IsFirst p before x ∨ (∀ z ∈ before, ¬ p z) ∧ x = y := by
  induction before with
  | nil => simp [isFirst_cons, not_isFirst_nil, hy]
  | cons z before ih =>
      rw [List.cons_append, isFirst_cons, isFirst_cons, ih, List.forall_mem_cons]
      tauto

/-- A search among the images of a list finds the image of the first element whose image
fits. -/
theorem find?_filterMap_eq_some_iff {f : α → Option β} {q : β → Bool} {xs : List α} {b : β} :
    (xs.filterMap f).find? q = some b ↔
      ∃ x, IsFirst (fun x => ∃ y, f x = some y ∧ q y = true) xs x ∧ f x = some b := by
  induction xs with
  | nil => simp [not_isFirst_nil]
  | cons x xs ih =>
      simp only [isFirst_cons]
      cases hx : f x with
      | none =>
          rw [List.filterMap_cons_none hx, ih]
          simp
      | some y =>
          rw [List.filterMap_cons_some hx, List.find?_cons]
          cases hy : q y with
          | true => simp [hx, hy]
          | false =>
              rw [ih]
              simp [hy]

theorem find?_map_eq_some_iff {f : α → β} {q : β → Bool} {xs : List α} {b : β} :
    (xs.map f).find? q = some b ↔ ∃ x, IsFirst (fun x => q (f x) = true) xs x ∧ f x = b := by
  simpa using @find?_filterMap_eq_some_iff α β (fun x => some (f x)) q xs b

/-- The first of several lists, one behind the other, is the first of the first one that is
not empty. -/
theorem head?_flatMap_eq_some_iff {f : α → List β} {xs : List α} {b : β} :
    (xs.flatMap f).head? = some b ↔
      ∃ x, IsFirst (fun x => f x ≠ []) xs x ∧ (f x).head? = some b := by
  induction xs with
  | nil => simp [not_isFirst_nil]
  | cons x xs ih =>
      simp only [isFirst_cons, List.flatMap_cons]
      cases hx : f x with
      | nil => simp [ih]
      | cons y ys => simp [hx]

end First

/-! ## The strategies in words of the declaration -/

/-- The one binding of a stored property: it introduces a name, and its accessors, if there
are any, only observe it. -/
structure Property.Stores (property : Property) (binding : Binding) : Prop where
  bindings_eq : property.bindings = [binding]
  ne_wildcard : binding.pattern ≠ "_"
  not_tuple : binding.pattern.toList.head? ≠ some '('
  observed : binding.accessor = none ∨ ∃ specifiers,
    binding.accessor = some (.accessors specifiers) ∧ ∀ s ∈ specifiers, s = "willSet" ∨ s = "didSet"

/-- The first default annotation of a property carries an expression. -/
def Property.IsAnnotated (property : Property) : Prop :=
  ∃ found, IsFirst (fun found : Attribute => found.name = "AutoFakeDefault") property.attributes found ∧
    annotationExpression found ≠ none

/-- A type is written behind the name. -/
def Binding.IsTyped (binding : Binding) : Prop :=
  ∃ text, binding.typeText = some text ∧ text ≠ ""

/-- An inherited type that trims to `RawRepresentable`, with or without a generic clause. -/
def NamesRawRepresentable (entry : String) : Prop :=
  ∃ blanks clause, Text.trim entry.toList = "RawRepresentable".toList ++ (blanks ++ clause) ∧
    (∀ c ∈ blanks, Text.isBlank c = true) ∧ (clause = [] ∨ ∃ inner, clause = '<' :: (inner ++ ['>']))

/-- The initializer `init(from decoder: Decoder)`, whatever parameters follow. -/
def Initializer.IsDecoding (declared : Initializer) : Prop :=
  ∃ first rest, declared.parameters = first :: rest ∧ first.firstName = "from" ∧
    first.secondName = some "decoder" ∧ Text.trimmed first.typeText = "Decoder"

/-- What a parameter is called in generated code: by its second name if the first is a
wildcard and there is a second one. -/
inductive Parameter.Called (parameter : Parameter) : String → Prop
  | second (name : String) (hfirst : parameter.firstName = "_")
      (hsecond : parameter.secondName = some name) (hname : name ≠ "") : parameter.Called name
  | first (hname : parameter.firstName ≠ "_" ∨ parameter.secondName.getD "" = "") :
      parameter.Called parameter.firstName

/-- A parameter defaults to the call of a helper if there is a default of its own, and else
to what its type chooses. -/
inductive DefaultsTo (own : Prop) (name : String) (type : WrittenType) : String → Prop
  | helper (h : own) : DefaultsTo own name type (helperName name ++ "()")
  | typed (h : ¬ own) : DefaultsTo own name type type.defaultExpression

namespace TypeDecl

/-- The first element of the first case line of an enum that has any. -/
def FirstElement (decl : TypeDecl) (element : CaseElement) : Prop :=
  decl.header.keyword = "enum" ∧ ∃ group rest,
    IsFirst (fun m => ∃ group, m = .cases group ∧ group.elements ≠ []) decl.members (.cases group) ∧
      group.elements = element :: rest

/-- The name of the first stored static property of a struct that is `RawRepresentable`. -/
def Singleton (decl : TypeDecl) (name : String) : Prop :=
  decl.header.keyword = "struct" ∧ (∃ entry ∈ decl.header.inherited, NamesRawRepresentable entry) ∧
    ∃ property binding,
      IsFirst (fun m => ∃ p b, m = .property p ∧ p.Stores b ∧ "static" ∈ p.modifiers) decl.members
        (.property property) ∧
      property.Stores binding ∧ binding.pattern = name

/-- The first initializer that does not decode. -/
def FirstInitializer (decl : TypeDecl) (declared : Initializer) : Prop :=
  IsFirst (fun m => ∃ i, m = .initializer i ∧ ¬ i.IsDecoding) decl.members (.initializer declared)

/-- The first stored property of a name carries a default of its own. -/
def NamesDefault (decl : TypeDecl) (name : String) : Prop :=
  ∃ property binding,
    IsFirst (fun m => ∃ p b, m = .property p ∧ p.Stores b ∧ b.pattern = name) decl.members
      (.property property) ∧
    property.Stores binding ∧ property.IsAnnotated ∧ binding.IsTyped

/-- The generated parameter of a parameter of an initializer. -/
structure Takes (decl : TypeDecl) (parameter : Parameter) (generated : GeneratedParameter) :
    Prop where
  called : parameter.Called generated.name
  type_eq : generated.type = WrittenType.ofText parameter.typeText
  default : DefaultsTo (decl.NamesDefault generated.name) generated.name generated.type
    generated.default

end TypeDecl

structure Parameter.HandsOn (parameter : Parameter) (argument : Argument) : Prop where
  called : parameter.Called argument.value
  label_eq : argument.label =
    if parameter.firstName = "_" then none else some (withoutBackticks parameter.firstName)

/-- One parameter and one argument for each stored and typed instance property. -/
inductive Memberwise : List Member → List GeneratedParameter → List Argument → Prop
  | nil : Memberwise [] [] []
  | keep {property : Property} {binding : Binding} {text default : String} {rest : List Member}
      {parameters : List GeneratedParameter} {arguments : List Argument}
      (hstores : property.Stores binding) (hstatic : "static" ∉ property.modifiers)
      (htype : binding.typeText = some text) (htext : text ≠ "")
      (hdefault : DefaultsTo property.IsAnnotated binding.pattern (.ofText text) default)
      (hrest : Memberwise rest parameters arguments) :
      Memberwise (.property property :: rest)
        (⟨binding.pattern, .ofText text, default⟩ :: parameters)
        (⟨binding.pattern, some (withoutBackticks binding.pattern)⟩ :: arguments)
  | skip {m : Member} {rest : List Member} {parameters : List GeneratedParameter}
      {arguments : List Argument}
      (hskip : ∀ property binding, m = .property property → property.Stores binding →
        "static" ∈ property.modifiers ∨ ¬ binding.IsTyped)
      (hrest : Memberwise rest parameters arguments) :
      Memberwise (m :: rest) parameters arguments

def supportedKeywords : List String := ["struct", "class", "actor", "enum"]

/-- The function that belongs to a declaration.  Each strategy stands behind the ones
before it. -/
inductive TypeDecl.Builds (decl : TypeDecl) : GeneratedFunction → Prop
  | enumFirstCase {element : CaseElement} (hfirst : decl.FirstElement element) :
      decl.Builds ⟨"fake", .enumFirstCase, [], .memberReturn element.name
        (element.parameters.map fun values => values.map fun value =>
          ⟨(WrittenType.ofText value.typeText).defaultExpression, value.label⟩), "Self"⟩
  | rawRepresentableSingleton {name : String} (hname : decl.Singleton name) :
      decl.Builds ⟨"fake", .rawRepresentableSingleton, [], .memberReturn name none, "Self"⟩
  | manualConstructor {declared : Initializer} {parameters : List GeneratedParameter}
      {arguments : List Argument} (hkeyword : decl.header.keyword ∈ supportedKeywords)
      (hcase : ∀ element, ¬ decl.FirstElement element) (hsingleton : ∀ name, ¬ decl.Singleton name)
      (hfirst : decl.FirstInitializer declared)
      (hparameters : List.Forall₂ decl.Takes declared.parameters parameters)
      (harguments : List.Forall₂ Parameter.HandsOn declared.parameters arguments) :
      decl.Builds ⟨"fake", .manualConstructor, parameters, .selfCall arguments, "Self"⟩
  | memberwiseDefault {parameters : List GeneratedParameter} {arguments : List Argument}
      (hkeyword : decl.header.keyword ∈ supportedKeywords)
      (hcase : ∀ element, ¬ decl.FirstElement element) (hsingleton : ∀ name, ¬ decl.Singleton name)
      (hinitializer : ∀ declared, ¬ decl.FirstInitializer declared)
      (hmembers : Memberwise decl.members parameters arguments) :
      decl.Builds ⟨"fake", .memberwiseDefault, parameters, .selfCall arguments, "Self"⟩

/-! ## Fields of members -/

theorem Binding.isStored_iff {binding : Binding} :
    binding.isStored = true ↔ binding.accessor = none ∨ ∃ specifiers,
      binding.accessor = some (.accessors specifiers) ∧
        ∀ s ∈ specifiers, s = "willSet" ∨ s = "didSet" := by
  unfold Binding.isStored
  split <;> simp_all

theorem Property.isStored_iff {property : Property} {binding : Binding} {rest : List Binding}
    (hbindings : property.bindings = binding :: rest) (hname : binding.isIdentifier = true) :
    property.isStored = true ↔ property.Stores binding := by
  simp only [Binding.isIdentifier, Bool.and_eq_true, bne_iff_ne] at hname
  constructor
  · intro hstored
    rw [Property.isStored, hbindings] at hstored
    cases rest with
    | cons next rest => simp at hstored
    | nil => exact ⟨hbindings, hname.2, hname.1, Binding.isStored_iff.1 hstored⟩
  · rintro ⟨hsingle, -, -, hobserved⟩
    rw [Property.isStored, hsingle]
    exact Binding.isStored_iff.2 hobserved

theorem Property.Stores.isIdentifier {property : Property} {binding : Binding}
    (h : property.Stores binding) : binding.isIdentifier = true := by
  simp [Binding.isIdentifier, h.ne_wildcard, h.not_tuple]

theorem Property.Stores.unique {property : Property} {a b : Binding} (ha : property.Stores a)
    (hb : property.Stores b) : a = b :=
  List.singleton_inj.1 (ha.bindings_eq.symm.trans hb.bindings_eq)

/-- The first attribute of a name, as a search finds it. -/
theorem findAttribute_eq_some_iff {name : String} {attributes : List Attribute} {found : Attribute} :
    findAttribute name attributes = some found ↔
      IsFirst (fun found : Attribute => found.name = name) attributes found := by
  have hfind := @find?_map_eq_some_iff Attribute Attribute id (·.name == name) attributes found
  simpa [findAttribute] using hfind

theorem Property.isAnnotated_iff (property : Property) :
    ((findAttribute defaultAttribute property.attributes).bind annotationExpression).isSome = true ↔
      property.IsAnnotated := by
  rw [Option.isSome_iff_exists]
  constructor
  · rintro ⟨expression, hexpression⟩
    obtain ⟨found, hfound, hexpression⟩ := Option.bind_eq_some_iff.1 hexpression
    exact ⟨found, findAttribute_eq_some_iff.1 hfound, by simp [hexpression]⟩
  · rintro ⟨found, hfound, hexpression⟩
    obtain ⟨expression, hexpression⟩ := Option.ne_none_iff_exists'.1 hexpression
    exact ⟨expression, Option.bind_eq_some_iff.2 ⟨found, findAttribute_eq_some_iff.2 hfound, hexpression⟩⟩

theorem Binding.isTyped_iff (binding : Binding) :
    ((binding.typeText.filter (· != "")).map WrittenType.ofText).isSome = true ↔ binding.IsTyped := by
  cases htype : binding.typeText with
  | none => simp [Binding.IsTyped, htype]
  | some text => by_cases htext : text = "" <;> simp [Binding.IsTyped, htype, htext]

def Property.field (property : Property) (binding : Binding) : Field where
  name := binding.pattern
  type := (binding.typeText.filter (· != "")).map WrittenType.ofText
  isStatic := property.modifiers.contains "static"
  isStored := property.isStored
  isAnnotated := (findAttribute defaultAttribute property.attributes).isSome
  expression := (findAttribute defaultAttribute property.attributes).bind annotationExpression

def Member.field? (m : Member) : Option Field :=
  m.property?.bind Field.ofProperty?

theorem Report.fields_ofDecl (decl : TypeDecl) :
    (Report.ofDecl decl).fields = decl.members.filterMap Member.field? :=
  List.filterMap_filterMap

/-- The stored fields are those of the stored properties. -/
theorem Member.field?_eq_some_iff {m : Member} {field : Field} :
    (m.field? = some field ∧ field.isStored = true) ↔
      ∃ property binding, m = .property property ∧ property.Stores binding ∧
        field = property.field binding := by
  constructor
  · rintro ⟨hfield, hstored⟩
    obtain ⟨property, hproperty, hof⟩ := Option.bind_eq_some_iff.1 hfield
    cases m with
    | property declared =>
        cases hproperty
        cases hbindings : property.bindings with
        | nil => simp [Field.ofProperty?, hbindings] at hof
        | cons binding rest =>
            simp only [Field.ofProperty?, hbindings, Option.ite_none_right_eq_some,
              Option.some.injEq] at hof
            obtain ⟨hname, rfl⟩ := hof
            exact ⟨property, binding, rfl, (Property.isStored_iff hbindings hname).1 hstored, rfl⟩
    | _ => cases hproperty
  · rintro ⟨property, binding, rfl, hstores, rfl⟩
    refine ⟨?_, (Property.isStored_iff hstores.bindings_eq hstores.isIdentifier).2 hstores⟩
    simp [Member.field?, Member.property?, Field.ofProperty?, hstores.bindings_eq,
      hstores.isIdentifier, Property.field]

/-- A stored binding has a helper exactly if its property is annotated and its type is written. -/
theorem Property.Stores.hasHelper_iff {property : Property} {binding : Binding}
    (h : property.Stores binding) :
    (property.field binding).hasHelper = true ↔ property.IsAnnotated ∧ binding.IsTyped := by
  have hstored := (Property.isStored_iff h.bindings_eq h.isIdentifier).2 h
  have hannotated := property.isAnnotated_iff
  have htyped := binding.isTyped_iff
  have hpresent : property.IsAnnotated →
      (findAttribute defaultAttribute property.attributes).isSome = true := by
    rintro ⟨found, hfound, -⟩
    have hfind : findAttribute defaultAttribute property.attributes = some found :=
      findAttribute_eq_some_iff.2 hfound
    rw [hfind]
    rfl
  simp only [Field.hasHelper, Field.hasCustomDefault, Property.field, hstored, hannotated, htyped,
    Bool.true_and, Bool.and_eq_true]
  tauto

/-- A search among the stored fields goes through the stored properties. -/
theorem find?_fields_eq_some_iff {decl : TypeDecl} {q : Field → Bool} {field : Field} :
    (Report.ofDecl decl).fields.find? (fun field => field.isStored && q field) = some field ↔
      ∃ property binding,
        IsFirst (fun m => ∃ p b, m = .property p ∧ p.Stores b ∧ q (p.field b) = true) decl.members
          (.property property) ∧
        property.Stores binding ∧ field = property.field binding := by
  have hfits : (fun m : Member => ∃ field, m.field? = some field ∧
      (field.isStored && q field) = true) =
      fun m => ∃ p b, m = .property p ∧ p.Stores b ∧ q (p.field b) = true := by
    funext m
    simp only [Bool.and_eq_true, ← and_assoc, Member.field?_eq_some_iff]
    apply propext
    constructor
    · rintro ⟨-, ⟨p, b, hstores, rfl⟩, hq⟩
      exact ⟨p, b, hstores, hq⟩
    · rintro ⟨p, b, hstores, hq⟩
      exact ⟨_, ⟨p, b, hstores, rfl⟩, hq⟩
  rw [Report.fields_ofDecl, find?_filterMap_eq_some_iff, hfits]
  constructor
  · rintro ⟨m, hfirst, hfield⟩
    obtain ⟨p, b, rfl, hstores, -⟩ := hfirst.holds
    have hsame := (Member.field?_eq_some_iff.2 ⟨p, b, rfl, hstores, rfl⟩).1
    exact ⟨p, b, hfirst, hstores, Option.some.inj (hfield.symm.trans hsame)⟩
  · rintro ⟨p, b, hfirst, hstores, rfl⟩
    exact ⟨_, hfirst, (Member.field?_eq_some_iff.2 ⟨p, b, rfl, hstores, rfl⟩).1⟩

/-! ## The strategies of the generator -/

def Member.elements : Member → List CaseElement
  | .cases group => group.elements
  | _ => []

theorem enumCases_eq (members : List Member) :
    Report.enumCases members = (members.flatMap Member.elements).map EnumCase.ofElement := by
  induction members with
  | nil => rfl
  | cons m rest ih =>
      rw [Report.enumCases] at ih ⊢
      cases m with
      | cases group => simp [Member.cases?, Member.elements, ih]
      | _ => simp [List.filterMap_cons, Member.cases?, Member.elements, ih]

theorem isWord_eq_false_of_isBlank {c : Char} (hc : Text.isBlank c = true) :
    Text.isWord c = false := by
  have hmem := Text.toNat_mem_blankCodes hc
  have hascii : ∀ n ∈ Text.blankCodes, n < 128 →
      ((Char.ofNat n).isAlphanum || Char.ofNat n == '_') = false := by
    decide
  unfold Text.isWord
  split
  case isTrue hlow => simpa only [Char.ofNat_toNat] using hascii c.toNat hmem hlow
  case isFalse => exact Text.not_inRanges_wordRanges hmem

theorem dropWhile_eq_right {p : Char → Bool} {kept rest : List Char}
    (hkept : ∀ c ∈ kept, p c = true) (hrest : ∀ c, rest.head? = some c → p c = false) :
    (kept ++ rest).dropWhile p = rest := by
  have hsplit := List.takeWhile_append_dropWhile (p := p) (l := kept ++ rest)
  rw [Text.takeWhile_eq_left hkept hrest] at hsplit
  exact List.append_cancel_left hsplit

/-- A conformance is found by the name before its generic clause. -/
theorem conformanceName?_eq_iff {entry : String} :
    conformanceName? entry = some "RawRepresentable" ↔ NamesRawRepresentable entry := by
  constructor
  · intro hname
    rw [conformanceName?] at hname
    cases hcs : Text.trim entry.toList with
    | nil => simp [hcs] at hname
    | cons c rest =>
        simp only [hcs, Option.ite_none_right_eq_some] at hname
        obtain ⟨-, hname⟩ := hname
        have hrest := List.takeWhile_append_dropWhile (p := Text.isWord) (l := rest)
        have hblanks := List.takeWhile_append_dropWhile (p := Text.isBlank)
          (l := rest.dropWhile Text.isWord)
        have hword : ∀ name : List Char, some (String.ofList name) = some "RawRepresentable" →
            name = "RawRepresentable".toList := by
          intro name heq
          rw [← Option.some.inj heq, String.toList_ofList]
        refine ⟨(rest.dropWhile Text.isWord).takeWhile Text.isBlank,
          (rest.dropWhile Text.isWord).dropWhile Text.isBlank, ?_,
          fun d hd => List.mem_takeWhile_imp hd, ?_⟩
        · have hsplit : c :: rest = (c :: rest.takeWhile Text.isWord) ++ rest.dropWhile Text.isWord := by
            rw [List.cons_append, hrest]
          rw [hcs, hblanks, hsplit]
          congr 1
          split at hname
          · exact hword _ hname
          · exact hword _ (Option.ite_none_right_eq_some.1 hname).2
          · simp at hname
        · split at hname
          case h_1 hnil => exact Or.inl hnil
          case h_2 clause hclause =>
            obtain ⟨hlast, -⟩ := Option.ite_none_right_eq_some.1 hname
            obtain ⟨inner, hinner⟩ := List.getLast?_eq_some_iff.1 (beq_iff_eq.1 hlast)
            exact Or.inr ⟨inner, by rw [hclause, hinner]⟩
          case h_3 => simp at hname
  · rintro ⟨blanks, clause, hcs, hblanks, hclause⟩
    have hangle : ∀ d, clause.head? = some d → Text.isBlank d = false ∧ Text.isWord d = false := by
      rintro d hd
      rcases hclause with rfl | ⟨inner, rfl⟩
      · simp at hd
      · cases hd
        decide
    have hbehind : ∀ d, (blanks ++ clause).head? = some d → Text.isWord d = false := by
      cases blanks with
      | nil => exact fun d hd => (hangle d hd).2
      | cons b blanks =>
          rintro d hd
          cases hd
          exact isWord_eq_false_of_isBlank (hblanks b (by simp))
    have hletters : ∀ d ∈ "awRepresentable".toList, Text.isWord d = true :=
      List.all_eq_true.1 (by decide)
    have htake := Text.takeWhile_eq_left hletters hbehind
    have hdrop := dropWhile_eq_right hletters hbehind
    have hrest := dropWhile_eq_right hblanks fun d hd => (hangle d hd).1
    have hstart : Text.isWordStart 'R' = true := by decide
    have htrim : Text.trim entry.toList = 'R' :: ("awRepresentable".toList ++ (blanks ++ clause)) := hcs
    simp only [conformanceName?, htrim, hstart, htake, hdrop, hrest, if_true]
    rcases hclause with rfl | ⟨inner, rfl⟩
    · rfl
    · simp

theorem Initializer.decodes_iff (declared : Initializer) :
    declared.decodes = true ↔ declared.IsDecoding := by
  cases hparameters : declared.parameters with
  | nil => simp [Initializer.decodes, Initializer.IsDecoding, hparameters]
  | cons first rest =>
      simp [Initializer.decodes, Initializer.IsDecoding, hparameters, and_assoc]

section Choice

variable {decl : TypeDecl}

/-- The first case of a report is that of the first element of the declaration. -/
theorem firstCase?_eq_some_iff {first : EnumCase} :
    (Report.ofDecl decl).firstCase? = some first ↔
      ∃ element, decl.FirstElement element ∧ first = EnumCase.ofElement element := by
  have hlines : (fun m : Member => m.elements ≠ []) =
      fun m => ∃ group, m = .cases group ∧ group.elements ≠ [] := by
    funext m
    cases m <;> simp [Member.elements]
  have hhead : (Report.enumCases decl.members).head? = some first ↔
      ∃ m, IsFirst (fun m => ∃ group, m = .cases group ∧ group.elements ≠ []) decl.members m ∧
        ∃ element, m.elements.head? = some element ∧ EnumCase.ofElement element = first := by
    rw [enumCases_eq, List.head?_map, Option.map_eq_some_iff]
    simp only [head?_flatMap_eq_some_iff, hlines]
    constructor
    · rintro ⟨element, ⟨m, hm, helement⟩, hfirst⟩
      exact ⟨m, hm, element, helement, hfirst⟩
    · rintro ⟨m, hm, element, helement, hfirst⟩
      exact ⟨element, ⟨m, hm, helement⟩, hfirst⟩
  have hshape : (Report.ofDecl decl).firstCase? = some first ↔
      decl.header.keyword = "enum" ∧ (Report.enumCases decl.members).head? = some first := by
    by_cases hkeyword : decl.header.keyword = "enum"
    · cases hcases : Report.enumCases decl.members <;>
        simp [Report.firstCase?, Report.ofDecl, hkeyword, hcases]
    · by_cases hstruct : isStructLike decl.header.keyword = true <;>
        simp [Report.firstCase?, Report.ofDecl, hkeyword, hstruct]
  rw [hshape, hhead]
  constructor
  · rintro ⟨hkeyword, m, hm, element, helement, rfl⟩
    obtain ⟨group, rfl, -⟩ := hm.holds
    obtain ⟨rest, hrest⟩ := List.head?_eq_some_iff.1 helement
    exact ⟨element, ⟨hkeyword, group, rest, hm, hrest⟩, rfl⟩
  · rintro ⟨element, ⟨hkeyword, group, rest, hm, hrest⟩, rfl⟩
    exact ⟨hkeyword, _, hm, element, by simp [Member.elements, hrest], rfl⟩

/-- The singleton of a report is the first stored static property. -/
theorem exists_singleton?_iff {name : String} :
    (∃ field, (Report.ofDecl decl).singleton? = some field ∧ field.name = name) ↔
      decl.Singleton name := by
  have hraw : "RawRepresentable" ∈ (Report.ofDecl decl).conformances ↔
      ∃ entry ∈ decl.header.inherited, NamesRawRepresentable entry := by
    simp only [Report.ofDecl, List.mem_filterMap, conformanceName?_eq_iff]
  have hstatics : ∀ field, (Report.ofDecl decl).statics.head? = some field ↔
      ∃ property binding,
        IsFirst (fun m => ∃ p b, m = .property p ∧ p.Stores b ∧ "static" ∈ p.modifiers) decl.members
          (.property property) ∧
        property.Stores binding ∧ field = property.field binding := by
    intro field
    rw [Report.statics, List.head?_filter, find?_fields_eq_some_iff]
    simp [Property.field]
  have hshape : ∀ field, (Report.ofDecl decl).singleton? = some field ↔
      decl.header.keyword = "struct" ∧ "RawRepresentable" ∈ (Report.ofDecl decl).conformances ∧
        (Report.ofDecl decl).statics.head? = some field := by
    intro field
    by_cases hstruct : decl.header.keyword = "struct"
    · simp [Report.singleton?, Report.ofDecl, hstruct, isStructLike]
    · have hne : ∀ keyword, (Report.ofDecl decl).shape = some (.structLike keyword) →
          keyword ≠ "struct" := by
        rintro keyword hshape rfl
        simp only [Report.ofDecl] at hshape
        split at hshape
        · simp at hshape
        · split at hshape
          · simp_all
          · simp at hshape
      rw [Report.singleton?]
      split
      case h_1 keyword hshape => simp [hne keyword hshape, hstruct]
      case h_2 => simp [hstruct]
  simp only [hshape, hraw, hstatics]
  constructor
  · rintro ⟨field, ⟨hkeyword, hentry, p, b, hfirst, hstores, rfl⟩, rfl⟩
    exact ⟨hkeyword, hentry, p, b, hfirst, hstores, rfl⟩
  · rintro ⟨hkeyword, hentry, p, b, hfirst, hstores, rfl⟩
    exact ⟨_, ⟨hkeyword, hentry, p, b, hfirst, hstores, rfl⟩, rfl⟩

/-- The constructor of a report is that of the first initializer that does not decode. -/
theorem constructor?_eq_some_iff {constructor : Constructor} :
    (Report.ofDecl decl).constructor? = some constructor ↔
      ∃ declared, decl.FirstInitializer declared ∧
        constructor = Constructor.ofInitializer declared := by
  have hfits : (fun m : Member => ∃ found, m.initializer?.map Constructor.ofInitializer = some found ∧
      (!found.decodes) = true) = fun m => ∃ i, m = .initializer i ∧ ¬ i.IsDecoding := by
    funext m
    cases m with
    | initializer i =>
        simp [Member.initializer?, Constructor.ofInitializer, ← Initializer.decodes_iff]
    | _ => simp [Member.initializer?]
  have hconstructors : (Report.ofDecl decl).constructors =
      decl.members.filterMap fun m => m.initializer?.map Constructor.ofInitializer := by
    simp [Report.ofDecl, List.map_filterMap]
  rw [Report.constructor?, hconstructors, find?_filterMap_eq_some_iff, hfits]
  constructor
  · rintro ⟨m, hfirst, hfound⟩
    obtain ⟨i, rfl, -⟩ := hfirst.holds
    exact ⟨i, hfirst, (Option.some.inj hfound).symm⟩
  · rintro ⟨i, hfirst, rfl⟩
    exact ⟨_, hfirst, rfl⟩

/-- The field that a parameter finds by its name is that of the first stored property. -/
theorem namesDefault_iff {name : String} :
    (((Report.ofDecl decl).field? name).map Field.hasHelper).getD false = true ↔
      decl.NamesDefault name := by
  have hfield : ∀ field, (Report.ofDecl decl).field? name = some field ↔
      ∃ property binding,
        IsFirst (fun m => ∃ p b, m = .property p ∧ p.Stores b ∧ b.pattern = name) decl.members
          (.property property) ∧
        property.Stores binding ∧ field = property.field binding := by
    intro field
    rw [Report.field?, find?_fields_eq_some_iff]
    simp [Property.field]
  constructor
  · intro hhelper
    obtain ⟨field, hfound⟩ : ∃ field, (Report.ofDecl decl).field? name = some field := by
      cases hfound : (Report.ofDecl decl).field? name with
      | none => simp [hfound] at hhelper
      | some field => exact ⟨field, rfl⟩
    rw [hfound] at hhelper
    obtain ⟨p, b, hfirst, hstores, rfl⟩ := (hfield field).1 hfound
    exact ⟨p, b, hfirst, hstores, hstores.hasHelper_iff.1 hhelper⟩
  · rintro ⟨p, b, hfirst, hstores, hdefault⟩
    rw [(hfield _).2 ⟨p, b, hfirst, hstores, rfl⟩]
    exact hstores.hasHelper_iff.2 hdefault

end Choice

/-- The name a parameter is called by is the name the constructor gives it. -/
theorem Parameter.called_iff {parameter : Parameter} {name : String} :
    parameter.Called name ↔ name = (ConstructorParameter.ofParameter parameter).name := by
  constructor
  · intro hcalled
    cases hcalled with
    | second _ hfirst hsecond hname =>
        simp [ConstructorParameter.ofParameter, hfirst, hsecond, hname]
    | first hname =>
        cases hsecond : parameter.secondName with
        | none => simp [ConstructorParameter.ofParameter, hsecond]
        | some second =>
            have hnot : ¬ (parameter.firstName = "_" ∧ second ≠ "") := by
              rw [hsecond] at hname
              rcases hname with hfirst | hempty
              · exact fun h => hfirst h.1
              · exact fun h => h.2 hempty
            simp [ConstructorParameter.ofParameter, hsecond, hnot]
  · rintro rfl
    cases hsecond : parameter.secondName with
    | none =>
        have hname : (ConstructorParameter.ofParameter parameter).name = parameter.firstName := by
          simp [ConstructorParameter.ofParameter, hsecond]
        rw [hname]
        exact .first (Or.inr (by rw [hsecond]; rfl))
    | some second =>
        by_cases hcall : parameter.firstName = "_" ∧ second ≠ ""
        · have hname : (ConstructorParameter.ofParameter parameter).name = second := by
            simp [ConstructorParameter.ofParameter, hsecond, hcall]
          rw [hname]
          exact .second second hcall.1 hsecond hcall.2
        · have hname : (ConstructorParameter.ofParameter parameter).name = parameter.firstName := by
            simp [ConstructorParameter.ofParameter, hsecond, hcall]
          rw [hname]
          refine .first ?_
          rw [hsecond]
          by_cases hfirst : parameter.firstName = "_"
          · exact Or.inr (not_not.1 fun hne => hcall ⟨hfirst, hne⟩)
          · exact Or.inl hfirst

theorem defaultsTo_iff {own : Prop} {name : String} {type : WrittenType} {custom : Bool}
    (hown : custom = true ↔ own) {default : String} :
    DefaultsTo own name type default ↔ default = defaultFor name type custom := by
  constructor
  · rintro (hhelper | htyped)
    · simp [defaultFor, hown.2 hhelper]
    · simp [defaultFor, (not_congr hown).2 htyped]
  · rintro rfl
    cases custom with
    | true => exact .helper (hown.1 rfl)
    | false => exact .typed fun h => absurd (hown.2 h) (by simp)

/-- A relation that picks one partner for each element relates a list to its image. -/
theorem forall₂_iff_eq_map {α β : Type} {r : α → β → Prop} {f : α → β}
    (hr : ∀ a b, r a b ↔ b = f a) {as : List α} {bs : List β} :
    List.Forall₂ r as bs ↔ bs = as.map f := by
  induction as generalizing bs with
  | nil => simp
  | cons a as ih =>
      rw [List.forall₂_cons_left_iff, List.map_cons]
      constructor
      · rintro ⟨b, more, hb, hmore, rfl⟩
        rw [(hr a b).1 hb, ih.1 hmore]
      · rintro rfl
        exact ⟨_, _, (hr _ _).2 rfl, ih.2 rfl, rfl⟩

/-- What an initializer takes and hands on is what the generator makes of it. -/
theorem takes_iff (decl : TypeDecl) (parameter : Parameter) (generated : GeneratedParameter) :
    decl.Takes parameter generated ↔ generated =
      ⟨(ConstructorParameter.ofParameter parameter).name,
        (ConstructorParameter.ofParameter parameter).type,
        defaultFor (ConstructorParameter.ofParameter parameter).name
          (ConstructorParameter.ofParameter parameter).type
          ((((Report.ofDecl decl).field? (ConstructorParameter.ofParameter parameter).name).map
            Field.hasHelper).getD false)⟩ := by
  constructor
  · rintro ⟨hcalled, htype, hdefault⟩
    obtain ⟨name, type, default⟩ := generated
    dsimp only at hcalled htype hdefault
    obtain rfl := Parameter.called_iff.1 hcalled
    obtain rfl := htype
    obtain rfl := (defaultsTo_iff namesDefault_iff).1 hdefault
    rfl
  · rintro rfl
    exact ⟨Parameter.called_iff.2 rfl, rfl, (defaultsTo_iff namesDefault_iff).2 rfl⟩

theorem Parameter.handsOn_iff (parameter : Parameter) (argument : Argument) :
    parameter.HandsOn argument ↔ argument =
      ⟨(ConstructorParameter.ofParameter parameter).name,
        (ConstructorParameter.ofParameter parameter).label.map withoutBackticks⟩ := by
  have hlabel : (ConstructorParameter.ofParameter parameter).label.map withoutBackticks =
      if parameter.firstName = "_" then none else some (withoutBackticks parameter.firstName) := by
    by_cases hfirst : parameter.firstName = "_" <;> simp [ConstructorParameter.ofParameter, hfirst]
  constructor
  · rintro ⟨hcalled, hargument⟩
    obtain ⟨value, label⟩ := argument
    obtain rfl := Parameter.called_iff.1 hcalled
    rw [hlabel, ← hargument]
  · rintro rfl
    exact ⟨Parameter.called_iff.2 rfl, hlabel⟩

/-- Whether a field becomes a parameter of the memberwise function. -/
def Field.isCandidate (field : Field) : Bool :=
  field.isStored && !field.isStatic && field.type.isSome

theorem Property.Stores.isCandidate_iff {property : Property} {binding : Binding}
    (h : property.Stores binding) :
    (property.field binding).isCandidate = true ↔
      "static" ∉ property.modifiers ∧ binding.IsTyped := by
  have hstored := (Property.isStored_iff h.bindings_eq h.isIdentifier).2 h
  have htyped := binding.isTyped_iff
  simp only [Field.isCandidate, Property.field, hstored, Bool.true_and, Bool.and_eq_true, htyped]
  simp

/-- A member that is no stored and typed instance property gives no candidate. -/
theorem Member.isCandidate_eq_false {m : Member}
    (hskip : ∀ property binding, m = .property property → property.Stores binding →
      "static" ∈ property.modifiers ∨ ¬ binding.IsTyped) {field : Field}
    (hfield : m.field? = some field) : field.isCandidate = false := by
  by_contra hcandidate
  rw [Bool.not_eq_false] at hcandidate
  have hstored : field.isStored = true := by
    simp only [Field.isCandidate, Bool.and_eq_true] at hcandidate
    exact hcandidate.1.1
  obtain ⟨property, binding, rfl, hstores, rfl⟩ := Member.field?_eq_some_iff.1 ⟨hfield, hstored⟩
  have hboth := hstores.isCandidate_iff.1 hcandidate
  rcases hskip property binding rfl hstores with hstatic | htyped
  · exact hboth.1 hstatic
  · exact htyped hboth.2

theorem Property.memberwiseParameter?_eq {property : Property} {binding : Binding}
    {text : String} (htype : binding.typeText = some text) (htext : text ≠ "") :
    Report.memberwiseParameter? (property.field binding) =
      some ⟨binding.pattern, .ofText text, defaultFor binding.pattern (.ofText text)
        (property.field binding).hasHelper⟩ := by
  simp [Report.memberwiseParameter?, Property.field, htype, htext]

/-- The parameters and arguments of the candidates among the fields of members. -/
theorem memberwise_iff {members : List Member} {parameters : List GeneratedParameter}
    {arguments : List Argument} :
    Memberwise members parameters arguments ↔
      parameters = ((members.filterMap Member.field?).filter Field.isCandidate).filterMap
        Report.memberwiseParameter? ∧
      arguments = ((members.filterMap Member.field?).filter Field.isCandidate).map fun field =>
        ⟨field.name, some (withoutBackticks field.name)⟩ := by
  constructor
  · intro hmembers
    induction hmembers with
    | nil => exact ⟨rfl, rfl⟩
    | @keep property binding text default rest parameters arguments hstores hstatic htype htext
        hdefault hrest ih =>
        have htyped : binding.IsTyped := ⟨text, htype, htext⟩
        have hfield := (Member.field?_eq_some_iff.2 ⟨property, binding, rfl, hstores, rfl⟩).1
        have hcandidate := hstores.isCandidate_iff.2 ⟨hstatic, htyped⟩
        have hown : (property.field binding).hasHelper = true ↔ property.IsAnnotated :=
          hstores.hasHelper_iff.trans (and_iff_left htyped)
        obtain rfl := (defaultsTo_iff hown).1 hdefault
        rw [List.filterMap_cons_some hfield, List.filter_cons_of_pos hcandidate,
          List.filterMap_cons_some (Property.memberwiseParameter?_eq htype htext), List.map_cons,
          ← ih.1, ← ih.2]
        exact ⟨rfl, rfl⟩
    | @skip m rest parameters arguments hskip hrest ih =>
        cases hfield : m.field? with
        | none => rwa [List.filterMap_cons_none hfield]
        | some field =>
            have hcandidate := Member.isCandidate_eq_false hskip hfield
            rwa [List.filterMap_cons_some hfield, List.filter_cons_of_neg (by simp [hcandidate])]
  · rintro ⟨rfl, rfl⟩
    induction members with
    | nil => exact .nil
    | cons m rest ih =>
        by_cases hskip : ∀ property binding, m = .property property → property.Stores binding →
            "static" ∈ property.modifiers ∨ ¬ binding.IsTyped
        · refine .skip hskip ?_
          cases hfield : m.field? with
          | none => rwa [List.filterMap_cons_none hfield]
          | some field =>
              have hcandidate := Member.isCandidate_eq_false hskip hfield
              rwa [List.filterMap_cons_some hfield, List.filter_cons_of_neg (by simp [hcandidate])]
        · push Not at hskip
          obtain ⟨property, binding, rfl, hstores, hstatic, htyped⟩ := hskip
          obtain ⟨text, htype, htext⟩ := id htyped
          have hfield := (Member.field?_eq_some_iff.2 ⟨property, binding, rfl, hstores, rfl⟩).1
          have hcandidate := hstores.isCandidate_iff.2 ⟨hstatic, htyped⟩
          have hown : (property.field binding).hasHelper = true ↔ property.IsAnnotated :=
            hstores.hasHelper_iff.trans (and_iff_left htyped)
          rw [List.filterMap_cons_some hfield, List.filter_cons_of_pos hcandidate,
            List.filterMap_cons_some (Property.memberwiseParameter?_eq htype htext), List.map_cons]
          exact .keep hstores hstatic htype htext ((defaultsTo_iff hown).2 rfl) ih

/-! ## The generator follows the strategies -/

/-- A declaration has no shape exactly if its keyword is not a supported one. -/
theorem isNone_shape_iff (decl : TypeDecl) :
    (Report.ofDecl decl).shape.isNone = true ↔ decl.header.keyword ∉ supportedKeywords := by
  by_cases henum : decl.header.keyword = "enum"
  · simp [Report.ofDecl, henum, supportedKeywords]
  · by_cases hstruct : isStructLike decl.header.keyword = true
    · have hmem : decl.header.keyword ∈ supportedKeywords := by
        simp only [isStructLike, Bool.or_eq_true, beq_iff_eq] at hstruct
        simp only [supportedKeywords, List.mem_cons]
        tauto
      simp [Report.ofDecl, henum, hstruct, hmem]
    · have hnot : decl.header.keyword ∉ supportedKeywords := by
        simp only [isStructLike, Bool.or_eq_true, beq_iff_eq, not_or] at hstruct
        simp only [supportedKeywords, List.mem_cons, List.not_mem_nil, or_false]
        tauto
      simp [Report.ofDecl, henum, hstruct, hnot]

/-- Only supported declarations have a function. -/
theorem TypeDecl.Builds.isSupported {decl : TypeDecl} {function : GeneratedFunction}
    (h : decl.Builds function) : decl.header.keyword ∈ supportedKeywords := by
  cases h with
  | enumFirstCase hfirst =>
      rw [hfirst.1]
      decide
  | rawRepresentableSingleton hname =>
      rw [hname.1]
      decide
  | manualConstructor hkeyword => exact hkeyword
  | memberwiseDefault hkeyword => exact hkeyword

theorem caseFunction_ofElement (element : CaseElement) :
    Report.caseFunction (EnumCase.ofElement element) =
      ⟨"fake", .enumFirstCase, [], .memberReturn element.name
        (element.parameters.map fun values => values.map fun value =>
          ⟨(WrittenType.ofText value.typeText).defaultExpression, value.label⟩), "Self"⟩ := by
  cases hparameters : element.parameters <;>
    simp [Report.caseFunction, EnumCase.ofElement, generatorName, hparameters]

theorem constructorFunction_eq (decl : TypeDecl) {declared : Initializer}
    {parameters : List GeneratedParameter} {arguments : List Argument} :
    (⟨"fake", .manualConstructor, parameters, .selfCall arguments, "Self"⟩ : GeneratedFunction) =
        (Report.ofDecl decl).constructorFunction (Constructor.ofInitializer declared) ↔
      List.Forall₂ decl.Takes declared.parameters parameters ∧
        List.Forall₂ Parameter.HandsOn declared.parameters arguments := by
  rw [forall₂_iff_eq_map (takes_iff decl), forall₂_iff_eq_map Parameter.handsOn_iff]
  simp [Report.constructorFunction, Constructor.ofInitializer, generatorName, Function.comp_def]

theorem memberwiseFunction_eq {decl : TypeDecl} {parameters : List GeneratedParameter}
    {arguments : List Argument} :
    (⟨"fake", .memberwiseDefault, parameters, .selfCall arguments, "Self"⟩ : GeneratedFunction) =
        (Report.ofDecl decl).memberwiseFunction ↔
      Memberwise decl.members parameters arguments := by
  have hcandidates : (Report.ofDecl decl).candidates =
      (decl.members.filterMap Member.field?).filter Field.isCandidate := by
    rw [Report.candidates, Report.fields_ofDecl]
    rfl
  rw [memberwise_iff, ← hcandidates]
  simp [Report.memberwiseFunction, generatorName]

section Builds

variable {decl : TypeDecl} {function : GeneratedFunction}

theorem TypeDecl.FirstElement.unique {element other : CaseElement} (h : decl.FirstElement element)
    (hother : decl.FirstElement other) : element = other := by
  obtain ⟨-, group, rest, hfirst, helements⟩ := h
  obtain ⟨-, group', rest', hfirst', helements'⟩ := hother
  cases hfirst.unique hfirst'
  exact (List.cons.inj (helements.symm.trans helements')).1

theorem TypeDecl.Singleton.unique {name other : String} (h : decl.Singleton name)
    (hother : decl.Singleton other) : name = other := by
  obtain ⟨-, -, property, binding, hfirst, hstores, rfl⟩ := h
  obtain ⟨-, -, property', binding', hfirst', hstores', rfl⟩ := hother
  cases hfirst.unique hfirst'
  rw [hstores.unique hstores']

theorem builds_iff_of_firstElement {element : CaseElement} (h : decl.FirstElement element) :
    decl.Builds function ↔ function = Report.caseFunction (EnumCase.ofElement element) := by
  constructor
  · intro hbuilds
    cases hbuilds with
    | enumFirstCase hother => rw [hother.unique h, caseFunction_ofElement]
    | rawRepresentableSingleton hname => exact absurd (hname.1.symm.trans h.1) (by decide)
    | manualConstructor _ hcase => exact absurd h (hcase element)
    | memberwiseDefault _ hcase => exact absurd h (hcase element)
  · rintro rfl
    rw [caseFunction_ofElement]
    exact .enumFirstCase h

theorem builds_iff_of_singleton {name : String} (h : decl.Singleton name) :
    decl.Builds function ↔
      function = ⟨"fake", .rawRepresentableSingleton, [], .memberReturn name none, "Self"⟩ := by
  constructor
  · intro hbuilds
    cases hbuilds with
    | enumFirstCase helement => exact absurd (h.1.symm.trans helement.1) (by decide)
    | rawRepresentableSingleton hother => rw [hother.unique h]
    | manualConstructor _ _ hsingleton => exact absurd h (hsingleton name)
    | memberwiseDefault _ _ hsingleton => exact absurd h (hsingleton name)
  · rintro rfl
    exact .rawRepresentableSingleton h

/-- Where the first initializer decides, the function built is the one that calls it. -/
theorem builds_iff_of_firstInitializer (hkeyword : decl.header.keyword ∈ supportedKeywords)
    (hcase : ∀ element, ¬ decl.FirstElement element) (hsingleton : ∀ name, ¬ decl.Singleton name)
    {declared : Initializer} (h : decl.FirstInitializer declared) :
    decl.Builds function ↔
      function = (Report.ofDecl decl).constructorFunction (Constructor.ofInitializer declared) := by
  constructor
  · intro hbuilds
    cases hbuilds with
    | enumFirstCase helement => exact absurd helement (hcase _)
    | rawRepresentableSingleton hname => exact absurd hname (hsingleton _)
    | manualConstructor _ _ _ hother hparameters harguments =>
        cases h.unique hother
        exact (constructorFunction_eq decl).2 ⟨hparameters, harguments⟩
    | memberwiseDefault _ _ _ hinitializer => exact absurd h (hinitializer declared)
  · rintro rfl
    obtain ⟨hparameters, harguments⟩ := (constructorFunction_eq decl).1 rfl
    exact .manualConstructor hkeyword hcase hsingleton h hparameters harguments

theorem builds_iff_of_memberwise (hkeyword : decl.header.keyword ∈ supportedKeywords)
    (hcase : ∀ element, ¬ decl.FirstElement element) (hsingleton : ∀ name, ¬ decl.Singleton name)
    (hinitializer : ∀ declared, ¬ decl.FirstInitializer declared) :
    decl.Builds function ↔ function = (Report.ofDecl decl).memberwiseFunction := by
  constructor
  · intro hbuilds
    cases hbuilds with
    | enumFirstCase helement => exact absurd helement (hcase _)
    | rawRepresentableSingleton hname => exact absurd hname (hsingleton _)
    | manualConstructor _ _ _ hdeclared => exact absurd hdeclared (hinitializer _)
    | memberwiseDefault _ _ _ _ hmembers => exact memberwiseFunction_eq.2 hmembers
  · rintro rfl
    exact .memberwiseDefault hkeyword hcase hsingleton hinitializer (memberwiseFunction_eq.1 rfl)

end Builds

/-- The generator gives a function exactly if it belongs to the declaration. -/
theorem generator_eq_ok_iff {decl : TypeDecl} {function : GeneratedFunction} :
    (Report.ofDecl decl).generator = .ok function ↔ decl.Builds function := by
  by_cases hkeyword : decl.header.keyword ∈ supportedKeywords
  case neg =>
    have hshape := (isNone_shape_iff decl).2 hkeyword
    simp only [Report.generator, hshape, if_true, reduceCtorEq, false_iff]
    exact fun hbuilds => hkeyword hbuilds.isSupported
  have hshape : (Report.ofDecl decl).shape.isNone = false := by
    rw [← Bool.not_eq_true, isNone_shape_iff, not_not]
    exact hkeyword
  simp only [Report.generator, hshape, Bool.false_eq_true, if_false]
  -- the strategies are tried in order, and each lemma asks that those before do not apply
  cases hfirst : (Report.ofDecl decl).firstCase? with
  | some first =>
      obtain ⟨element, helement, rfl⟩ := firstCase?_eq_some_iff.1 hfirst
      rw [builds_iff_of_firstElement helement, Except.ok.injEq, eq_comm]
  | none =>
  have hcase : ∀ element, ¬ decl.FirstElement element := by
    intro element helement
    have hsome := firstCase?_eq_some_iff.2 ⟨element, helement, rfl⟩
    simp [hfirst] at hsome
  cases hfound : (Report.ofDecl decl).singleton? with
  | some field =>
      have hname := exists_singleton?_iff.1 ⟨field, hfound, rfl⟩
      rw [builds_iff_of_singleton hname, Except.ok.injEq, eq_comm]
      rfl
  | none =>
  have hsingleton : ∀ name, ¬ decl.Singleton name := by
    intro name hname
    obtain ⟨field, hsome, -⟩ := exists_singleton?_iff.2 hname
    simp [hfound] at hsome
  cases hconstructor : (Report.ofDecl decl).constructor? with
  | some constructor =>
      obtain ⟨declared, hdeclared, rfl⟩ := constructor?_eq_some_iff.1 hconstructor
      rw [builds_iff_of_firstInitializer hkeyword hcase hsingleton hdeclared, Except.ok.injEq,
        eq_comm]
  | none =>
      have hinitializer : ∀ declared, ¬ decl.FirstInitializer declared := by
        intro declared hdeclared
        have hsome := constructor?_eq_some_iff.2 ⟨declared, hdeclared, rfl⟩
        simp [hconstructor] at hsome
      rw [builds_iff_of_memberwise hkeyword hcase hsingleton hinitializer, Except.ok.injEq,
        eq_comm]

/-- Nothing is generated exactly for the declarations without a shape. -/
theorem exists_generator_eq_error_iff (report : Report) :
    (∃ refused, report.generator = .error refused) ↔ report.shape.isNone = true := by
  constructor
  · rintro ⟨refused, hrefused⟩
    by_contra hshape
    rw [Report.generator, if_neg hshape] at hrefused
    repeat' split at hrefused
    all_goals simp at hrefused
  · intro hshape
    exact ⟨_, if_pos hshape⟩

/-- A declaration is refused exactly if its keyword is none of the four.  The function that
is generated for any other one is the function of the first strategy that applies. -/
theorem ofDecl_builds (decl : TypeDecl) :
    ((∃ refused, Generation.ofDecl decl = .error refused) ↔
      decl.header.keyword ∉ ["struct", "class", "actor", "enum"]) ∧
    ∀ function, (∃ generation, Generation.ofDecl decl = .ok generation ∧
      generation.function = function) ↔ decl.Builds function := by
  have hofDecl : Generation.ofDecl decl = (Report.ofDecl decl).generator.map fun function =>
      ⟨Report.ofDecl decl, function, (Report.ofDecl decl).helpers⟩ := by
    rw [Generation.ofDecl]
    cases (Report.ofDecl decl).generator <;> rfl
  constructor
  · rw [hofDecl, ← supportedKeywords, ← isNone_shape_iff, ← exists_generator_eq_error_iff]
    cases (Report.ofDecl decl).generator <;> simp [Except.map]
  · intro function
    rw [← generator_eq_ok_iff, hofDecl]
    cases (Report.ofDecl decl).generator <;> simp [Except.map]

end Fakery
