import Fakery.Fake.Default
import Fakery.Proofs.Shape.Balanced
import Fakery.Proofs.Text.Solid

/-!
# Type terms

Types as terms: dotted names, generics, optionals, arrays, dictionaries, tuples and
functions, each with one written form.  The kind of a written form is the one that the
outermost constructor gives it, whatever brackets, colons, arrows and labels stand inside.
-/

namespace Fakery

open WrittenType (Balanced scanned classify)

/-! ## The terms and their texts -/

/-- A word of a type, without blanks and without the characters that join words. -/
structure Identifier where
  text : List Char
  ne_nil : text ≠ []
  plain : ∀ c ∈ text, Text.isBlank c = false ∧ c ∉ scanned ++ ['?', ',', '.']

def Identifier.ofWord (word : String) (hword : word.toList ≠ [])
    (hplain : (word.toList.all fun c =>
      !Text.isBlank c && !(scanned ++ ['?', ',', '.']).contains c) = true) : Identifier where
  text := word.toList
  ne_nil := hword
  plain := by simpa using hplain

/-- Words with dots between them. -/
structure TypePath where
  first : Identifier
  rest : List Identifier

def TypePath.text (path : TypePath) : List Char :=
  path.first.text ++ path.rest.flatMap fun word => '.' :: word.text

inductive TypeTerm where
  | name (path : TypePath)
  | generic (path : TypePath) (first : TypeTerm) (rest : List TypeTerm)
  | optional (wrapped : TypeTerm)
  | array (element : TypeTerm)
  | dictionary (key value : TypeTerm)
  | tuple (elements : List (Option Identifier × TypeTerm))
  | function (parameters : List TypeTerm) (result : TypeTerm)

namespace TypeTerm

def isFunction : TypeTerm → Bool
  | .function _ _ => true
  | _ => false

def labelText : Option Identifier → List Char
  | none => []
  | some label => label.text ++ [':', ' ']

def listText (texts : List (List Char)) : List Char :=
  Text.joinWith [',', ' '] texts

mutual

/-- The written form of a type.  A function stands in parentheses before a question mark. -/
def text : TypeTerm → List Char
  | .name path => path.text
  | .generic path first rest =>
    path.text ++ '<' :: (listText (first.text :: textsOf rest) ++ ['>'])
  | .optional wrapped =>
    if wrapped.isFunction then '(' :: (wrapped.text ++ [')', '?']) else wrapped.text ++ ['?']
  | .array element => '[' :: (element.text ++ [']'])
  | .dictionary key value => '[' :: ((key.text ++ ':' :: ' ' :: value.text) ++ [']'])
  | .tuple elements => '(' :: (listText (elementTexts elements) ++ [')'])
  | .function parameters result =>
    '(' :: (listText (textsOf parameters) ++ ')' :: ' ' :: '-' :: '>' :: ' ' :: result.text)

def textsOf : List TypeTerm → List (List Char)
  | [] => []
  | term :: rest => term.text :: textsOf rest

def elementTexts : List (Option Identifier × TypeTerm) → List (List Char)
  | [] => []
  | (label, term) :: rest => (labelText label ++ term.text) :: elementTexts rest

end

/-- Whether a term is written `Optional<…>`. -/
def spelledOut : TypeTerm → Bool
  | .generic path _ _ => path.text == "Optional".toList
  | _ => false

/-- The kind that the outermost constructor gives a term.  A function counts as optional
where its result is written with a question mark at the end. -/
def kind : TypeTerm → TypeKind
  | .name _ => .named
  | .generic path first rest =>
    if (TypeTerm.generic path first rest).spelledOut then .optional else .named
  | .optional _ => .optional
  | .array _ => .array
  | .dictionary _ _ => .dictionary
  | .tuple _ => .named
  | .function parameters result =>
    if (TypeTerm.function parameters result).text.getLast? = some '?' then .optional else .named

end TypeTerm

/-! ## Written forms are balanced -/

theorem Identifier.balanced (word : Identifier) {colons : Bool} : Balanced colons word.text :=
  .of_not_mem fun c hc hscanned => (word.plain c hc).2 (List.mem_append_left _ hscanned)

namespace TypePath

variable (path : TypePath)

theorem text_ne_nil : path.text ≠ [] := by
  simp [text, path.first.ne_nil]

theorem plain_of_mem {c : Char} (hc : c ∈ path.text) :
    Text.isBlank c = false ∧ c ∉ scanned ∧ c ≠ '?' := by
  have hword : ∀ word : Identifier, c ∈ word.text →
      Text.isBlank c = false ∧ c ∉ scanned ∧ c ≠ '?' := by
    intro word hmem
    obtain ⟨hblank, hplain⟩ := word.plain c hmem
    simp only [List.mem_append, List.mem_cons, not_or] at hplain
    exact ⟨hblank, hplain.1, hplain.2.1⟩
  rw [text, List.mem_append, List.mem_flatMap] at hc
  obtain hc | ⟨word, -, hc⟩ := hc
  · exact hword _ hc
  · obtain rfl | hc := List.mem_cons.1 hc
    · decide
    · exact hword _ hc

theorem balanced {colons : Bool} : Balanced colons path.text :=
  .of_not_mem fun _ hc => (path.plain_of_mem hc).2.1

theorem ne_of_mem {c d : Char} (hc : c ∈ path.text) (hd : d ∈ scanned) : c ≠ d :=
  WrittenType.ne_of_not_mem (path.plain_of_mem hc).2.1 hd

theorem head?_append_ne (rest : List Char) : (path.text ++ rest).head? ≠ some '[' := by
  rw [List.head?_append_of_ne_nil _ path.text_ne_nil]
  intro hhead
  exact path.ne_of_mem (List.mem_of_mem_head? hhead) (by decide) rfl

end TypePath

namespace TypeTerm

theorem balanced_listText {colons : Bool} {texts : List (List Char)}
    (htexts : ∀ text ∈ texts, Balanced colons text) : Balanced colons (listText texts) :=
  .joinWith (.of_not_mem (by simp [scanned])) htexts

theorem space_not_mem : ' ' ∉ scanned := by decide

theorem balanced_labelText : ∀ label : Option Identifier, Balanced true (labelText label)
  | none => .nil
  | some label => label.balanced.append (.colon (.char space_not_mem .nil))

mutual

/-- A colon stands in brackets in every written form. -/
theorem balanced_text : ∀ term : TypeTerm, Balanced false term.text
  | .name path => by
      rw [text]
      exact path.balanced
  | .generic path first rest => by
      rw [text]
      have hfirst := first.balanced_text.within
      have hrest := fun text hmem => (balanced_textsOf rest text hmem).within
      have hlist := balanced_listText (List.forall_mem_cons.2 ⟨hfirst, hrest⟩)
      exact path.balanced.append (.bracket rfl (by decide) hlist .nil)
  | .optional wrapped => by
      have hmark : Balanced false ['?'] := .char (by decide) .nil
      rw [text]
      split
      · exact .bracket rfl (by decide) wrapped.balanced_text.within hmark
      · exact wrapped.balanced_text.append hmark
  | .array element => by
      rw [text]
      exact .bracket rfl (by decide) element.balanced_text.within .nil
  | .dictionary key value => by
      rw [text]
      have hvalue := Balanced.colon (.char space_not_mem value.balanced_text.within)
      exact .bracket rfl (by decide) (key.balanced_text.within.append hvalue) .nil
  | .tuple elements => by
      rw [text]
      exact .bracket rfl (by decide) (balanced_listText (balanced_elementTexts elements)) .nil
  | .function parameters result => by
      rw [text]
      have hparameters := balanced_listText (balanced_textsOf parameters)
      have hresult := Balanced.arrow (.char space_not_mem result.balanced_text)
      exact .bracket rfl (by decide) hparameters.within (.char space_not_mem hresult)

theorem balanced_textsOf : ∀ terms : List TypeTerm, ∀ text ∈ textsOf terms, Balanced false text
  | [] => by simp [textsOf]
  | term :: rest => by
      rw [textsOf, List.forall_mem_cons]
      exact ⟨term.balanced_text, balanced_textsOf rest⟩

theorem balanced_elementTexts :
    ∀ elements : List (Option Identifier × TypeTerm), ∀ text ∈ elementTexts elements,
      Balanced true text
  | [] => by simp [elementTexts]
  | (label, term) :: rest => by
      rw [elementTexts, List.forall_mem_cons]
      exact ⟨(balanced_labelText label).append term.balanced_text.within,
        balanced_elementTexts rest⟩

end

/-! ## Both ends of a written form -/

theorem exists_head : ∀ term : TypeTerm, ∃ c rest, term.text = c :: rest ∧ Text.isBlank c = false
  | .name path => by
      obtain ⟨c, rest, htext⟩ := List.exists_cons_of_ne_nil path.text_ne_nil
      exact ⟨c, rest, by rw [text, htext], (path.plain_of_mem (by simp [htext])).1⟩
  | .generic path first rest => by
      obtain ⟨c, more, htext⟩ := List.exists_cons_of_ne_nil path.text_ne_nil
      exact ⟨c, _, by rw [text, htext, List.cons_append], (path.plain_of_mem (by simp [htext])).1⟩
  | .optional wrapped => by
      obtain ⟨c, rest, htext, hc⟩ := wrapped.exists_head
      rw [text]
      split
      · exact ⟨'(', _, rfl, rfl⟩
      · exact ⟨c, _, by rw [htext, List.cons_append], hc⟩
  | .array _ => ⟨'[', _, by rw [text], rfl⟩
  | .dictionary _ _ => ⟨'[', _, by rw [text], rfl⟩
  | .tuple _ => ⟨'(', _, by rw [text], rfl⟩
  | .function _ _ => ⟨'(', _, by rw [text], rfl⟩

theorem getLast?_optional (wrapped : TypeTerm) :
    (TypeTerm.optional wrapped).text.getLast? = some '?' := by
  rw [text]
  split <;> simp [List.getLast?_cons]

theorem getLast?_generic (path : TypePath) (first : TypeTerm) (rest : List TypeTerm) :
    (TypeTerm.generic path first rest).text.getLast? = some '>' := by
  simp [text, List.getLast?_cons]

theorem getLast?_tuple (elements : List (Option Identifier × TypeTerm)) :
    (TypeTerm.tuple elements).text.getLast? = some ')' := by
  simp [text, List.getLast?_cons]

/-- No written form ends with a blank; that of a function ends as the one of its result. -/
theorem exists_last : ∀ term : TypeTerm, ∃ c, term.text.getLast? = some c ∧ Text.isBlank c = false
  | .name path => by
      have hlast := List.getLast?_eq_some_getLast path.text_ne_nil
      rw [text]
      exact ⟨_, hlast, (path.plain_of_mem (List.mem_of_getLast? hlast)).1⟩
  | .generic path first rest => ⟨_, getLast?_generic path first rest, rfl⟩
  | .optional wrapped => ⟨_, getLast?_optional wrapped, rfl⟩
  | .array _ => ⟨']', by simp [text, List.getLast?_cons], rfl⟩
  | .dictionary _ _ => ⟨']', by simp [text, List.getLast?_cons], rfl⟩
  | .tuple elements => ⟨_, getLast?_tuple elements, rfl⟩
  | .function _ result => by
      obtain ⟨c, hlast, hc⟩ := result.exists_last
      exact ⟨c, by simp [text, List.getLast?_cons, hlast], hc⟩

/-! ## The kind of a written form -/

/-- A text is a name if nothing at its ends says otherwise. -/
theorem classify_named {text : List Char} (hmark : text.getLast? ≠ some '?')
    (hoptional : ¬ ("Optional<".toList <+: text ∧ text.getLast? = some '>'))
    (hsquare : text.head? ≠ some '[') : classify text = (.named, false) := by
  rw [classify, if_neg (by simpa using hmark), if_neg (by simpa using hoptional), if_neg]
  simp [WrittenType.isBracketed, hsquare]

theorem classify_bracketed {inside : List Char} (h : Balanced true inside) :
    classify ('[' :: (inside ++ [']'])) =
      (if WrittenType.hasOuterColon none 0 inside then .dictionary else .array, false) := by
  have hlast : ('[' :: (inside ++ [']'])).getLast? = some ']' := by
    simp [List.getLast?_cons]
  have hinner : WrittenType.inner ('[' :: (inside ++ [']'])) = inside := by
    simp [WrittenType.inner]
  rw [classify, if_neg (by simp [hlast]), if_neg (by simp [hlast]), if_pos h.isBracketed, hinner]

/-- A generic is spelled out exactly if its text begins with the name and the bracket. -/
theorem optional_prefix_iff (path : TypePath) (first : TypeTerm) (rest : List TypeTerm) :
    "Optional<".toList <+: (generic path first rest).text ↔
      (generic path first rest).spelledOut = true := by
  rw [text, spelledOut, beq_iff_eq]
  -- Both the name and the path end where the first bracket opens.
  have hpath : ∀ more, (path.text ++ '<' :: more).takeWhile (· != '<') = path.text := by
    refine fun more => Text.takeWhile_eq_left (fun c hc => ?_) (by simp)
    simpa using path.ne_of_mem hc (show '<' ∈ scanned by decide)
  constructor
  · rintro ⟨more, hmore⟩
    rw [← hpath, ← hmore]
    exact @Text.takeWhile_eq_left (· != '<') "Optional".toList ('<' :: more) (by simp) (by simp)
  · intro hname
    rw [hname]
    exact ⟨_, rfl⟩

/-- The text of a type term is classified as the term it was made from. -/
theorem classify_text (term : TypeTerm) : classify term.text = (term.kind, term.spelledOut) := by
  cases term with
  | name path =>
      have hlast : ∀ c, path.text.getLast? = some c → c ≠ '?' ∧ c ≠ '>' := fun c hc =>
        have hmem := List.mem_of_getLast? hc
        ⟨(path.plain_of_mem hmem).2.2, path.ne_of_mem hmem (by decide)⟩
      have hhead := path.head?_append_ne []
      rw [List.append_nil] at hhead
      rw [text]
      exact classify_named (fun hc => (hlast _ hc).1 rfl) (fun hc => (hlast _ hc.2).2 rfl) hhead
  | generic path first rest =>
      have hlast := getLast?_generic path first rest
      have hbegin := optional_prefix_iff path first rest
      by_cases hspelled : (generic path first rest).spelledOut = true
      · rw [classify, if_neg (by simp [hlast]), if_pos, kind, if_pos hspelled, hspelled]
        rw [Bool.and_eq_true, List.isPrefixOf_iff_prefix, beq_iff_eq]
        exact ⟨hbegin.2 hspelled, hlast⟩
      · rw [classify_named (by simp [hlast]) (fun h => hspelled (hbegin.1 h.1)), kind,
          if_neg hspelled, Bool.eq_false_iff.2 hspelled]
        rw [text]
        exact path.head?_append_ne _
  | optional wrapped =>
      rw [classify, if_pos (by simp [getLast?_optional])]
      rfl
  | array element =>
      rw [text, classify_bracketed element.balanced_text.within,
        element.balanced_text.hasOuterColon_eq_false]
      rfl
  | dictionary key value =>
      have hinside : Balanced true (key.text ++ ':' :: ' ' :: value.text) :=
        key.balanced_text.within.append (.colon (.char space_not_mem value.balanced_text.within))
      rw [text, classify_bracketed hinside, key.balanced_text.hasOuterColon_colon]
      rfl
  | tuple elements =>
      have hlast := getLast?_tuple elements
      exact classify_named (by simp [hlast]) (by simp [hlast]) (by simp [text])
  | function parameters result =>
      by_cases hmark : (function parameters result).text.getLast? = some '?'
      · rw [classify, if_pos (by simp [hmark])]
        simp [kind, spelledOut, hmark]
      · rw [classify_named hmark (by simp [text]) (by simp [text])]
        simp [kind, spelledOut, hmark]

/-- The blanks around a written form do not belong to it. -/
theorem ofText_eq (term : TypeTerm) {before after : List Char}
    (hbefore : ∀ c ∈ before, Text.isBlank c = true)
    (hafter : ∀ c ∈ after, Text.isBlank c = true) :
    WrittenType.ofText (String.ofList (before ++ (term.text ++ after))) =
      ⟨term.kind, String.ofList term.text, term.spelledOut⟩ := by
  have hfirst : ∀ c ∈ term.text.head?, Text.isBlank c = false := by
    obtain ⟨d, rest, htext, hd⟩ := term.exists_head
    rw [htext]
    rintro c ⟨⟩
    exact hd
  have hlast : ∀ c ∈ term.text.getLast?, Text.isBlank c = false := by
    obtain ⟨d, htext, hd⟩ := term.exists_last
    rw [htext]
    rintro c ⟨⟩
    exact hd
  rw [WrittenType.ofText, String.toList_ofList, Text.trim_append hbefore hfirst hlast hafter,
    term.classify_text]

end TypeTerm

/-! ## Defaults -/

theorem lookup_defaultLiterals :
    ∀ entry ∈ defaultLiterals, defaultLiterals.lookup entry.1 = some entry.2 := by
  decide

/-- Every text with a literal of its own is a name. -/
theorem classify_of_mem_defaultLiterals :
    ∀ entry ∈ defaultLiterals, classify entry.1.toList = (.named, false) := by
  decide

/-- A written form is classified by its outermost constructor, whatever blanks surround it,
and the kind chooses the default.  Among the named types the ones with a literal of their own
are told by their text. -/
theorem ofText_follows_constructor (term : TypeTerm) {before after : List Char}
    (hbefore : ∀ c ∈ before, Text.isBlank c = true) (hafter : ∀ c ∈ after, Text.isBlank c = true)
    (name : String) :
    let written := String.ofList term.text
    let type := WrittenType.ofText (String.ofList (before ++ (term.text ++ after)))
    type = ⟨term.kind, written, term.spelledOut⟩ ∧
      (term.kind = .optional → defaultFor name type false = "nil") ∧
      (term.kind = .array → defaultFor name type false = "[]") ∧
      (term.kind = .dictionary → defaultFor name type false = "[:]") ∧
      (∀ literal, (written, literal) ∈ defaultLiterals → defaultFor name type false = literal) ∧
      (term.kind = .named → (∀ literal, (written, literal) ∉ defaultLiterals) →
        defaultFor name type false = ".fake()") := by
  intro written type
  have htype : type = ⟨term.kind, written, term.spelledOut⟩ := term.ofText_eq hbefore hafter
  have hdefault : defaultFor name type false =
      WrittenType.defaultExpression ⟨term.kind, written, term.spelledOut⟩ := by
    rw [htype]
    rfl
  rw [hdefault, WrittenType.defaultExpression]
  refine ⟨htype, ?_, ?_, ?_, ?_, ?_⟩
  · intro hkind
    rw [hkind]
  · intro hkind
    rw [hkind]
  · intro hkind
    rw [hkind]
  · intro literal hmem
    have hkind := classify_of_mem_defaultLiterals _ hmem
    rw [String.toList_ofList, term.classify_text, Prod.mk.injEq] at hkind
    rw [hkind.1]
    simp [lookup_defaultLiterals _ hmem]
  · intro hkind hnone
    rw [hkind]
    have hlookup : defaultLiterals.lookup written = none := by
      rw [List.lookup_eq_none_iff]
      intro entry hentry
      rw [bne_iff_ne]
      intro heq
      exact hnone entry.2 (heq ▸ hentry)
    simp [hlookup]

/-- A dictionary of optional functions, with colons, arrows and brackets of every shape. -/
def nestedTerm : TypeTerm :=
  let int : TypeTerm := .name ⟨.ofWord "Int" (by decide) (by decide), []⟩
  let key : TypeTerm := .name ⟨.ofWord "Key" (by decide) (by decide), []⟩
  let void : TypeTerm :=
    .name ⟨.ofWord "Swift" (by decide) (by decide), [.ofWord "Void" (by decide) (by decide)]⟩
  let pair : TypeTerm := .tuple [
    (some (.ofWord "id" (by decide) (by decide)), .optional int),
    (some (.ofWord "run" (by decide) (by decide)), .function [.array int] (.dictionary key int))]
  let result : TypeTerm := .generic ⟨.ofWord "Optional" (by decide) (by decide), []⟩ void []
  .dictionary key (.optional (.function [pair, void] result))

theorem ofText_follows_constructor_nestedTerm :
    let written :=
      "[Key: (((id: Int?, run: ([Int]) -> [Key: Int]), Swift.Void) -> Optional<Swift.Void>)?]"
    let type := WrittenType.ofText (String.ofList (['\t', ' '] ++ (nestedTerm.text ++ ['\n'])))
    (∀ c ∈ ['\t', ' '], Text.isBlank c = true) ∧ (∀ c ∈ ['\n'], Text.isBlank c = true) ∧
      String.ofList nestedTerm.text = written ∧ type = ⟨.dictionary, written, false⟩ ∧
      defaultFor "entries" type false = "[:]" := by
  intro written type
  have hwritten : String.ofList nestedTerm.text = written := by decide
  have hbefore : ∀ c ∈ ['\t', ' '], Text.isBlank c = true := by simp [Text.isBlank]
  have hafter : ∀ c ∈ ['\n'], Text.isBlank c = true := by simp [Text.isBlank]
  have hfollows := ofText_follows_constructor nestedTerm hbefore hafter "entries"
  refine ⟨hbefore, hafter, hwritten, ?_, hfollows.2.2.2.1 rfl⟩
  rw [← hwritten]
  exact hfollows.1

end Fakery
