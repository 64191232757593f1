import Fakery.Proofs.Outline.Syntax

/-!
# Spelling of outlines

What the texts of an outline are made of.  Its names and types stand on one line and neither
begin nor end with a blank, and all of its characters are ASCII, so that a byte offset is a
character offset.
-/

namespace Fakery

namespace Text.Utf8

@[simp]
theorem isAscii_nil : isAscii [] = true :=
  rfl

@[simp]
theorem isAscii_cons (c : Char) (cs : List Char) :
    isAscii (c :: cs) = (decide (c.toNat < 128) && isAscii cs) :=
  rfl

@[simp]
theorem isAscii_append (left right : List Char) :
    isAscii (left ++ right) = (isAscii left && isAscii right) :=
  List.all_append

theorem isAscii_of_forall {cs : List Char} {p : Char → Bool} (h : ∀ c ∈ cs, p c = true)
    (hp : ∀ c, p c = true → c.toNat < 128) : isAscii cs = true :=
  List.all_eq_true.2 fun c hc => decide_eq_true (hp c (h c hc))

theorem isAscii_flatMap {α : Type} {f : α → List Char} {items : List α}
    (h : ∀ item ∈ items, isAscii (f item) = true) : isAscii (items.flatMap f) = true := by
  rw [isAscii, List.all_flatMap, List.all_eq_true]
  exact h

end Text.Utf8

namespace Outline

open Text.Utf8 (isAscii isAscii_append isAscii_cons isAscii_of_forall isAscii_flatMap)

/-! ## Characters -/

theorem toNat_of_isDigit {c : Char} (h : c.isDigit = true) : 48 ≤ c.toNat ∧ c.toNat ≤ 57 := by
  rw [Char.isDigit, Bool.and_eq_true, decide_eq_true_eq, decide_eq_true_eq] at h
  exact h

theorem toNat_of_isNamePart {c : Char} (h : isNamePart c = true) :
    48 ≤ c.toNat ∧ c.toNat ≤ 57 ∨ 65 ≤ c.toNat ∧ c.toNat ≤ 90 ∨ c.toNat = 95 ∨
      97 ≤ c.toNat ∧ c.toNat ≤ 122 := by
  have hparts : (((decide ('A' ≤ c ∧ c ≤ 'Z') || decide ('a' ≤ c) && decide (c ≤ 'z')) ||
      c.isDigit) || c == '_') = true := h
  simp only [Bool.or_eq_true, Bool.and_eq_true, decide_eq_true_eq, beq_iff_eq] at hparts
  rcases hparts with ((hupper | hlower) | hdigit) | rfl
  · exact .inr (.inl hupper)
  · exact .inr (.inr (.inr hlower))
  · exact .inl (toNat_of_isDigit hdigit)
  · exact .inr (.inr (.inl rfl))

theorem isBlank_of_isNamePart {c : Char} (h : isNamePart c = true) : Text.isBlank c = false := by
  have hrange := toNat_of_isNamePart h
  simp [Text.isBlank]
  omega

theorem toNat_of_isSpaceOrTab {c : Char} (h : Text.isSpaceOrTab c = true) : c.toNat < 128 := by
  rw [Text.isSpaceOrTab, Bool.or_eq_true, beq_iff_eq, beq_iff_eq] at h
  rcases h with rfl | rfl <;> decide

/-! ## Names and numbers -/

namespace Name

variable (name : Name)

theorem ne_nil : name.text ≠ [] := by
  obtain ⟨c, cs, htext, -, -⟩ := name.text_eq
  simp [htext]

theorem isBlank_of_mem {c : Char} (hc : c ∈ name.text) : Text.isBlank c = false :=
  isBlank_of_isNamePart (name.isNamePart c hc)

theorem not_mem_line : '\n' ∉ name.text :=
  fun hmem => absurd (name.isBlank_of_mem hmem) (by decide)

theorem isAscii_text : isAscii name.text = true :=
  isAscii_of_forall name.isNamePart fun c hc => by
    have hrange := toNat_of_isNamePart hc
    omega

/-- A name is none of the words that mean something. -/
theorem not_mem {words : List String} (hwords : words.all keywords.contains = true) :
    String.ofList name.text ∉ words := by
  intro hmem
  have hkeyword := List.all_eq_true.1 hwords _ hmem
  rw [name.not_keyword] at hkeyword
  exact absurd hkeyword (by simp)

end Name

theorem Digits.not_mem_digits (number : Digits) : '\n' ∉ number.digits :=
  fun hmem => absurd (number.isDigit _ hmem) (by decide)

theorem Digits.isAscii_digits (number : Digits) : isAscii number.digits = true :=
  isAscii_of_forall number.isDigit fun c hc => by
    have hrange := toNat_of_isDigit hc
    omega

namespace Literal

variable (literal : Literal)

theorem text_eq : ∃ sign : List Char, (sign = [] ∨ sign = ['-']) ∧
    literal.text = sign ++ literal.digits := by
  rw [Literal.text]
  split
  · exact ⟨['-'], .inr rfl, rfl⟩
  · exact ⟨[], .inl rfl, rfl⟩

theorem not_mem_text : '\n' ∉ literal.text := by
  obtain ⟨sign, rfl | rfl, htext⟩ := literal.text_eq <;> simp [htext, literal.not_mem_digits]

theorem text_ne_nil : literal.text ≠ [] := by
  obtain ⟨sign, -, htext⟩ := literal.text_eq
  simp [htext, literal.ne_nil]

theorem isAscii_text : isAscii literal.text = true := by
  obtain ⟨sign, rfl | rfl, htext⟩ := literal.text_eq <;>
    simp [htext, literal.isAscii_digits]

end Literal

/-! ## Types -/

mutual

theorem Ty.not_mem_text : ∀ type : Ty, '\n' ∉ type.text
  | .named name => name.not_mem_line
  | .optional wrapped => by simpa [Ty.text] using wrapped.not_mem_text
  | .array element => by simpa [Ty.text] using element.not_mem_text
  | .dictionary key value => by
      simpa [Ty.text] using ⟨key.not_mem_text, value.not_mem_text⟩
  | .generic name first rest => by
      simpa [Ty.text] using
        ⟨name.not_mem_line, first.not_mem_text, Ty.not_mem_restText rest⟩

theorem Ty.not_mem_restText : ∀ types : List Ty, '\n' ∉ Ty.restText types
  | [] => by simp [Ty.restText]
  | type :: rest => by
      simpa [Ty.restText] using ⟨type.not_mem_text, Ty.not_mem_restText rest⟩

end

mutual

theorem Ty.isAscii_text : ∀ type : Ty, isAscii type.text = true
  | .named name => name.isAscii_text
  | .optional wrapped => by simpa [Ty.text] using wrapped.isAscii_text
  | .array element => by
      simpa [Ty.text] using element.isAscii_text
  | .dictionary key value => by
      simpa [Ty.text] using
        ⟨key.isAscii_text, value.isAscii_text⟩
  | .generic name first rest => by
      simpa [Ty.text] using
        ⟨name.isAscii_text, first.isAscii_text, Ty.isAscii_restText rest⟩

theorem Ty.isAscii_restText : ∀ types : List Ty, isAscii (Ty.restText types) = true
  | [] => rfl
  | type :: rest => by
      simpa [Ty.restText] using
        ⟨type.isAscii_text, Ty.isAscii_restText rest⟩

end

theorem Ty.isBlank_head : ∀ type : Ty, ∃ c rest, type.text = c :: rest ∧ Text.isBlank c = false
  | .named name => by
      obtain ⟨c, rest, htext⟩ := List.exists_cons_of_ne_nil name.ne_nil
      exact ⟨c, rest, htext, name.isBlank_of_mem (by simp [htext])⟩
  | .optional wrapped => by
      obtain ⟨c, rest, htext, hc⟩ := wrapped.isBlank_head
      exact ⟨c, _, by rw [Ty.text, htext, List.cons_append], hc⟩
  | .array _ => ⟨'[', _, by rw [Ty.text], rfl⟩
  | .dictionary _ _ => ⟨'[', _, by rw [Ty.text], rfl⟩
  | .generic name _ _ => by
      obtain ⟨c, rest, htext⟩ := List.exists_cons_of_ne_nil name.ne_nil
      exact ⟨c, _, by rw [Ty.text, htext, List.cons_append],
        name.isBlank_of_mem (by simp [htext])⟩

/-- A type ends with a name, a question mark or a closing bracket. -/
theorem Ty.exists_last (type : Ty) : ∃ front c, type.text = front ++ [c] ∧
    (isNamePart c = true ∨ c ∈ ['?', ']', '>']) := by
  cases type with
  | named name =>
      obtain ⟨front, c, htext⟩ := (List.eq_nil_or_concat name.text).resolve_left name.ne_nil
      rw [List.concat_eq_append] at htext
      exact ⟨front, c, htext, .inl (name.isNamePart c (by simp [htext]))⟩
  | optional wrapped => exact ⟨wrapped.text, '?', by rw [Ty.text], .inr (by simp)⟩
  | array element => exact ⟨'[' :: element.text, ']', by simp [Ty.text], .inr (by simp)⟩
  | dictionary key value =>
      exact ⟨'[' :: (key.text ++ ':' :: ' ' :: value.text), ']', by simp [Ty.text], .inr (by simp)⟩
  | generic name first rest =>
      exact ⟨name.text ++ '<' :: (first.text ++ Ty.restText rest), '>', by simp [Ty.text],
        .inr (by simp)⟩

theorem Ty.trim_text (type : Ty) : Text.trim type.text = type.text := by
  obtain ⟨d, rest, hhead, hd⟩ := type.isBlank_head
  obtain ⟨front, e, hlast, he⟩ := type.exists_last
  refine Text.trim_eq ?_ ?_
  · rw [hhead]
    rintro c ⟨⟩
    exact hd
  · rw [hlast, List.getLast?_concat]
    rintro c ⟨⟩
    rcases he with he | he
    · exact isBlank_of_isNamePart he
    · have hbrackets : ∀ c ∈ ['?', ']', '>'], Text.isBlank c = false := by simp [Text.isBlank]
      exact hbrackets e he

theorem Ty.trimmed_text (type : Ty) :
    Text.trimmed (String.ofList type.text) = String.ofList type.text := by
  rw [Text.trimmed, String.toList_ofList, type.trim_text]

/-! ## Lists -/

theorem not_mem_commaText {texts : List (List Char)} (h : ∀ text ∈ texts, '\n' ∉ text) :
    '\n' ∉ commaText texts := by
  cases texts with
  | nil => simp [commaText]
  | cons first rest =>
      rw [List.forall_mem_cons] at h
      simpa [commaText] using h

theorem isAscii_commaText {texts : List (List Char)} (h : ∀ text ∈ texts, isAscii text = true) :
    isAscii (commaText texts) = true := by
  cases texts with
  | nil => rfl
  | cons first rest =>
      rw [List.forall_mem_cons] at h
      rw [commaText, isAscii_append, h.1, Bool.true_and]
      exact isAscii_flatMap fun text htext => by simp [h.2 text htext]

/-! ## Lines -/

theorem Indent.isAscii_text (indent : Indent) : isAscii indent.text = true :=
  isAscii_of_forall indent.blank fun _ => toNat_of_isSpaceOrTab

theorem Margin.isAscii_text (margin : Margin) : isAscii margin.text = true := by
  rw [Margin.text, isAscii_append, margin.indent.isAscii_text, Bool.and_true]
  exact List.all_eq_true.2 fun c hc => by rw [List.eq_of_mem_replicate hc]; rfl

theorem Break.isAscii_text (separator : Break) : isAscii separator.text = true := by
  cases separator with
  | space => rfl
  | line indent => simp [Break.text, indent.isAscii_text]

theorem Mark.isAscii_text (mark : Mark) : isAscii mark.text = true := by
  rw [Mark.text, Mark.bareText]
  cases mark.argument with
  | none => simp [mark.name.isAscii_text, mark.behind.isAscii_text]
  | some literal =>
      simp [mark.name.isAscii_text, mark.behind.isAscii_text,
        literal.isAscii_text]

theorem isAscii_marks (marks : List Mark) : isAscii (marks.flatMap Mark.text) = true :=
  isAscii_flatMap fun mark _ => mark.isAscii_text

theorem Param.isAscii_text (param : Param) : isAscii param.text = true := by
  rw [Param.text]
  cases param.names <;>
    simp [ParamNames.text, Name.isAscii_text, Ty.isAscii_text]

theorem Value.isAscii_text (value : Value) : isAscii value.text = true := by
  rw [Value.text]
  cases value.label with
  | none => exact value.type.isAscii_text
  | some label =>
      simp [label.isAscii_text, value.type.isAscii_text]

theorem Element.isAscii_text (element : Element) : isAscii element.text = true := by
  rw [Element.text, isAscii_append, element.name.isAscii_text, Bool.true_and]
  cases element.values with
  | none => rfl
  | some values =>
      have hvalues := isAscii_commaText (List.forall_mem_map.2 fun value (_ : value ∈ values) =>
        value.isAscii_text)
      simp [hvalues]

/-! ## Functions -/

theorem Blank.isAscii_text (blank : Blank) : isAscii blank.text = true := by
  refine isAscii_of_forall blank.white fun c hc => ?_
  rw [Bool.or_eq_true, beq_iff_eq] at hc
  rcases hc with hc | rfl
  · exact toNat_of_isSpaceOrTab hc
  · decide

theorem toNat_of_isQuotable {c : Char} (h : isQuotable c = true) : c.toNat < 128 := by
  simp only [isQuotable, Bool.and_eq_true, decide_eq_true_eq] at h
  omega

mutual

theorem Expr.isAscii_text : ∀ expr : Expr, isAscii expr.text = true
  | .constant constant => by cases constant <;> rfl
  | .integer literal => literal.isAscii_text
  | .fraction whole part => by
      simp [Expr.text, whole.isAscii_digits, part.isAscii_digits]
  | .quoted text quotable => by
      have htext := isAscii_of_forall quotable fun _ => toNat_of_isQuotable
      simp [Expr.text, htext]
  | .name name => name.isAscii_text
  | .member name => by simp [Expr.text, name.isAscii_text]
  | .emptyArray => rfl
  | .emptyDictionary => rfl
  | .call callee lead arguments tail => by
      simp [Expr.text, callee.isAscii_text, lead.isAscii_text,
        isAscii_commaText arguments.isAscii_texts, tail.isAscii_text]
  | .forced wrapped => by simp [Expr.text, wrapped.isAscii_text]

theorem Arguments.isAscii_texts : ∀ arguments : Arguments,
    ∀ text ∈ arguments.texts, isAscii text = true
  | .nil => by simp [Arguments.texts]
  | .cons label value rest => by
      rw [Arguments.texts, List.forall_mem_cons]
      refine ⟨?_, rest.isAscii_texts⟩
      cases label <;>
        simp [labelText, Name.isAscii_text, value.isAscii_text]

end

theorem DefaultParam.isAscii_text (param : DefaultParam) : isAscii param.text = true := by
  simp [DefaultParam.text, param.name.isAscii_text,
    param.type.isAscii_text, param.value.isAscii_text]

theorem Function.isAscii_text (function : Function) : isAscii function.text = true := by
  have hparams := isAscii_commaText (List.forall_mem_map.2 fun param
    (_ : param ∈ function.params) => param.isAscii_text)
  have hstatement : isAscii function.statement.text = true := by
    rw [Statement.text, isAscii_append, function.statement.value.isAscii_text, Bool.and_true]
    cases function.statement.returned <;> rfl
  unfold Function.text
  simp [function.name.isAscii_text, Blank.isAscii_text, hparams,
    function.result.isAscii_text, hstatement]

/-! ## Whole outlines -/

theorem isAscii_headText (keyword : TypeKeyword) (name : Name) (inherited : List Name) :
    isAscii (headText keyword name inherited) = true := by
  have hkeyword : isAscii keyword.text = true := by cases keyword <;> rfl
  have hinherited : isAscii (inheritanceText inherited) = true := by
    cases inherited with
    | nil => rfl
    | cons first rest =>
        have hnames := isAscii_commaText (List.forall_mem_map.2 fun name
          (_ : name ∈ first :: rest) => name.isAscii_text)
        rw [inheritanceText, isAscii_cons, isAscii_cons, hnames]
        rfl
  simp [headText, hkeyword, name.isAscii_text, hinherited]

mutual

theorem Node.isAscii_bare : ∀ node : Node, isAscii node.bare = true
  | .property front isStatic isVariable name type => by
      have hspecifier : isAscii (specifierOf isVariable).toList = true := by
        cases isVariable <;> rfl
      rw [Node.bare]
      cases isStatic <;> simp [isAscii_marks, hspecifier, name.isAscii_text,
        type.isAscii_text]
  | .cases front first rest => by
      have helements := isAscii_commaText (List.forall_mem_map.2 fun element
        (_ : element ∈ first :: rest) => element.isAscii_text)
      rw [Node.bare, isAscii_append, isAscii_append, isAscii_marks, isAscii_cons, helements]
      rfl
  | .initializer front params inside => by
      have hparams := isAscii_commaText (List.forall_mem_map.2 fun param
        (_ : param ∈ params) => param.isAscii_text)
      have hinside : isAscii ((inside.map Break.text).getD []) = true := by
        cases inside with
        | none => rfl
        | some separator => exact separator.isAscii_text
      rw [Node.bare]
      simp [isAscii_marks, hparams, hinside]
  | .function _ function => function.isAscii_text
  | .type front keyword name inherited body last => by
      simp [Node.bare, isAscii_marks, isAscii_headText,
        isAscii_linesOf body, last.isAscii_text]

theorem isAscii_linesOf : ∀ nodes : List Node, isAscii (linesOf nodes) = true
  | [] => rfl
  | node :: rest => by
      simp [linesOf, node.margin.isAscii_text, node.isAscii_bare,
        isAscii_linesOf rest]

end

end Outline

end Fakery
