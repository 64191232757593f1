import Fakery.Fake.Default
import Fakery.Proofs.Outline.Spelling

/-!
# Expressions of generated code

Generated code is put together from names, types and expressions that are written on one
line.  Texts of expressions and arguments are closed under the forms in which generated code
combines them, and every default is the text of an expression.
-/

namespace Fakery.Outline

/-! ## Expressions and arguments -/

structure IsExpr (text : List Char) : Prop where
  oneLine : '\n' ∉ text
  exists_expr : ∃ expr : Expr, expr.text = text

structure IsArgument (text : List Char) : Prop where
  oneLine : '\n' ∉ text
  exists_argument : ∃ (label : Option Name) (value : Expr), labelText label ++ value.text = text

theorem Expr.text_ne_nil (expr : Expr) : expr.text ≠ [] := by
  cases expr with
  | constant constant => cases constant <;> simp [Expr.text, Constant.text]
  | integer literal => exact literal.text_ne_nil
  | name name => exact name.ne_nil
  | _ => simp [Expr.text]

theorem IsArgument.ne_nil {text : List Char} (h : IsArgument text) : text ≠ [] := by
  obtain ⟨label, value, rfl⟩ := h.exists_argument
  simp [value.text_ne_nil]

theorem isExpr_name (name : Name) : IsExpr name.text :=
  ⟨name.not_mem_line, .name name, rfl⟩

theorem isExpr_member (name : Name) : IsExpr ('.' :: name.text) :=
  ⟨by simp [name.not_mem_line], .member name, rfl⟩

theorem Literal.isExpr (literal : Literal) : IsExpr literal.text :=
  ⟨literal.not_mem_text, .integer literal, rfl⟩

theorem isExpr_fraction (whole part : Digits) : IsExpr (whole.digits ++ '.' :: part.digits) :=
  ⟨by simp [whole.not_mem_digits, part.not_mem_digits], .fraction whole part, rfl⟩

theorem isExpr_quoted {text : List Char} (h : ∀ c ∈ text, isQuotable c = true) :
    IsExpr ('"' :: (text ++ ['"'])) := by
  have hline : '\n' ∉ text := fun hmem => absurd (h _ hmem) (by decide)
  exact ⟨by simpa using hline, .quoted text h, rfl⟩

theorem IsExpr.forced {text : List Char} (h : IsExpr text) : IsExpr (text ++ ['!']) := by
  obtain ⟨expr, rfl⟩ := h.exists_expr
  exact ⟨by simpa using h.oneLine, .forced expr, rfl⟩

/-- An expression is an argument without a label. -/
theorem IsExpr.argument {text : List Char} (h : IsExpr text) : IsArgument text := by
  obtain ⟨value, rfl⟩ := h.exists_expr
  exact ⟨h.oneLine, none, value, rfl⟩

theorem IsExpr.labelled {text : List Char} (h : IsExpr text) (label : Name) :
    IsArgument (label.text ++ ':' :: ' ' :: text) := by
  obtain ⟨value, rfl⟩ := h.exists_expr
  exact ⟨by simp [label.not_mem_line, h.oneLine], some label, value, by simp [labelText]⟩

theorem exists_arguments {texts : List (List Char)} (h : ∀ text ∈ texts, IsArgument text) :
    ∃ arguments : Arguments, arguments.texts = texts := by
  induction texts with
  | nil => exact ⟨.nil, rfl⟩
  | cons text rest ih =>
      rw [List.forall_mem_cons] at h
      obtain ⟨label, value, rfl⟩ := h.1.exists_argument
      obtain ⟨arguments, rfl⟩ := ih h.2
      exact ⟨.cons label value arguments, rfl⟩

def Blank.nil : Blank :=
  ⟨[], by simp⟩

/-- A call with its arguments on the same line. -/
theorem IsExpr.call {text : List Char} (h : IsExpr text) {texts : List (List Char)}
    (htexts : ∀ text ∈ texts, IsArgument text) :
    IsExpr (text ++ '(' :: (commaText texts ++ [')'])) := by
  obtain ⟨callee, rfl⟩ := h.exists_expr
  obtain ⟨arguments, rfl⟩ := exists_arguments htexts
  have hline := not_mem_commaText fun text htext => (htexts text htext).oneLine
  exact ⟨by simp [h.oneLine, hline], .call callee .nil arguments .nil, rfl⟩

/-! ## Default expressions -/

def zero : Digits :=
  ⟨['0'], by simp, List.all_eq_true.1 (by decide)⟩

/-- Every literal of the table is an expression. -/
theorem isExpr_defaultLiterals : ∀ entry ∈ defaultLiterals, IsExpr entry.2.toList := by
  have hzero : IsExpr ['0'] := Literal.isExpr ⟨zero, false⟩
  have hfraction : IsExpr ['0', '.', '0'] := isExpr_fraction zero zero
  have hmember : IsExpr ".zero".toList := isExpr_member (.ofWord "zero" (by decide))
  have hdate : IsExpr "Date(timeIntervalSinceReferenceDate: 0)".toList :=
    @IsExpr.call _ (isExpr_name (.ofWord "Date" (by decide)))
      ["timeIntervalSinceReferenceDate: 0".toList] (List.forall_mem_singleton.2
        (hzero.labelled (.ofWord "timeIntervalSinceReferenceDate" (by decide))))
  have haddress : IsExpr "\"https://httpbin.org/get\"".toList :=
    @isExpr_quoted "https://httpbin.org/get".toList (List.all_eq_true.1 (by decide))
  have hurl : IsExpr "URL(string: \"https://httpbin.org/get\")!".toList :=
    (@IsExpr.call _ (isExpr_name (.ofWord "URL" (by decide)))
      ["string: \"https://httpbin.org/get\"".toList] (List.forall_mem_singleton.2
        (haddress.labelled (.ofWord "string" (by decide))))).forced
  simp only [defaultLiterals, List.forall_mem_cons]
  exact ⟨@isExpr_quoted [] (by simp), hdate, ⟨by decide, .constant .no, rfl⟩, hurl, hzero,
    hfraction, hfraction, hfraction, hmember, hmember, hmember, by simp⟩

/-- What a type alone chooses as a default is an expression. -/
theorem isExpr_defaultExpression (type : WrittenType) :
    IsExpr type.defaultExpression.toList := by
  have hnothing : IsExpr "nil".toList := ⟨by decide, .constant .nothing, rfl⟩
  have harray : IsExpr "[]".toList := ⟨by decide, .emptyArray, rfl⟩
  have hdictionary : IsExpr "[:]".toList := ⟨by decide, .emptyDictionary, rfl⟩
  rw [WrittenType.defaultExpression]
  cases type.kind with
  | optional => exact hnothing
  | array => exact harray
  | dictionary => exact hdictionary
  | named =>
      cases hlookup : defaultLiterals.lookup type.text with
      | none =>
          exact @IsExpr.call _ (isExpr_member (.ofWord "fake" (by decide))) [] (by simp)
      | some literal =>
          obtain ⟨before, after, hentries, -⟩ := List.lookup_eq_some_iff.1 hlookup
          exact isExpr_defaultLiterals (type.text, literal) (by simp [hentries])

end Fakery.Outline
