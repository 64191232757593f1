import Fakery.Expansion
import Fakery.Proofs.Outline.RoundTrip
import Fakery.Proofs.Source.Faults
import Fakery.Proofs.Source.Matching
import Fakery.Proofs.Text.Utf8

/-!
# Truncated outlines

An outline without functions hides no brackets, and every part of it closes what it opens.
Cut off inside of its body, wherever that is, it leaves the brace of the body open.  A language
that reports open blocks has a fault in its tree then, so the text is refused as a whole, and
no part of it is read or expanded.
-/

namespace Fakery

open Text

/-! ## Open blocks -/

/-- A block is open where the text ends. -/
def EndsInBlock (text : List Char) : Prop :=
  ∃ waiting, awaited [] text = some waiting ∧ '\x7d' ∈ waiting

/-- An open block is reported: some node of the tree is an error or missing. -/
def Language.ReportsUnclosed (language : Language) : Prop :=
  ∀ text : List Char, (∀ c ∈ text, Lexeme.hidesBrackets c = false) → EndsInBlock text →
    ∃ fault ∈ (language.tree (Utf8.encode text)).subnodes, fault.isFault = true

/-- The first fault of an open block decides how the text is refused. -/
theorem Language.ReportsUnclosed.exists_first {language : Language}
    (h : language.ReportsUnclosed) {text : List Char}
    (hovert : ∀ c ∈ text, Lexeme.hidesBrackets c = false) (hopen : EndsInBlock text) :
    ∃ fault, (language.tree (Utf8.encode text)).subnodes.find? SyntaxNode.isFault = some fault := by
  obtain ⟨fault, hmem, hfault⟩ := h text hovert hopen
  exact Option.isSome_iff_exists.1 (List.find?_isSome.2 ⟨fault, hmem, hfault⟩)

/-- The reader reports open blocks, since it groups the tokens by their brackets first. -/
theorem swift_reportsUnclosed : swift.ReportsUnclosed := by
  intro text hovert ⟨waiting, hwaiting, hmem⟩
  have hnone : Tree.ofSource? text = none := by
    rw [Option.eq_none_iff_forall_ne_some]
    intro trees htrees
    have hclosed := Tree.wellBracketed_of_ofSource? hovert htrees
    rw [WellBracketed, hwaiting, Option.some.injEq] at hclosed
    simp [hclosed] at hmem
  unfold swift
  dsimp only
  cases hdecode : Utf8.decode (Utf8.encode text) with
  | error fault => exact ⟨_, List.mem_cons_self, rfl⟩
  | ok decoded =>
      obtain rfl := Utf8.encode_injective (Utf8.encode_of_decodeFrom hdecode)
      have hfile : Reader.fileNodes? decoded = none := by
        rw [Reader.fileNodes?, hnone]
        rfl
      simp only [Reader.fileNode, hfile]
      exact ⟨_, List.mem_cons_of_mem _ List.mem_cons_self, rfl⟩

/-- A text that ends inside of a block that would be closed. -/
theorem endsInBlock_take {ahead inside : List Char} (hahead : WellBracketed ahead)
    (hinside : WellBracketed inside) (after : List Char) {stop : Nat}
    (hopening : ahead.length < stop)
    (hclosing : stop ≤ ahead.length + (inside.length + 1)) :
    EndsInBlock ((ahead ++ '\x7b' :: (inside ++ after)).take stop) := by
  obtain ⟨n, rfl⟩ := Nat.exists_eq_add_of_lt hopening
  have hn : n ≤ inside.length := by omega
  obtain ⟨waiting, hwaiting⟩ := hinside.exists_awaited_of_prefix (List.take_prefix n inside)
  have hframe := awaited_frame hwaiting ['\x7d']
  rw [List.nil_append] at hframe
  refine ⟨waiting ++ ['\x7d'], ?_, by simp⟩
  rw [Nat.add_assoc, List.take_length_add_append, List.take_succ_cons,
    List.take_append_of_le_length hn, hahead.awaited_append, awaited_cons_opening closerOf?_brace,
    hframe]

namespace Outline

/-! ## Plain texts -/

/-- A text that closes what it opens and hides no brackets. -/
structure Plain (text : List Char) : Prop where
  wellBracketed : WellBracketed text
  overt : ∀ c ∈ text, Lexeme.hidesBrackets c = false

/-- Characters that are no brackets and hide none. -/
def isPlain (c : Char) : Bool :=
  !isBracket c && !Lexeme.hidesBrackets c

namespace Plain

variable {text more : List Char}

theorem nil : Plain [] :=
  ⟨rfl, by simp⟩

theorem of_all (h : text.all isPlain = true) : Plain text := by
  simp only [List.all_eq_true, isPlain, Bool.and_eq_true, Bool.not_eq_true'] at h
  exact ⟨.of_brackets_eq_nil (brackets_eq_nil.2 fun c hc => (h c hc).1), fun c hc => (h c hc).2⟩

/-- Characters of a kind that neither brackets are of nor what hides brackets. -/
theorem of_forall {p : Char → Bool} (hbrackets : "()[]\x7b\x7d".toList.all (!p ·) = true)
    (hhidden : "/\"#\x60".toList.all (!p ·) = true) (h : ∀ c ∈ text, p c = true) : Plain text :=
  ⟨.of_brackets_eq_nil (brackets_eq_nil.2 fun c hc => contains_eq_false hbrackets (h c hc)),
    fun c hc => contains_eq_false hhidden (h c hc)⟩

theorem append (h : Plain text) (hmore : Plain more) : Plain (text ++ more) :=
  ⟨h.wellBracketed.append hmore.wellBracketed, List.forall_mem_append.2 ⟨h.overt, hmore.overt⟩⟩

theorem cons {c : Char} (hc : isPlain c = true) (h : Plain text) : Plain (c :: text) :=
  (show Plain [c] from of_all (by simp [hc])).append h

theorem enclosed {opening closing : Char} (hclosing : closerOf? opening = some closing)
    (h : Plain text) (hmore : Plain more) : Plain (opening :: (text ++ closing :: more)) := by
  have hovert : Lexeme.hidesBrackets opening = false ∧ Lexeme.hidesBrackets closing = false := by
    unfold closerOf? at hclosing
    split at hclosing
    all_goals cases hclosing
    all_goals exact ⟨rfl, rfl⟩
  refine ⟨h.wellBracketed.enclosed hclosing hmore.wellBracketed, ?_⟩
  simp only [List.forall_mem_cons, List.forall_mem_append]
  exact ⟨hovert.1, h.overt, hovert.2, hmore.overt⟩

theorem flatMap {α : Type} {items : List α} {write : α → List Char}
    (h : ∀ item ∈ items, Plain (write item)) : Plain (items.flatMap write) := by
  refine ⟨.flatMap fun item hitem => (h item hitem).wellBracketed, fun c hc => ?_⟩
  obtain ⟨item, hitem, hmem⟩ := List.mem_flatMap.1 hc
  exact (h item hitem).overt c hmem

theorem commaText {texts : List (List Char)} (h : ∀ text ∈ texts, Plain text) :
    Plain (commaText texts) := by
  cases texts with
  | nil => exact nil
  | cons first rest =>
      rw [List.forall_mem_cons] at h
      exact h.1.append (flatMap fun text htext => cons rfl (cons rfl (h.2 text htext)))

end Plain

/-! ## Texts of outlines -/

theorem Name.plain_text (name : Name) : Plain name.text :=
  .of_forall (by decide) (by decide) name.isNamePart

theorem Indent.plain_text (indent : Indent) : Plain indent.text :=
  .of_forall (by decide) (by decide) indent.blank

theorem Margin.plain_text (margin : Margin) : Plain margin.text := by
  refine .append (.of_all ?_) margin.indent.plain_text
  rw [List.all_replicate]
  split <;> rfl

theorem Break.plain_text (separation : Break) : Plain separation.text := by
  cases separation with
  | space => exact .of_all (by decide)
  | line indent => exact .cons rfl indent.plain_text

theorem Literal.plain_text (literal : Literal) : Plain literal.text := by
  have hdigits : Plain literal.digits := .of_forall (by decide) (by decide) literal.isDigit
  unfold Literal.text
  split
  · exact .cons rfl hdigits
  · exact hdigits

theorem Mark.plain_text (mark : Mark) : Plain mark.text := by
  refine .append (.cons rfl (mark.name.plain_text.append ?_)) mark.behind.plain_text
  cases mark.argument with
  | none => exact .nil
  | some literal => exact literal.plain_text.enclosed rfl .nil

theorem Front.plain_text (front : Front) : Plain front.text :=
  front.margin.plain_text.append (.flatMap fun mark _ => mark.plain_text)

mutual

theorem Ty.plain_text : ∀ type : Ty, Plain type.text
  | .named name => name.plain_text
  | .optional wrapped => (Ty.plain_text wrapped).append (.of_all (by decide))
  | .array element => (Ty.plain_text element).enclosed rfl .nil
  | .dictionary key value => by
      have hvalue := Plain.cons (c := ':') rfl (.cons (c := ' ') rfl (Ty.plain_text value))
      have hinside := (Ty.plain_text key).append hvalue
      simpa [Ty.text] using hinside.enclosed (rfl : closerOf? '[' = some ']') .nil
  | .generic name first rest =>
      name.plain_text.append (.cons rfl ((Ty.plain_text first).append
        ((Ty.plain_restText rest).append (.of_all (by decide)))))

theorem Ty.plain_restText : ∀ types : List Ty, Plain (Ty.restText types)
  | [] => .nil
  | type :: rest => .cons rfl (.cons rfl ((Ty.plain_text type).append (Ty.plain_restText rest)))

end

theorem ParamNames.plain_text (names : ParamNames) : Plain names.text := by
  cases names with
  | plain name => exact name.plain_text
  | labelled label name => exact label.plain_text.append (.cons rfl name.plain_text)
  | unlabelled name => exact .cons rfl (.cons rfl name.plain_text)

theorem Param.plain_text (param : Param) : Plain param.text :=
  param.names.plain_text.append (.cons rfl (.cons rfl param.type.plain_text))

theorem Value.plain_text (value : Value) : Plain value.text := by
  unfold Value.text
  split
  · exact value.type.plain_text
  · next label _ => exact label.plain_text.append (.cons rfl (.cons rfl value.type.plain_text))

theorem Element.plain_text (element : Element) : Plain element.text := by
  refine element.name.plain_text.append ?_
  split
  · exact .nil
  · next values _ =>
      exact .enclosed rfl
        (.commaText (List.forall_mem_map.2 fun value _ => value.plain_text)) .nil

theorem plain_headText (keyword : TypeKeyword) (name : Name) (inherited : List Name) :
    Plain (headText keyword name inherited) := by
  have hkeyword : Plain keyword.text := by
    cases keyword <;> exact .of_all (by decide)
  refine hkeyword.append (.cons rfl (name.plain_text.append ?_))
  cases inherited with
  | nil => exact .nil
  | cons first rest =>
      exact .cons rfl (.cons rfl (.commaText (List.forall_mem_map.2 fun name _ => name.plain_text)))

mutual

def Node.lacksFunctions : Node → Bool
  | .function .. => false
  | .type _ _ _ _ body _ => allLackFunctions body
  | _ => true

def allLackFunctions : List Node → Bool
  | [] => true
  | node :: rest => node.lacksFunctions && allLackFunctions rest

end

/-- The lines between the braces of a type. -/
def insideText (body : List Node) (last : Indent) : List Char :=
  '\n' :: (linesOf body ++ last.text)

mutual

theorem Node.plain_bare : ∀ node : Node, node.lacksFunctions = true → Plain node.bare
  | .property front isStatic isVariable name type, _ => by
      refine .append (.flatMap fun mark _ => mark.plain_text) (.append ?_ (.append ?_ ?_))
      · cases isStatic <;> exact .of_all (by decide)
      · cases isVariable <;> exact .of_all (by decide)
      · exact .cons rfl (name.plain_text.append (.cons rfl (.cons rfl type.plain_text)))
  | .cases front first rest, _ => by
      refine .append (.flatMap fun mark _ => mark.plain_text) (.append ?_ (.cons rfl ?_))
      · exact .of_all (by decide)
      · exact .commaText (List.forall_mem_map.2 fun element _ => element.plain_text)
  | .initializer front params inside, _ => by
      have hparams : Plain (commaText (params.map Param.text)) :=
        .commaText (List.forall_mem_map.2 fun param _ => param.plain_text)
      have hinside : Plain ((inside.map Break.text).getD []) := by
        cases inside with
        | none => exact .nil
        | some separation => exact separation.plain_text
      have hblock := Plain.cons (c := ' ') rfl (hinside.enclosed closerOf?_brace .nil)
      refine .append (.flatMap fun mark _ => mark.plain_text) (.append ?_ ?_)
      · exact .of_all (by decide)
      · exact hparams.enclosed rfl hblock
  | .type front keyword name inherited body last, h => by
      have hinside : Plain (insideText body last) :=
        .cons rfl ((plain_linesOf body h).append last.plain_text)
      have hblock := hinside.enclosed closerOf?_brace .nil
      have hbare : (Node.type front keyword name inherited body last).bare =
          front.marks.flatMap Mark.text ++ (headText keyword name inherited ++ ' ' ::
            '\x7b' :: (insideText body last ++ ['\x7d'])) := by
        simp [Node.bare, insideText]
      rw [hbare]
      exact .append (.flatMap fun mark _ => mark.plain_text)
        ((plain_headText keyword name inherited).append (hblock.cons rfl))

theorem plain_linesOf : ∀ nodes : List Node, allLackFunctions nodes = true → Plain (linesOf nodes)
  | [], _ => .nil
  | node :: rest, h => by
      rw [allLackFunctions, Bool.and_eq_true] at h
      exact node.margin.plain_text.append
        ((Node.plain_bare node h.1).append (.cons rfl (plain_linesOf rest h.2)))

end

/-! ## The braces of a type -/

/-- What stands before the body of a type. -/
def aheadText (front : Front) (keyword : TypeKeyword) (name : Name) (inherited : List Name) :
    List Char :=
  front.text ++ (headText keyword name inherited ++ [' '])

section TopType

variable (front : Front) (keyword : TypeKeyword) (name : Name) (inherited : List Name)
  (body : List Node) (last : Indent)

theorem linesOf_type : linesOf [.type front keyword name inherited body last] =
    aheadText front keyword name inherited ++
      '\x7b' :: (insideText body last ++ '\x7d' :: ['\n']) := by
  simp [linesOf, Node.margin, Node.bare, aheadText, insideText, Front.text]

theorem plain_aheadText : Plain (aheadText front keyword name inherited) :=
  front.plain_text.append
    ((plain_headText keyword name inherited).append (.of_all (by decide)))

theorem brace_not_mem {p : Char → Bool} (hp : p '\x7b' = false) {text : List Char}
    (h : ∀ c ∈ text, p c = true) : '\x7b' ∉ text := by
  intro hmem
  simp [h _ hmem] at hp

theorem Name.brace_not_mem (name : Name) : '\x7b' ∉ name.text :=
  Outline.brace_not_mem rfl name.isNamePart

theorem Indent.brace_not_mem (indent : Indent) : '\x7b' ∉ indent.text :=
  Outline.brace_not_mem rfl indent.blank

theorem Mark.brace_not_mem (mark : Mark) : '\x7b' ∉ mark.text := by
  have hbehind : '\x7b' ∉ mark.behind.text := by
    cases mark.behind with
    | space => simp [Break.text]
    | line indent => simp [Break.text, indent.brace_not_mem]
  have hliteral : ∀ literal : Literal, '\x7b' ∉ literal.text := by
    intro literal
    have hdigits := Outline.brace_not_mem (p := Char.isDigit) rfl literal.isDigit
    unfold Literal.text
    split <;> simp [hdigits]
  unfold Mark.text Mark.bareText
  cases mark.argument <;> simp [mark.name.brace_not_mem, hbehind, hliteral]

/-- The brace of the body is the first of all. -/
theorem brace_not_mem_aheadText : '\x7b' ∉ aheadText front keyword name inherited := by
  have hmargin : '\x7b' ∉ front.margin.text := by
    simp [Margin.text, front.margin.indent.brace_not_mem]
  have hkeyword : '\x7b' ∉ keyword.text := by
    cases keyword <;> decide
  have hinheritance : '\x7b' ∉ inheritanceText inherited := by
    cases inherited <;> simp [inheritanceText, commaText, Name.brace_not_mem]
  simp [aheadText, Front.text, headText, hmargin, Mark.brace_not_mem, hkeyword, name.brace_not_mem,
    hinheritance]

/-- A type at the top of a file is read with these braces around its body. -/
theorem exists_parse_type {language : Language}
    (hfits : (Node.type front keyword name inherited body last).fits .file = true)
    (hderives : language.Derives [.type front keyword name inherited body last]) :
    ∃ decl, parse language (linesOf [.type front keyword name inherited body last]) = .ok [decl] ∧
      decl.header.bodyStart = (aheadText front keyword name inherited).length ∧
      decl.header.bodyEnd =
        (aheadText front keyword name inherited).length + ((insideText body last).length + 1) := by
  obtain ⟨decls, hparse, hdecls⟩ := exists_parse_linesOf (by simp [allFit, hfits]) hderives
  obtain ⟨decl, rfl, hdecl⟩ := List.map_eq_singleton_iff.1 hdecls
  have hheader := (Member.type.inj hdecl).1
  refine ⟨decl, hparse, ?_, ?_⟩
  · rw [hheader]
    simp only [aheadText, List.length_append, List.length_singleton]
    omega
  · rw [hheader]
    simp only [aheadText, insideText, List.length_append, List.length_cons, List.length_nil]
    omega

end TopType

/-- A type without functions that is cut off behind the first brace of its text, and before the
brace that closes it, is refused: nothing is read of it, and its expansion fails with the name
of the file and no declaration.  What is said is about the first fault of the tree. -/
theorem truncation_refused {language : Language} (hlanguage : language.ReportsUnclosed)
    (front : Front) (keyword : TypeKeyword) (name : Name) (inherited : List Name)
    (body : List Node) (last : Indent) (hbody : allLackFunctions body = true) :
    ∃ opening closing : Nat,
      '\x7b' ∉ (linesOf [.type front keyword name inherited body last]).take opening ∧
      (linesOf [.type front keyword name inherited body last])[opening]? = some '\x7b' ∧
      Closes (linesOf [.type front keyword name inherited body last]) opening closing ∧
      ((Node.type front keyword name inherited body last).fits .file = true →
        language.Derives [.type front keyword name inherited body last] → ∃ decl,
          parse language (linesOf [.type front keyword name inherited body last]) = .ok [decl] ∧
            decl.header.bodyStart = opening ∧ decl.header.bodyEnd = closing) ∧
      ∀ stop, opening < stop → stop ≤ closing → ∀ text,
        text = (linesOf [.type front keyword name inherited body last]).take stop →
        ∃ fault,
          (language.tree (Utf8.encode text)).subnodes.find? SyntaxNode.isFault = some fault ∧
          parse language text = .error (fault.syntaxError text) ∧
          ∀ unit filename, ∃ error, expand language unit filename text = .error error ∧
            error.filename = filename ∧ error.declaration? = none ∧
            error.message = filename ++ ": " ++ (fault.syntaxError text).text := by
  have hahead := plain_aheadText front keyword name inherited
  have hinside : Plain (insideText body last) :=
    .cons rfl ((plain_linesOf body hbody).append last.plain_text)
  have hplain : Plain (linesOf [.type front keyword name inherited body last]) :=
    plain_linesOf _ (by simp [allLackFunctions, Node.lacksFunctions, hbody])
  have hcloses := closes_append closerOf?_brace hinside.wellBracketed
    (aheadText front keyword name inherited) ['\n']
  rw [← linesOf_type] at hcloses
  refine ⟨_, _, ?_, ?_, hcloses, exists_parse_type front keyword name inherited body last, ?_⟩
  · rw [linesOf_type, List.take_left]
    exact brace_not_mem_aheadText front keyword name inherited
  · rw [linesOf_type, List.getElem?_append_right (Nat.le_refl _), Nat.sub_self]
    rfl
  · rintro stop hopening hclosing text rfl
    have hopen := endsInBlock_take hahead.wellBracketed hinside.wellBracketed ['\x7d', '\n']
      hopening hclosing
    rw [← linesOf_type] at hopen
    obtain ⟨fault, hfault⟩ :=
      hlanguage.exists_first (fun c hc => hplain.overt c (List.mem_of_mem_take hc)) hopen
    have hparse := parse_eq_error hfault
    refine ⟨fault, hfault, hparse, fun unit filename =>
      ⟨⟨filename, .malformed _⟩, ?_, rfl, rfl, rfl⟩⟩
    rw [expand, hparse]

theorem truncation_refused_shapeOutline :
    swift.ReportsUnclosed ∧ allLackFunctions shapeOutline = true ∧ ∃ decl,
      parse swift (linesOf shapeOutline) = .ok [decl] ∧
      decl.header.bodyStart < decl.header.bodyEnd ∧
      ∀ stop, decl.header.bodyStart < stop → stop ≤ decl.header.bodyEnd → ∃ fault,
        parse swift ((linesOf shapeOutline).take stop) =
          .error (SyntaxNode.syntaxError ((linesOf shapeOutline).take stop) fault) ∧
        ∃ error, expand swift "\t" "Shape.swift" ((linesOf shapeOutline).take stop) =
            .error error ∧
          error.filename = "Shape.swift" ∧ error.declaration? = none := by
  have hshape : ∃ front keyword name inherited body last,
      shapeOutline = [.type front keyword name inherited body last] ∧
      (Node.type front keyword name inherited body last).fits .file = true ∧
      allLackFunctions body = true :=
    ⟨_, _, _, _, _, _, rfl, rfl, rfl⟩
  have hderives : swift.Derives shapeOutline := by decide +kernel
  obtain ⟨front, keyword, name, inherited, body, last, hsheet, hfits, hbody⟩ := hshape
  obtain ⟨opening, closing, -, -, hcloses, hparse, hrefused⟩ :=
    truncation_refused swift_reportsUnclosed front keyword name inherited body last hbody
  refine ⟨swift_reportsUnclosed, rfl, ?_⟩
  rw [hsheet] at hderives ⊢
  obtain ⟨decl, hdecl, rfl, rfl⟩ := hparse hfits hderives
  refine ⟨decl, hdecl, hcloses.lt, fun stop hopening hclosing => ?_⟩
  obtain ⟨fault, -, herror, hexpand⟩ := hrefused stop hopening hclosing _ rfl
  obtain ⟨error, hfails, hfilename, hdeclaration, -⟩ := hexpand "\t" "Shape.swift"
  exact ⟨fault, herror, error, hfails, hfilename, hdeclaration⟩

end Outline

end Fakery
