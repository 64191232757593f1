import Fakery.Proofs.Text.Brackets
import Fakery.Source.Tree
import Mathlib.Data.List.TakeWhile

/-!
# Brackets of a source text

Comments, string literals, directives and quoted names hide the brackets in them.  In a text
without any of the characters that begin these, every bracket is a token of its own, so the
tokens can be grouped only if the text is well bracketed.
-/

namespace Fakery

open Text

/-! ## Bracket groups -/

namespace Bracket

def opening : Bracket → Char
  | .round => '('
  | .square => '['
  | .curly => '\x7b'

def closing : Bracket → Char
  | .round => ')'
  | .square => ']'
  | .curly => '\x7d'

end Bracket

namespace Tree

mutual

def tokens : Tree → List Token
  | .leaf token => [token]
  | .group _ opening body closing => opening :: (tokensOf body ++ [closing])

/-- The tokens of a list of trees from left to right. -/
def tokensOf : List Tree → List Token
  | [] => []
  | tree :: rest => tree.tokens ++ tokensOf rest

end

mutual

/-- Brackets stand only at the ends of groups, and those of a group fit together. -/
def IsMatched : Tree → Prop
  | .leaf token => opener? token = none ∧ closer? token = none
  | .group bracket opening body closing =>
    opener? opening = some bracket ∧ closer? closing = some bracket ∧ AreMatched body

def AreMatched : List Tree → Prop
  | [] => True
  | tree :: rest => tree.IsMatched ∧ AreMatched rest

end

@[simp]
theorem tokensOf_append (left right : List Tree) :
    tokensOf (left ++ right) = tokensOf left ++ tokensOf right := by
  induction left with
  | nil => rfl
  | cons tree rest ih => simp [tokensOf, ih]

theorem areMatched_iff (trees : List Tree) :
    AreMatched trees ↔ ∀ tree ∈ trees, tree.IsMatched := by
  induction trees with
  | nil => simp [AreMatched]
  | cons tree rest ih => simp [AreMatched, ih]

theorem text_of_opener? {token : Token} {bracket : Bracket} (h : opener? token = some bracket) :
    token.text = [bracket.opening] := by
  unfold opener? at h
  repeat' split at h
  all_goals cases h
  all_goals assumption

theorem text_of_closer? {token : Token} {bracket : Bracket} (h : closer? token = some bracket) :
    token.text = [bracket.closing] := by
  unfold closer? at h
  repeat' split at h
  all_goals cases h
  all_goals assumption

/-! ## Grouping undoes reading from left to right -/

/-- The tokens already read when groups are pending. -/
def readTokens : (pending : List (Bracket × Token × List Tree)) → (done : List Tree) → List Token
  | [], done => tokensOf done.reverse
  | (_, opening, before) :: pending, done =>
    readTokens pending before ++ opening :: tokensOf done.reverse

/-- The open groups and the trees in them are well matched. -/
def PendingMatched (pending : List (Bracket × Token × List Tree)) (done : List Tree) : Prop :=
  AreMatched done ∧
    ∀ entry ∈ pending, opener? entry.2.1 = some entry.1 ∧ AreMatched entry.2.2

/-- Grouping keeps every token in its place and gives trees with matched brackets. -/
theorem groupFrom_spec {unread : List Token} {pending : List (Bracket × Token × List Tree)}
    {done trees : List Tree} (h : groupFrom unread pending done = some trees)
    (hmatched : PendingMatched pending done) :
    tokensOf trees = readTokens pending done ++ unread ∧ AreMatched trees := by
  induction unread generalizing pending done with
  | nil =>
      cases pending with
      | nil =>
          simp only [groupFrom, Option.some.injEq] at h
          subst h
          refine ⟨by simp [readTokens], ?_⟩
          rw [areMatched_iff]
          intro tree htree
          exact (areMatched_iff _).1 hmatched.1 tree (List.mem_reverse.1 htree)
      | cons entry pending => simp [groupFrom] at h
  | cons token unread ih =>
      rw [groupFrom] at h
      split at h
      case h_1 bracket hopen =>
          have hnext : PendingMatched ((bracket, token, done) :: pending) [] := by
            refine ⟨trivial, fun entry hentry => ?_⟩
            rcases List.mem_cons.1 hentry with rfl | hentry
            · exact ⟨hopen, hmatched.1⟩
            · exact hmatched.2 entry hentry
          obtain ⟨htokens, htrees⟩ := ih h hnext
          exact ⟨by simpa [readTokens, tokensOf] using htokens, htrees⟩
      case h_2 hopen =>
          split at h
          case h_1 bracket hclose =>
              cases pending with
              | nil => exact absurd h (by simp)
              | cons entry pending =>
                  obtain ⟨expected, opening, before⟩ := entry
                  simp only [beq_iff_eq] at h
                  split at h
                  case isTrue hexpected =>
                      subst hexpected
                      obtain ⟨hentry, hbefore⟩ := hmatched.2 _ (List.mem_cons_self ..)
                      have hbody : AreMatched done.reverse := by
                        rw [areMatched_iff]
                        intro tree htree
                        exact (areMatched_iff _).1 hmatched.1 tree (List.mem_reverse.1 htree)
                      have hnext : PendingMatched pending
                          (.group bracket opening done.reverse token :: before) := by
                        refine ⟨⟨⟨hentry, hclose, hbody⟩, hbefore⟩, fun entry hentry => ?_⟩
                        exact hmatched.2 entry (List.mem_cons_of_mem _ hentry)
                      obtain ⟨htokens, htrees⟩ := ih h hnext
                      refine ⟨?_, htrees⟩
                      rw [htokens]
                      cases pending <;> simp [readTokens, tokensOf, tokens]
                  case isFalse => exact absurd h (by simp)
          case h_2 hclose =>
              have hnext : PendingMatched pending (.leaf token :: done) :=
                ⟨⟨⟨hopen, hclose⟩, hmatched.1⟩, hmatched.2⟩
              obtain ⟨htokens, htrees⟩ := ih h hnext
              refine ⟨?_, htrees⟩
              rw [htokens]
              cases pending <;> simp [readTokens, tokensOf, tokens]

theorem ofTokens?_spec {unread : List Token} {trees : List Tree}
    (h : ofTokens? unread = some trees) : tokensOf trees = unread ∧ AreMatched trees := by
  obtain ⟨htokens, htrees⟩ := groupFrom_spec h ⟨trivial, by simp⟩
  exact ⟨by simpa [readTokens, tokensOf] using htokens, htrees⟩

end Tree

namespace Lexeme

/-- The characters that begin a comment, a string literal, a directive or a quoted name. -/
def hidesBrackets (c : Char) : Bool :=
  "/\"#\x60".toList.contains c

/-! ## Brackets in words and numbers -/

theorem take_length_takeWhile (p : Char → Bool) (cs : List Char) :
    cs.take (cs.takeWhile p).length = cs.takeWhile p :=
  (List.prefix_iff_eq_take.1 (List.takeWhile_prefix p)).symm

def isNumberPart (c : Char) : Bool :=
  c.isAlphanum || c == '_' || c == '.' || c == '+' || c == '-'

section Number

variable {cs : List Char}

/-- Two characters of a number and the digits and letters behind them continue it. -/
theorem isNumberPart_take_add {n : Nat} (hn : ∀ c ∈ cs.take n, isNumberPart c = true) {a b : Char}
    {rest : List Char} (hdrop : cs.drop n = a :: b :: rest) (ha : isNumberPart a = true)
    (hb : isNumberPart b = true) :
    ∀ c ∈ cs.take (n + 2 + (rest.takeWhile fun c => c.isAlphanum || c == '_').length),
      isNumberPart c = true := by
  intro c hc
  rw [Nat.add_assoc, List.take_add, hdrop, Nat.add_comm 2, List.take_succ_cons, List.take_succ_cons,
    take_length_takeWhile] at hc
  simp only [List.mem_append, List.mem_cons] at hc
  rcases hc with hc | rfl | rfl | hc
  · exact hn c hc
  · exact ha
  · exact hb
  · have hpart := List.mem_takeWhile_imp hc
    simp only [isNumberPart, hpart, Bool.true_or]

theorem isNumberPart_of_isDigit {c : Char} (hc : c.isDigit = true) : isNumberPart c = true := by
  simp [isNumberPart, Char.isAlphanum, hc]

theorem isNumberPart_number : ∀ c ∈ cs.take (numberLength cs), isNumberPart c = true := by
  have hwhole : ∀ c ∈ cs.take (cs.takeWhile fun c => c.isAlphanum || c == '_').length,
      isNumberPart c = true := by
    intro c hc
    rw [take_length_takeWhile] at hc
    have hpart := List.mem_takeWhile_imp hc
    simp only [isNumberPart, hpart, Bool.true_or]
  -- a sign and a digit behind any part of the number continue it
  have hsigned : ∀ {length : Nat} {sign d : Char} {rest : List Char} {marked hex : Bool},
      (∀ c ∈ cs.take length, isNumberPart c = true) → cs.drop length = sign :: d :: rest →
      (marked && (sign == '-' || sign == '+') && d.isDigit && hex) = true →
      ∀ c ∈ cs.take (length + 2 + (rest.takeWhile fun c => c.isAlphanum || c == '_').length),
        isNumberPart c = true := by
    intro length sign d rest marked hex hlength hdrop hsign
    simp only [Bool.and_eq_true, Bool.or_eq_true, beq_iff_eq] at hsign
    refine isNumberPart_take_add hlength hdrop ?_ (isNumberPart_of_isDigit hsign.1.2)
    rcases hsign.1.1.2 with rfl | rfl <;> rfl
  have hfraction : ∀ {d : Char} {rest : List Char},
      cs.drop (cs.takeWhile fun c => c.isAlphanum || c == '_').length = '.' :: d :: rest →
      d.isDigit = true →
      ∀ c ∈ cs.take ((cs.takeWhile fun c => c.isAlphanum || c == '_').length + 2 +
        (rest.takeWhile fun c => c.isAlphanum || c == '_').length), isNumberPart c = true :=
    fun hdrop hdigit => isNumberPart_take_add hwhole hdrop rfl (isNumberPart_of_isDigit hdigit)
  unfold numberLength
  dsimp only
  repeat' split
  all_goals first
    | exact hwhole
    | exact hsigned hwhole ‹_› ‹_›
    | exact hfraction ‹_› ‹_›
    | exact hsigned (hfraction ‹_› ‹_›) ‹_› ‹_›

end Number

/-- A token that begins with no such character is a symbol of one character, or it has no
brackets. -/
theorem first?_brackets {c : Char} {rest : List Char} {kind : TokenKind} {n : Nat}
    (hc : hidesBrackets c = false) (h : first? (c :: rest) = some (kind, n)) :
    (kind = .symbol ∧ n = 1) ∨ brackets ((c :: rest).take n) = [] := by
  simp only [hidesBrackets, String.reduceToList, List.contains_cons, List.contains_nil,
    Bool.or_false, Bool.or_eq_false_iff] at hc
  obtain ⟨hslash, hquote, hhash, htick⟩ := hc
  have hnone : openingQuote? (c :: rest) = none := by
    unfold openingQuote?
    rw [List.takeWhile_cons_of_neg (by simp [hhash])]
    simp only [List.length_nil, List.drop_zero]
    split <;> simp_all
  unfold first? at h
  simp only [hslash, hhash, htick, hnone, Bool.false_and, Bool.false_eq_true, if_false] at h
  split at h
  · cases h
    exact .inr (brackets_eq_nil.2 fun d hd =>
      contains_eq_false (by decide) (isNumberPart_number d hd))
  · split at h
    · cases h
      rw [take_length_takeWhile]
      exact .inr (brackets_eq_nil.2 fun d hd =>
        contains_eq_false (by decide) (List.mem_takeWhile_imp hd))
    · split at h
      · cases h
        exact .inl ⟨rfl, rfl⟩
      · cases h

end Lexeme

/-! ## Brackets in tokens -/

namespace Token

/-- A token that has no brackets, or is a symbol of one character. -/
def Overt (token : Token) : Prop :=
  (token.kind = .symbol ∧ ∃ c, token.text = [c]) ∨ brackets token.text = []

/-- The tokens of a text that hides no brackets have the brackets of the text. -/
theorem scanFrom_overt {fuel start : Nat} {gap : Gap} {cs : List Char} {tokens : List Token}
    (hcs : ∀ c ∈ cs, Lexeme.hidesBrackets c = false)
    (h : scanFrom fuel start gap cs = some tokens) :
    (∀ token ∈ tokens, token.Overt) ∧ brackets (tokens.flatMap Token.text) = brackets cs := by
  fun_induction scanFrom fuel start gap cs generalizing tokens with
  | case1 =>
      cases h
      exact ⟨by simp, rfl⟩
  | case2 => cases h
  | case3 fuel start gap c rest hspace ih =>
      rw [List.forall_mem_cons] at hcs
      obtain ⟨hovert, hbrackets⟩ := ih hcs.2 h
      have hc : isBracket c = false := contains_eq_false (p := Lexeme.isSpace) (by decide) hspace
      exact ⟨hovert, by rw [hbrackets, brackets, brackets, List.filter_cons_of_neg (by simp [hc])]⟩
  | case4 => cases h
  | case5 fuel start gap c rest hspace kind length hfirst token =>
      rename_i ih
      obtain ⟨more, hmore, rfl⟩ := Option.map_eq_some_iff.1 h
      obtain ⟨hovert, hbrackets⟩ := ih (fun d hd => hcs d (List.mem_of_mem_drop hd)) hmore
      refine ⟨List.forall_mem_cons.2 ⟨?_, hovert⟩, ?_⟩
      · rcases Lexeme.first?_brackets (hcs c List.mem_cons_self) hfirst with ⟨hkind, rfl⟩ | hnone
        · exact .inl ⟨hkind, c, rfl⟩
        · exact .inr hnone
      · rw [List.flatMap_cons, brackets_append, hbrackets, ← brackets_append,
          List.take_append_drop]

theorem scan_overt {source : List Char} {tokens : List Token}
    (hsource : ∀ c ∈ source, Lexeme.hidesBrackets c = false) (h : scan source = some tokens) :
    (∀ token ∈ tokens, token.Overt) ∧
      brackets (tokens.flatMap Token.text) = brackets source := by
  unfold scan at h
  split at h
  case h_1 =>
    have hrest := scanFrom_overt (List.forall_mem_cons.1 hsource).2 h
    exact hrest
  case h_2 => exact absurd (hsource '#' List.mem_cons_self) (by decide)
  case h_3 => exact scanFrom_overt hsource h

end Token

/-! ## Brackets in groups -/

namespace Tree

theorem closerOf?_opening (bracket : Bracket) :
    closerOf? bracket.opening = some bracket.closing := by
  cases bracket <;> rfl

/-- A token that neither opens nor closes a group has no brackets. -/
theorem brackets_of_leaf {token : Token} (h : token.Overt) (hopener : opener? token = none)
    (hcloser : closer? token = none) : brackets token.text = [] := by
  rcases h with ⟨hkind, c, htext⟩ | h
  · rw [htext, brackets_eq_nil, List.forall_mem_singleton, Bool.eq_false_iff]
    intro hbracket
    have hmem : c ∈ "()[]\x7b\x7d".toList := List.contains_iff_mem.1 hbracket
    simp only [String.reduceToList, List.mem_cons, List.not_mem_nil, or_false] at hmem
    rcases hmem with rfl | rfl | rfl | rfl | rfl | rfl <;>
      simp [opener?, closer?, hkind, htext] at hopener hcloser
  · exact h

mutual

/-- Matched groups of such tokens are well bracketed. -/
theorem wellBracketed_tokens : ∀ {tree : Tree}, tree.IsMatched →
    (∀ token ∈ tree.tokens, token.Overt) → WellBracketed (tree.tokens.flatMap Token.text)
  | .leaf token, hmatched, hovert => by
      have hnone := brackets_of_leaf (hovert token List.mem_cons_self) hmatched.1 hmatched.2
      exact .of_brackets_eq_nil (by simpa [tokens] using hnone)
  | .group bracket opening body closing, hmatched, hovert => by
      obtain ⟨hopening, hclosing, hbody⟩ := hmatched
      have hinside := wellBracketed_tokensOf hbody fun token htoken =>
        hovert token (by simp [tokens, htoken])
      have htext : (tokens (.group bracket opening body closing)).flatMap Token.text =
          bracket.opening :: ((tokensOf body).flatMap Token.text ++ [bracket.closing]) := by
        simp [tokens, text_of_opener? hopening, text_of_closer? hclosing]
      rw [htext]
      exact hinside.enclosed (closerOf?_opening bracket) rfl

theorem wellBracketed_tokensOf : ∀ {trees : List Tree}, AreMatched trees →
    (∀ token ∈ tokensOf trees, token.Overt) →
    WellBracketed ((tokensOf trees).flatMap Token.text)
  | [], _, _ => rfl
  | tree :: rest, hmatched, hovert => by
      rw [tokensOf, List.flatMap_append]
      rw [tokensOf, List.forall_mem_append] at hovert
      exact (wellBracketed_tokens hmatched.1 hovert.1).append
        (wellBracketed_tokensOf hmatched.2 hovert.2)

end

/-- A text that hides no brackets has bracket groups only if it is well bracketed. -/
theorem wellBracketed_of_ofSource? {source : List Char} {trees : List Tree}
    (hsource : ∀ c ∈ source, Lexeme.hidesBrackets c = false)
    (h : ofSource? source = some trees) : WellBracketed source := by
  obtain ⟨hgrouped, -⟩ := Option.filter_eq_some_iff.1 h
  obtain ⟨tokens, hscan, htrees⟩ := Option.bind_eq_some_iff.1 hgrouped
  obtain ⟨rfl, hmatched⟩ := ofTokens?_spec htrees
  obtain ⟨hovert, hbrackets⟩ := Token.scan_overt hsource hscan
  exact (WellBracketed.congr_brackets hbrackets).1 (wellBracketed_tokensOf hmatched hovert)

end Tree

end Fakery
