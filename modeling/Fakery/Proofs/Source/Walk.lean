import Fakery.Proofs.Source.Laminar

/-!
# The order of a walk

A walk meets the declarations of a file from front to back, each before what is
nested in it: a declaration that comes later stands behind, or inside a nested type.
-/

namespace Fakery

namespace TypeDecl

/-- The whole of one declaration lies inside another, which may be the same. -/
def Within (inner outer : TypeDecl) : Prop :=
  outer.header.start ≤ inner.header.start ∧ inner.header.bodyEnd ≤ outer.header.bodyEnd

/-- A declaration stands behind another, or inside a type nested in it. -/
def Leads (decl later : TypeDecl) : Prop :=
  decl.header.bodyEnd < later.header.start ∨
    ∃ inner : TypeDecl, inner.toMember ∈ decl.members ++ decl.conditional ∧ later.Within inner

def InOrder (decls : List TypeDecl) : Prop :=
  decls.Pairwise fun a b => a.header.bodyEnd < b.header.start

theorem Within.refl (decl : TypeDecl) : decl.Within decl :=
  ⟨Nat.le_refl _, Nat.le_refl _⟩

theorem Within.trans {a b c : TypeDecl} (hab : a.Within b) (hbc : b.Within c) : a.Within c :=
  ⟨hbc.1.trans hab.1, hab.2.trans hbc.2⟩

theorem typeDecl?_toMember (decl : TypeDecl) : decl.toMember.typeDecl? = some decl := rfl

theorem mem_nested {decl inner : TypeDecl} :
    inner ∈ decl.nested ↔ inner.toMember ∈ decl.members ++ decl.conditional := by
  rw [nested, List.mem_filterMap]
  constructor
  · rintro ⟨m, hm, hinner⟩
    rw [← eq_toMember_of_typeDecl? hinner]
    exact List.mem_mergeSort.1 hm
  · intro hinner
    exact ⟨_, List.mem_mergeSort.2 hinner, typeDecl?_toMember inner⟩

theorem start_lt_bodyEnd {source : List Char} {decl : TypeDecl}
    (h : decl.toMember.Stands source) : decl.header.start < decl.header.bodyEnd := by
  have hlaminar := laminar_of_stands h
  have hkeyword := hlaminar.start_le_keyword
  have hbody := hlaminar.keyword_lt_body
  have hend := hlaminar.bodyStart_lt_bodyEnd
  omega

/-- Declarations that lie apart and are sorted by their start are in order. -/
theorem inOrder_of_sorted {decls : List TypeDecl}
    (hspan : ∀ decl ∈ decls, decl.header.start ≤ decl.header.bodyEnd)
    (hapart : decls.Pairwise fun a b => a.toMember.Apart b.toMember)
    (hsorted : decls.Pairwise fun a b => a.header.start ≤ b.header.start) : InOrder decls := by
  refine (hapart.and hsorted).imp_of_mem fun {a b} ha hb ⟨hab, hle⟩ => ?_
  have hbounds := hspan b hb
  rcases hab with hab | hba
  · exact hab
  · have hba : b.header.bodyEnd + 1 ≤ a.header.start := hba
    omega

theorem pairwise_mergeSort_key {α : Type} (key : α → Nat) (items : List α) :
    (items.mergeSort fun a b => decide (key a ≤ key b)).Pairwise fun a b => key a ≤ key b := by
  have hsorted := @List.pairwise_mergeSort _ (fun a b => decide (key a ≤ key b))
    (fun a b c => by simpa using Nat.le_trans) (fun a b => by simpa using Nat.le_total ..) items
  exact hsorted.imp fun hab => of_decide_eq_true hab

/-- The nested types are the types among all members, by the offsets they start at. -/
theorem nested_spec (decl : TypeDecl) :
    decl.nested.Perm ((decl.members ++ decl.conditional).filterMap Member.typeDecl?) ∧
      decl.nested.Pairwise fun a b => a.header.start ≤ b.header.start := by
  constructor
  · exact (List.mergeSort_perm _ _).filterMap _
  · rw [nested, List.pairwise_filterMap]
    refine (pairwise_mergeSort_key Member.start _).imp fun {a b} hab left hleft right hright => ?_
    rw [eq_toMember_of_typeDecl? hleft, eq_toMember_of_typeDecl? hright] at hab
    exact hab

/-- The nested types are in order if the types among all members lie apart. -/
theorem nested_inOrder {decl : TypeDecl}
    (hspan : ∀ inner ∈ decl.nested, inner.header.start ≤ inner.header.bodyEnd)
    (hapart : ((decl.members ++ decl.conditional).filterMap Member.typeDecl?).Pairwise
      fun a b => a.toMember.Apart b.toMember) : InOrder decl.nested := by
  obtain ⟨hperm, hsorted⟩ := nested_spec decl
  have hsymm : ∀ {a b : TypeDecl}, a.toMember.Apart b.toMember → b.toMember.Apart a.toMember :=
    fun hab => Or.symm hab
  exact inOrder_of_sorted hspan ((hperm.pairwise_iff hsymm).2 hapart) hsorted

theorem nested_inOrder_of_stands {source : List Char} {decl : TypeDecl}
    (h : decl.toMember.Stands source) : InOrder decl.nested := by
  refine nested_inOrder (fun inner hinner => ?_) (types_apart (laminar_of_stands h).members_apart)
  exact (start_lt_bodyEnd (stands_of_nested h (mem_nested.1 hinner))).le

/-- What is nested in a declaration lies inside it. -/
theorem within_of_nested {source : List Char} {decl inner : TypeDecl}
    (h : decl.toMember.Stands source) (hinner : inner ∈ decl.nested) :
    decl.header.bodyStart < inner.header.start ∧ inner.header.bodyEnd < decl.header.bodyEnd := by
  obtain ⟨hstart, -, hstop⟩ := (laminar_of_stands h).members_between_braces _ (mem_nested.1 hinner)
  exact ⟨hstart, hstop⟩

end TypeDecl

open TypeDecl

section Walk

variable {source : List Char} {decls : List TypeDecl}

/-- What replaces the first pending declaration in a walk stands in order as well. -/
theorem inOrder_step {decl : TypeDecl} {pending : List TypeDecl}
    (hstands : ∀ d ∈ decl :: pending, d.toMember.Stands source)
    (horder : InOrder (decl :: pending)) : InOrder (decl.nested ++ pending) := by
  have hdecl := hstands decl (List.mem_cons_self ..)
  obtain ⟨hbehind, horder⟩ := List.pairwise_cons.1 horder
  refine List.pairwise_append.2 ⟨nested_inOrder_of_stands hdecl, horder,
    fun inner hinner later hlater => ?_⟩
  exact (within_of_nested hdecl hinner).2.trans (hbehind later hlater)

theorem stands_step {decl : TypeDecl} {pending : List TypeDecl}
    (hstands : ∀ d ∈ decl :: pending, d.toMember.Stands source) :
    ∀ d ∈ decl.nested ++ pending, d.toMember.Stands source := by
  intro d hd
  rcases List.mem_append.1 hd with hd | hd
  · exact stands_of_nested (hstands decl (List.mem_cons_self ..)) (mem_nested.1 hd)
  · exact hstands d (List.mem_cons_of_mem _ hd)

/-- Every declaration of a walk lies inside a pending one. -/
theorem exists_within_of_mem_walkFrom {steps : Nat} {pending : List TypeDecl} {later : TypeDecl}
    (hstands : ∀ d ∈ pending, d.toMember.Stands source) (hlater : later ∈ walkFrom steps pending) :
    ∃ d ∈ pending, later.Within d := by
  induction steps generalizing pending with
  | zero => simp [walkFrom] at hlater
  | succ steps ih =>
      cases pending with
      | nil => simp [walkFrom] at hlater
      | cons decl pending =>
          rcases List.mem_cons.1 hlater with rfl | hlater
          · exact ⟨later, List.mem_cons_self .., Within.refl later⟩
          · obtain ⟨d, hd, hwithin⟩ := ih (stands_step hstands) hlater
            rcases List.mem_append.1 hd with hd | hd
            · have hdecl := hstands decl (List.mem_cons_self ..)
              have hlaminar := laminar_of_stands hdecl
              obtain ⟨hstart, hend⟩ := within_of_nested hdecl hd
              have hkeyword := hlaminar.start_le_keyword
              have hbody := hlaminar.keyword_lt_body
              exact ⟨decl, List.mem_cons_self .., hwithin.trans ⟨by omega, hend.le⟩⟩
            · exact ⟨d, List.mem_cons_of_mem _ hd, hwithin⟩

/-- A walk through declarations that stand in order visits them in order. -/
theorem walkFrom_leads {steps : Nat} {pending : List TypeDecl}
    (hstands : ∀ d ∈ pending, d.toMember.Stands source) (horder : InOrder pending) :
    (walkFrom steps pending).Pairwise Leads := by
  induction steps generalizing pending with
  | zero => exact List.Pairwise.nil
  | succ steps ih =>
      cases pending with
      | nil => exact List.Pairwise.nil
      | cons decl pending =>
          refine List.pairwise_cons.2 ⟨fun later hlater => ?_,
            ih (stands_step hstands) (inOrder_step hstands horder)⟩
          obtain ⟨d, hd, hwithin⟩ := exists_within_of_mem_walkFrom (stands_step hstands) hlater
          rcases List.mem_append.1 hd with hd | hd
          · exact Or.inr ⟨d, mem_nested.1 hd, hwithin⟩
          · exact Or.inl (((List.pairwise_cons.1 horder).1 d hd).trans_le hwithin.1)

/-- Whatever a walk visits occurs among the declarations. -/
theorem occurs_of_mem_walkFrom {steps : Nat} {pending : List TypeDecl} {later : TypeDecl}
    (hpending : ∀ d ∈ pending, Occurs decls d) (hlater : later ∈ walkFrom steps pending) :
    Occurs decls later := by
  induction steps generalizing pending with
  | zero => simp [walkFrom] at hlater
  | succ steps ih =>
      cases pending with
      | nil => simp [walkFrom] at hlater
      | cons decl pending =>
          have hdecl := hpending decl (List.mem_cons_self ..)
          rcases List.mem_cons.1 hlater with rfl | hlater
          · exact hdecl
          · refine ih (fun d hd => ?_) hlater
            rcases List.mem_append.1 hd with hd | hd
            · exact Occurs.nested hdecl (mem_nested.1 hd)
            · exact hpending d (List.mem_cons_of_mem _ hd)

end Walk

/-- The declarations at the top of a file are in order. -/
theorem parse_inOrder {language : Language} {source : List Char} {decls : List TypeDecl}
    (hfaithful : language.Faithful source) (h : parse language source = .ok decls) :
    InOrder decls := by
  obtain ⟨hstands, hapart⟩ := parse_stands hfaithful h
  refine inOrder_of_sorted (fun decl hdecl => (start_lt_bodyEnd (hstands decl hdecl)).le) hapart ?_
  obtain ⟨-, items, -, rfl⟩ := parse_eq_ok.1 h
  exact pairwise_mergeSort_key (fun decl : TypeDecl => decl.header.start) _

/-- A walk over a file meets its declarations, each where it stands, from front to back. -/
theorem walk_leads {language : Language} {source : List Char} {decls : List TypeDecl}
    (hfaithful : language.Faithful source) (h : parse language source = .ok decls) :
    (∀ decl ∈ walk decls, decl.toMember.Stands source) ∧ (walk decls).Pairwise Leads := by
  obtain ⟨hstands, -⟩ := parse_stands hfaithful h
  refine ⟨fun decl hdecl => ?_, walkFrom_leads hstands (parse_inOrder hfaithful h)⟩
  exact stands_of_occurs hstands (occurs_of_mem_walkFrom (fun d hd => Occurs.top hd) hdecl)

end Fakery
