import Fakery.Proofs.Yaml.Parts

/-!
# What a document needs

A document needs its root, and what the steps of a collection that it needs name.  The check
goes through all of that level by level and stops at the first fault.  So a document that
passes has a value at every node that it needs, and a fault that is found is that of such a
node.
-/

namespace Fakery.Yaml

namespace Document

/-- What has to be done to build a document. -/
inductive Needs (document : Document) : Step → Prop
  | root : Needs document (.build document.root false)
  | inside {node : Node} {isKey : Bool} {step : Step} (hneeds : Needs document (.build node isKey))
      (hcollection : (document.bare node).isCollection = true)
      (hstep : step ∈ document.steps (document.bare node)) : Needs document step

/-- A step that has been done: the node has a value, and is no collection if it is a key. -/
def Done (document : Document) : Step → Prop
  | .refuse => False
  | .build node isKey => (∃ value, document.value node = .ok value) ∧
      (isKey = true → (document.bare node).isCollection = false)

/-- A step that fails with a fault. -/
def Fails (document : Document) (fault : Fault) : Step → Prop
  | .refuse => fault = .malformed
  | .build node isKey => document.fault? (document.bare node) isKey = some fault ∨
      (isKey = true ∧ (document.bare node).isCollection = true ∧ fault = .malformed)

variable {document : Document}

/-! ## One level -/

@[simp]
theorem coreTag_inj {name other : String} : coreTag name = coreTag other ↔ name = other :=
  String.append_right_inj _

@[simp]
theorem coreTag_beq (name other : String) : (coreTag name == coreTag other) = (name == other) := by
  rw [Bool.eq_iff_iff, beq_iff_eq, beq_iff_eq, coreTag_inj]

/-- A lone `=` has no value of its own. -/
theorem valueOf_of_default {node : Node} (h : node.tag = coreTag "value") :
    document.valueOf node = .error .malformed := by
  simp [valueOf, readers, List.lookup_cons, Node.isCollection, Node.collectionTags, h]

theorem fault?_eq_none {node : Node} {isKey : Bool} (h : document.fault? node isKey = none) :
    ∃ value, document.keyOf node = .ok value := by
  unfold fault? at h
  cases isKey with
  | true =>
      cases hkey : document.keyOf node with
      | error fault => simp [hkey] at h
      | ok value => exact ⟨value, rfl⟩
  | false =>
      cases hvalue : document.valueOf node with
      | error fault => simp [hvalue] at h
      | ok value =>
          refine ⟨value, ?_⟩
          rw [keyOf, if_neg, hvalue]
          intro htag
          rw [valueOf_of_default (by simpa using htag)] at hvalue
          cases hvalue

/-- What steps do without a fault: a node that is kept is left alone, and any other is built,
kept and, if it is a collection, put behind the others. -/
inductive Takes (document : Document) : List Step → List Named → List Named → List Node → Prop
  | nil {built : List Named} : Takes document [] built built []
  | known {node : Node} {isKey : Bool} {rest : List Step} {built later : List Named}
      {more : List Node} (hkey : isKey = true → (document.bare node).isCollection = false)
      (hknown : document.resolve node ∈ built) (hrest : Takes document rest built later more) :
      Takes document (.build node isKey :: rest) built later more
  | passed {node : Node} {isKey : Bool} {rest : List Step} {built later : List Named}
      {more : List Node} (hpassed : isKept (document.resolve node) = false)
      (hfault : document.fault? (document.bare node) isKey = none)
      (hrest : Takes document rest built later more) :
      Takes document (.build node isKey :: rest) built later more
  | kept {node : Node} {isKey : Bool} {rest : List Step} {built later : List Named}
      {more : List Node} (hkey : isKey = true → (document.bare node).isCollection = false)
      (hnew : document.resolve node ∉ built)
      (hfault : document.fault? (document.bare node) isKey = none)
      (hrest : Takes document rest (document.resolve node :: built) later more) :
      Takes document (.build node isKey :: rest) built later
        (if (document.bare node).isCollection then document.bare node :: more else more)

/-- Steps taken without a fault build what is new and leave the rest alone. -/
theorem takes_of_take {steps : List Step} {built later : List Named} {more : List Node}
    (h : document.take steps built = .ok (later, more)) :
    Takes document steps built later more := by
  induction steps generalizing built more with
  | nil =>
      cases h
      exact .nil
  | cons step rest ih =>
      cases step with
      | refuse => cases h
      | build node isKey =>
          rw [take] at h
          simp only [Bool.and_eq_true, List.contains_iff_mem] at h
          split at h
          · cases h
          · next hkey =>
              have hkey : isKey = true → (document.bare node).isCollection = false := by
                intro hisKey
                simpa [hisKey, bare] using hkey
              split at h
              · next hknown => exact .known hkey hknown.2 (ih h)
              · next hknown =>
                  split at h
                  · cases h
                  · next hfault =>
                      obtain ⟨⟨after, others⟩, hrest, h⟩ := exists_of_bind_ok h
                      cases h
                      by_cases hkept : isKept (document.resolve node) = true
                      · rw [if_pos hkept] at hrest
                        exact .kept hkey (fun hmem => hknown ⟨hkept, hmem⟩) hfault (ih hrest)
                      · rw [if_neg hkept] at hrest
                        have hpassed : isKept (document.resolve node) = false := by
                          simpa using hkept
                        have hscalar := (Bool.or_eq_false_iff.1 hpassed).2
                        simp only [hscalar, Bool.false_eq_true, if_false]
                        exact .passed hpassed hfault (ih hrest)

/-- Steps that are not taken hold one that fails. -/
theorem fails_of_take {steps : List Step} {built : List Named} {fault : Fault}
    (h : document.take steps built = .error fault) :
    ∃ step ∈ steps, document.Fails fault step := by
  induction steps generalizing built with
  | nil => cases h
  | cons step rest ih =>
      have hlater : ∀ {others : List Named}, document.take rest others = .error fault →
          ∃ step' ∈ step :: rest, document.Fails fault step' := by
        intro others hothers
        obtain ⟨failing, hmem, hfails⟩ := ih hothers
        exact ⟨failing, List.mem_cons_of_mem _ hmem, hfails⟩
      cases step with
      | refuse =>
          cases h
          exact ⟨.refuse, List.mem_cons_self, rfl⟩
      | build node isKey =>
          rw [take] at h
          simp only [Bool.and_eq_true, List.contains_iff_mem] at h
          split at h
          · next hkey =>
              cases h
              exact ⟨_, List.mem_cons_self, Or.inr ⟨hkey.1, hkey.2, rfl⟩⟩
          · split at h
            · exact hlater h
            · split at h
              · next hfault =>
                  cases h
                  exact ⟨_, List.mem_cons_self, Or.inl hfault⟩
              · rcases error_of_bind h with h | ⟨result, -, h⟩
                · exact hlater h
                · cases h

/-! ## All levels -/

/-- Everything that is kept has a value. -/
def HasValues (document : Document) (built : List Named) : Prop :=
  ∀ named ∈ built, ∃ value, document.keyOf named.2 = .ok value

/-- Every collection is kept that a step names. -/
def Keeps (document : Document) (built : List Named) : Step → Prop
  | .refuse => True
  | .build node _ => (document.bare node).isCollection = true → document.resolve node ∈ built

theorem Takes.subset {steps : List Step} {built later : List Named} {more : List Node}
    (h : Takes document steps built later more) : built ⊆ later := by
  induction h with
  | nil => exact List.Subset.refl _
  | known _ _ _ ih => exact ih
  | passed _ _ _ ih => exact ih
  | kept _ _ _ _ ih => exact fun named hnamed => ih (List.mem_cons_of_mem _ hnamed)

theorem Takes.hasValues {steps : List Step} {built later : List Named} {more : List Node}
    (h : Takes document steps built later more) (hbuilt : document.HasValues built) :
    document.HasValues later := by
  induction h with
  | nil => exact hbuilt
  | known _ _ _ ih => exact ih hbuilt
  | passed _ _ _ ih => exact ih hbuilt
  | kept _ _ hfault _ ih =>
      exact ih (List.forall_mem_cons.2 ⟨fault?_eq_none hfault, hbuilt⟩)

/-- The steps that are taken are done, and their collections are kept. -/
theorem Takes.done {steps : List Step} {built later : List Named} {more : List Node}
    (h : Takes document steps built later more) (hbuilt : document.HasValues built) :
    ∀ step ∈ steps, document.Done step ∧ document.Keeps later step := by
  induction h with
  | nil => simp
  | known hkey hknown hrest ih =>
      refine List.forall_mem_cons.2 ⟨⟨⟨hbuilt _ hknown, hkey⟩, fun _ => hrest.subset hknown⟩,
        ih hbuilt⟩
  | @passed node _ _ _ _ _ hpassed hfault hrest ih =>
      have hscalar : (document.bare node).isCollection = false :=
        (Bool.or_eq_false_iff.1 hpassed).2
      refine List.forall_mem_cons.2 ⟨⟨⟨fault?_eq_none hfault, fun _ => hscalar⟩, ?_⟩, ih hbuilt⟩
      intro hcollection
      rw [hscalar] at hcollection
      cases hcollection
  | kept hkey _ hfault hrest ih =>
      refine List.forall_mem_cons.2 ⟨⟨⟨fault?_eq_none hfault, hkey⟩, ?_⟩,
        ih (List.forall_mem_cons.2 ⟨fault?_eq_none hfault, hbuilt⟩)⟩
      exact fun _ => hrest.subset List.mem_cons_self

/-- A collection that is kept anew is put behind the others. -/
theorem Takes.mem_more {steps : List Step} {built later : List Named} {more : List Node}
    (h : Takes document steps built later more) :
    ∀ named ∈ later, named.2.isCollection = true → named ∈ built ∨ named.2 ∈ more := by
  induction h with
  | nil => exact fun named hnamed _ => Or.inl hnamed
  | known _ _ _ ih => exact ih
  | passed _ _ _ ih => exact ih
  | @kept node _ _ _ _ more _ _ _ _ ih =>
      intro named hnamed hcollection
      rcases ih named hnamed hcollection with hmem | hmem
      · rcases List.mem_cons.1 hmem with rfl | hmem
        · rw [bare, if_pos hcollection]
          exact Or.inr List.mem_cons_self
        · exact Or.inl hmem
      · right
        split
        · exact List.mem_cons_of_mem _ hmem
        · exact hmem

/-- The steps of a collection are done and their collections are kept. -/
def Built (document : Document) (built : List Named) (node : Node) : Prop :=
  ∀ step ∈ document.steps node, document.Done step ∧ document.Keeps built step

theorem Keeps.mono {built later : List Named} (hsubset : built ⊆ later) {step : Step}
    (h : document.Keeps built step) : document.Keeps later step := by
  cases step with
  | refuse => trivial
  | build node isKey => exact fun hcollection => hsubset (h hcollection)

theorem Built.mono {built later : List Named} (hsubset : built ⊆ later) {node : Node}
    (h : document.Built built node) : document.Built later node :=
  fun step hstep => ⟨(h step hstep).1, (h step hstep).2.mono hsubset⟩

/-- When nothing is pending any more, all collections that are kept are built. -/
theorem built_of_checkFrom {fuel : Nat} {built : List Named} {pending : List Node}
    (h : document.checkFrom fuel built pending = .ok ()) (hvalues : document.HasValues built)
    (hpending : ∀ named ∈ built, named.2.isCollection = true →
      named.2 ∈ pending ∨ document.Built built named.2) :
    ∃ later, built ⊆ later ∧
      ∀ named ∈ later, named.2.isCollection = true → document.Built later named.2 := by
  induction fuel generalizing built pending with
  | zero =>
      cases pending with
      | nil =>
          exact ⟨built, List.Subset.refl _, fun named hnamed hcollection =>
            (hpending named hnamed hcollection).resolve_left (by simp)⟩
      | cons node pending => cases h
  | succ fuel ih =>
      cases pending with
      | nil =>
          exact ⟨built, List.Subset.refl _, fun named hnamed hcollection =>
            (hpending named hnamed hcollection).resolve_left (by simp)⟩
      | cons node pending =>
          obtain ⟨⟨kept, more⟩, htake, h⟩ := exists_of_bind_ok h
          have htakes := takes_of_take htake
          have hnode : document.Built kept node := htakes.done hvalues
          obtain ⟨later, hsubset, hlater⟩ := ih h (htakes.hasValues hvalues) (by
            intro named hnamed hcollection
            rcases htakes.mem_more named hnamed hcollection with hmem | hmem
            · rcases hpending named hmem hcollection with hmem | hbuilt
              · rcases List.mem_cons.1 hmem with heq | hmem
                · exact Or.inr (heq ▸ hnode)
                · exact Or.inl (List.mem_append_left _ hmem)
              · exact Or.inr (hbuilt.mono htakes.subset)
            · exact Or.inl (List.mem_append_right _ hmem))
          exact ⟨later, List.Subset.trans htakes.subset hsubset, hlater⟩

/-- In a document that passes the check, all that it needs is done. -/
theorem done_of_check (h : document.check = .ok ()) {step : Step} (hneeds : document.Needs step) :
    document.Done step := by
  obtain ⟨⟨built, pending⟩, htake, hcheck⟩ := exists_of_bind_ok h
  have htakes := takes_of_take htake
  have hnone : document.HasValues [] := by simp [HasValues]
  obtain ⟨hroot, hkeeps⟩ := htakes.done hnone _ List.mem_cons_self
  obtain ⟨later, hsubset, hlater⟩ := built_of_checkFrom hcheck (htakes.hasValues hnone) (by
    intro named hnamed hcollection
    exact Or.inl ((htakes.mem_more named hnamed hcollection).resolve_left (by simp)))
  have hall : document.Done step ∧ document.Keeps later step := by
    induction hneeds with
    | root => exact ⟨hroot, hkeeps.mono hsubset⟩
    | inside _ hcollection hstep ih => exact hlater _ (ih.2 hcollection) hcollection _ hstep
  exact hall.1

/-! ## Faults -/

section Faults

variable {root : Node}

/-- The nodes that are not kept yet. -/
def unbuilt (document : Document) (built : List Named) : List Named :=
  (document.root.parts.map document.resolve).filter fun named => !built.contains named

theorem length_unbuilt_cons {built : List Named} {node : Node} (hnode : node ∈ document.root.parts)
    (hnew : document.resolve node ∉ built) :
    (document.unbuilt (document.resolve node :: built)).length <
      (document.unbuilt built).length := by
  have hfilter : document.unbuilt (document.resolve node :: built) =
      (document.unbuilt built).filter fun named => !(named == document.resolve node) := by
    rw [unbuilt, unbuilt, List.filter_filter]
    refine List.filter_congr fun named _ => ?_
    rw [List.contains_cons, Bool.not_or]
  rw [hfilter, List.length_filter_lt_length_iff_exists]
  refine ⟨document.resolve node, List.mem_filter.2 ⟨List.mem_map_of_mem hnode, ?_⟩, by simp⟩
  simpa using hnew

/-- Each collection that is put behind the others takes the place of a node not kept before. -/
theorem Takes.length_more {steps : List Step} {built later : List Named} {more : List Node}
    (h : Takes document steps built later more)
    (hsteps : ∀ node isKey, .build node isKey ∈ steps → node ∈ document.root.parts) :
    (document.unbuilt later).length + more.length ≤ (document.unbuilt built).length := by
  induction h with
  | nil => simp
  | known _ _ _ ih =>
      exact ih fun node isKey hstep => hsteps node isKey (List.mem_cons_of_mem _ hstep)
  | passed _ _ _ ih =>
      exact ih fun node isKey hstep => hsteps node isKey (List.mem_cons_of_mem _ hstep)
  | kept _ hnew _ _ ih =>
      have hrest := ih fun node isKey hstep => hsteps node isKey (List.mem_cons_of_mem _ hstep)
      have hfewer := length_unbuilt_cons (hsteps _ _ List.mem_cons_self) hnew
      split
      · rw [List.length_cons]
        omega
      · omega

/-- What is put behind the others are collections that the steps name. -/
theorem Takes.exists_of_mem_more {steps : List Step} {built later : List Named}
    {more : List Node} (h : Takes document steps built later more) :
    ∀ pending ∈ more, ∃ node isKey, .build node isKey ∈ steps ∧ document.bare node = pending ∧
      pending.isCollection = true := by
  have hlater : ∀ {step : Step} {rest : List Step} {pending : Node},
      (∃ node isKey, .build node isKey ∈ rest ∧ document.bare node = pending ∧
        pending.isCollection = true) →
      ∃ node isKey, .build node isKey ∈ step :: rest ∧ document.bare node = pending ∧
        pending.isCollection = true := by
    rintro step rest pending ⟨node, isKey, hstep, hpending⟩
    exact ⟨node, isKey, List.mem_cons_of_mem _ hstep, hpending⟩
  induction h with
  | nil => simp
  | known _ _ _ ih => exact fun pending hpending => hlater (ih pending hpending)
  | passed _ _ _ ih => exact fun pending hpending => hlater (ih pending hpending)
  | @kept node isKey _ _ _ more _ _ _ _ ih =>
      intro pending hpending
      split at hpending
      · next hcollection =>
          rcases List.mem_cons.1 hpending with rfl | hpending
          · exact ⟨node, isKey, List.mem_cons_self, rfl, hcollection⟩
          · exact hlater (ih pending hpending)
      · exact hlater (ih pending hpending)

theorem Needs.mem_parts {node : Node} {isKey : Bool}
    (h : (ofRoot root).Needs (.build node isKey)) : node ∈ root.parts := by
  generalize hstep : Step.build node isKey = step at h
  induction h generalizing node isKey with
  | root =>
      cases hstep
      exact root.mem_parts_self
  | inside _ _ hinside ih =>
      subst hstep
      exact mem_parts_of_steps (holds_bare (ih rfl)) hinside

/-- A check that fails has met a step that fails. -/
theorem fails_of_checkFrom {fuel : Nat} {built : List Named} {pending : List Node} {fault : Fault}
    (h : (ofRoot root).checkFrom fuel built pending = .error fault)
    (hfuel : ((ofRoot root).unbuilt built).length + pending.length ≤ fuel)
    (hpending : ∀ next ∈ pending, ∃ node isKey, (ofRoot root).Needs (.build node isKey) ∧
      (ofRoot root).bare node = next ∧ next.isCollection = true) :
    ∃ step, (ofRoot root).Needs step ∧ (ofRoot root).Fails fault step := by
  induction fuel generalizing built pending with
  | zero =>
      cases pending with
      | nil => cases h
      | cons next pending => simp at hfuel
  | succ fuel ih =>
      cases pending with
      | nil => cases h
      | cons next pending =>
          obtain ⟨⟨node, isKey, hneeds, rfl, hcollection⟩, hothers⟩ :=
            List.forall_mem_cons.1 hpending
          rcases error_of_bind h with h | ⟨⟨later, more⟩, htake, h⟩
          · obtain ⟨step, hstep, hfails⟩ := fails_of_take h
            exact ⟨step, .inside hneeds hcollection hstep, hfails⟩
          · have htakes := takes_of_take htake
            have hlength := htakes.length_more fun inner isKey hstep =>
              mem_parts_of_steps (holds_bare hneeds.mem_parts) hstep
            refine ih h ?_ ?_
            · rw [List.length_cons] at hfuel
              rw [List.length_append]
              omega
            · refine List.forall_mem_append.2 ⟨hothers, fun next hnext => ?_⟩
              obtain ⟨inner, isKey, hstep, hbare⟩ := htakes.exists_of_mem_more next hnext
              exact ⟨inner, isKey, .inside hneeds hcollection hstep, hbare⟩

/-- A fault that the check finds is that of something the document needs. -/
theorem fails_of_check {fault : Fault} (h : (ofRoot root).check = .error fault) :
    ∃ step, (ofRoot root).Needs step ∧ (ofRoot root).Fails fault step := by
  rcases error_of_bind h with h | ⟨⟨built, pending⟩, htake, h⟩
  · obtain ⟨step, hstep, hfails⟩ := fails_of_take h
    obtain rfl := List.mem_singleton.1 hstep
    exact ⟨_, .root, hfails⟩
  · have htakes := takes_of_take htake
    refine fails_of_checkFrom h ?_ ?_
    · have hlength := htakes.length_more (by
        intro node isKey hstep
        cases List.mem_singleton.1 hstep
        exact root.mem_parts_self)
      have hall : ((ofRoot root).unbuilt []).length ≤ root.size := by
        rw [← root.length_parts, ← List.length_map (ofRoot root).resolve]
        exact List.length_filter_le _ _
      have hfuel : (ofRoot root).fuel = root.size + 1 := rfl
      omega
    · intro next hnext
      obtain ⟨node, isKey, hstep, hbare⟩ := htakes.exists_of_mem_more next hnext
      cases List.mem_singleton.1 hstep
      exact ⟨_, _, .root, hbare⟩

end Faults

end Document

end Fakery.Yaml
