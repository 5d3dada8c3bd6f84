import JavaSignatures.Proofs.Nesting
import JavaSignatures.Scope
import Mathlib.Data.List.Chain

set_option autoImplicit false

/-!
# Lexical scoping of type variables

A walk through a file hands the type variables in view down to inner classes and to no other nested
declaration.  A name is looked up in the method, in the declaration around it and then among the
variables that were handed down, the last one first.  `Source.typeVariable?_innermost` says what
this comes to on a chain of declarations, each nested directly in the next one: the name is looked
for from the inside outwards, and no further than a declaration that is no inner class.
-/

namespace JavaSignatures

/-! ## Lists of type variables -/

namespace TypeVariable

/-- The name is the one of a variable in the list. -/
def IsAmong (candidates : List TypeVariable) (name : String) : Prop :=
  ∃ candidate ∈ candidates, candidate.name = name

/-- What has been found is a variable of the list that has the name. -/
def IsFoundIn (candidates : List TypeVariable) (name : String) (found : Option TypeVariable) :
    Prop :=
  ∃ candidate ∈ candidates, candidate.name = name ∧ found = some candidate

variable {candidates : List TypeVariable} {name : String}

theorem find?_eq_none_iff : find? candidates name = none ↔ ¬IsAmong candidates name := by
  simp [find?, IsAmong]

theorem find?_append (first second : List TypeVariable) (name : String) :
    find? (first ++ second) name = (find? first name).or (find? second name) :=
  List.find?_append

theorem isFoundIn_find? (h : IsAmong candidates name) :
    IsFoundIn candidates name (find? candidates name) := by
  cases hfound : find? candidates name with
  | none => exact absurd h (find?_eq_none_iff.mp hfound)
  | some found =>
    exact ⟨found, List.mem_of_find?_eq_some hfound, name_of_find? hfound, rfl⟩

theorem isAmong_iff : IsAmong candidates name ↔ name ∈ candidates.map TypeVariable.name := by
  simp [IsAmong]

theorem find?_reverse_eq_none (h : ¬IsAmong candidates name) :
    find? candidates.reverse name = none := by
  simpa [find?, IsAmong] using h

theorem isFoundIn_find?_reverse (h : IsAmong candidates name) :
    IsFoundIn candidates name (find? candidates.reverse name) := by
  have hreverse : IsAmong candidates.reverse name := by simpa [IsAmong] using h
  simpa [IsFoundIn] using isFoundIn_find? hreverse

/-- Where the first of two lists has a variable of the name, the second one does not count. -/
theorem IsFoundIn.or {found : Option TypeVariable} (h : IsFoundIn candidates name found)
    (other : Option TypeVariable) : IsFoundIn candidates name (found.or other) := by
  obtain ⟨candidate, hmem, hname, rfl⟩ := h
  exact ⟨candidate, hmem, hname, rfl⟩

end TypeVariable

open TypeVariable (IsAmong IsFoundIn find?_eq_none_iff isAmong_iff)

namespace Declaration

variable (declaration : Declaration) (name : String)

theorem typeVariable?_eq_or :
    declaration.typeVariable? name =
      (TypeVariable.find? declaration.typeVariables name).or
        (TypeVariable.find? declaration.enclosingTypeVariables.reverse name) :=
  TypeVariable.find?_append ..

/-- Seen from further inside, the variables of the declaration itself come first. -/
theorem find?_visibleVariables :
    TypeVariable.find? declaration.visibleVariables.reverse name =
      (TypeVariable.find? declaration.typeVariables.reverse name).or
        (TypeVariable.find? declaration.enclosingTypeVariables.reverse name) := by
  rw [visibleVariables, List.reverse_append, TypeVariable.find?_append]

end Declaration

namespace Source

/-! ## Chains of declarations -/

/-- A declaration beside the outline that it is written as. -/
structure Declared where
  outline : Outline
  declaration : Declaration

namespace Declared

/-- What is nested directly in a declaration. -/
def nested (declared : Declared) : List Declared :=
  List.zipWith mk declared.outline.nested declared.declaration.nested

/-- The declaration is written as a class without the keyword `static`; an interface, an enum or a
record is static without saying so. -/
def IsInnerClass (declared : Declared) : Prop :=
  declared.outline.head.kind = .classKind ∧ declared.outline.head.isStatic = false

/-- The declaration has a type variable of the name itself. -/
def Introduces (declared : Declared) (name : String) : Prop :=
  IsAmong declared.declaration.typeVariables name

/-- The declaration is made of its outline. -/
def IsMade (declared : Declared) : Prop := IsMadeOf declared.outline declared.declaration

/-- Each declaration is nested directly in the next one, from the innermost one to the root. -/
def IsChain (root : Declared) (chain : List Declared) : Prop :=
  (chain.IsChain fun inner outer => inner ∈ outer.nested) ∧ chain.getLast? = some root

theorem isInner_iff {declared : Declared} :
    declared.outline.head.isInner = true ↔ declared.IsInnerClass := by
  simp [TypeHead.isInner, IsInnerClass]

variable {root declared outer : Declared} {around : List Declared} {name : String}

/-- One step of the walk: an inner class sees what is in view around it, and no other nested
declaration sees any of it. -/
theorem IsMade.of_mem_nested (hmade : outer.IsMade) (h : declared ∈ outer.nested) :
    declared.IsMade ∧ declared.declaration.enclosingTypeVariables =
      if declared.outline.head.isInner then outer.declaration.visibleVariables else [] := by
  rw [nested, IsMadeOf.nested hmade, List.zipWith_map_right, List.zipWith_self, List.mem_map] at h
  obtain ⟨written, -, rfl⟩ := h
  refine ⟨⟨_, _, rfl⟩, ?_⟩
  cases written
  rfl

theorem IsChain.eq_root (h : IsChain root [declared]) : declared = root := by
  simpa [IsChain] using h

theorem IsChain.mem_nested (h : IsChain root (declared :: outer :: around)) :
    declared ∈ outer.nested :=
  (List.isChain_cons_cons.mp h.1).1

theorem IsChain.tail (h : IsChain root (declared :: outer :: around)) :
    IsChain root (outer :: around) :=
  ⟨(List.isChain_cons_cons.mp h.1).2, by simpa using h.2⟩

theorem IsChain.isMade (hroot : root.IsMade) (h : IsChain root (declared :: around)) :
    declared.IsMade := by
  induction around generalizing declared with
  | nil => exact h.eq_root ▸ hroot
  | cons outer around ih => exact (IsMade.of_mem_nested (ih h.tail) h.mem_nested).1

end Declared

/-! ## What is in view at the inner end of a chain -/

open Declared (IsChain)

section Chain

variable {root declared : Declared} {around : List Declared} {name : String}

/-- An inner class finds around it what the declaration around it shows to the inside. -/
theorem find?_enclosing_of_isInnerClass (hroot : root.IsMade) {outer : Declared}
    (h : IsChain root (declared :: outer :: around)) (hinner : declared.IsInnerClass) :
    TypeVariable.find? declared.declaration.enclosingTypeVariables.reverse name =
      TypeVariable.find? outer.declaration.visibleVariables.reverse name := by
  have hstep := (Declared.IsMade.of_mem_nested (h.tail.isMade hroot) h.mem_nested).2
  rw [hstep, if_pos (Declared.isInner_iff.mpr hinner)]

/-- Any other nested declaration finds nothing around it. -/
theorem find?_enclosing_of_not_isInnerClass (hroot : root.IsMade) {outer : Declared}
    (h : IsChain root (declared :: outer :: around)) (hinner : ¬declared.IsInnerClass) :
    TypeVariable.find? declared.declaration.enclosingTypeVariables.reverse name = none := by
  have hstep := (Declared.IsMade.of_mem_nested (h.tail.isMade hroot) h.mem_nested).2
  rw [hstep, if_neg (mt Declared.isInner_iff.mp hinner)]
  rfl

/-- The name passes outwards through inner classes that do not introduce it, up to the declaration
that does. -/
theorem isFoundIn_visibleVariables (hroot : root.IsMade) {inside outside : List Declared}
    {owner : Declared} (howner : owner.Introduces name)
    (hinside : ∀ between ∈ inside, between.IsInnerClass ∧ ¬between.Introduces name)
    (h : IsChain root (declared :: around))
    (hsplit : declared :: around = inside ++ owner :: outside) :
    IsFoundIn owner.declaration.typeVariables name
      (TypeVariable.find? declared.declaration.visibleVariables.reverse name) := by
  induction inside generalizing declared around with
  | nil =>
    obtain ⟨rfl, -⟩ := List.cons.inj hsplit
    rw [Declaration.find?_visibleVariables]
    exact (TypeVariable.isFoundIn_find?_reverse howner).or _
  | cons first inside ih =>
    obtain ⟨rfl, haround⟩ := List.cons.inj hsplit
    obtain ⟨⟨hinner, hother⟩, hrest⟩ := List.forall_mem_cons.mp hinside
    obtain ⟨outer, more, rfl⟩ := List.exists_cons_of_ne_nil (l := around) (by simp [haround])
    rw [Declaration.find?_visibleVariables, TypeVariable.find?_reverse_eq_none hother,
      Option.none_or, find?_enclosing_of_isInnerClass hroot h hinner]
    exact ih hrest h.tail haround

/-- Nothing is found if no declaration that can be reached through inner classes introduces the
name. -/
theorem find?_visibleVariables_eq_none (hroot : root.IsMade)
    (hempty : root.declaration.enclosingTypeVariables = [])
    (hreached : ∀ inside owner outside, declared :: around = inside ++ owner :: outside →
      (∀ between ∈ inside, between.IsInnerClass) → ¬owner.Introduces name)
    (h : IsChain root (declared :: around)) :
    TypeVariable.find? declared.declaration.visibleVariables.reverse name = none := by
  induction around generalizing declared with
  | nil =>
    have hown := hreached [] declared [] rfl (by simp)
    rw [Declaration.find?_visibleVariables, TypeVariable.find?_reverse_eq_none hown, h.eq_root,
      hempty]
    rfl
  | cons outer around ih =>
    have hown := hreached [] declared (outer :: around) rfl (by simp)
    rw [Declaration.find?_visibleVariables, TypeVariable.find?_reverse_eq_none hown,
      Option.none_or]
    by_cases hinner : declared.IsInnerClass
    · rw [find?_enclosing_of_isInnerClass hroot h hinner]
      refine ih (fun inside owner outside hsplit hinside => ?_) h.tail
      exact hreached (declared :: inside) owner outside (by rw [hsplit, List.cons_append])
        (List.forall_mem_cons.mpr ⟨hinner, hinside⟩)
    · exact find?_enclosing_of_not_isInnerClass hroot h hinner

end Chain

/-- What a name means at a method: a variable of the method if it has one of the name, or else one
of the innermost declaration that has one and that is reached from the method through inner classes
only, or else nothing.  Nothing encloses the declaration that the file is about. -/
theorem typeVariable?_innermost {source : String} {outline : Outline} {root : Declaration}
    (houtline : (SourceFile.ofSource source.toList).main? = some outline)
    (hroot : parse source = .ok root) {declared : Declared} {around : List Declared}
    (hchain : IsChain ⟨outline, root⟩ (declared :: around)) (method : Method) (name : String) :
    let found := (⟨root, declared.declaration, method⟩ : Scope).typeVariable? name
    root.enclosingTypeVariables = [] ∧
      (IsAmong method.typeVariables name → IsFoundIn method.typeVariables name found) ∧
      (¬IsAmong method.typeVariables name →
        (∀ inside owner outside, declared :: around = inside ++ owner :: outside →
          owner.Introduces name →
          (∀ between ∈ inside, between.IsInnerClass ∧ ¬between.Introduces name) →
            IsFoundIn owner.declaration.typeVariables name found) ∧
        ((∀ inside owner outside, declared :: around = inside ++ owner :: outside →
          (∀ between ∈ inside, between.IsInnerClass) → ¬owner.Introduces name) →
            found = none)) := by
  intro found
  obtain ⟨written, hwritten, hmade⟩ := root_eq_ok_iff.mp hroot
  obtain rfl := Option.some.inj (houtline.symm.trans hwritten)
  have hrootMade : Declared.IsMade ⟨outline, root⟩ := ⟨_, _, hmade⟩
  have hempty : root.enclosingTypeVariables = [] := by
    rw [hmade]
    cases outline
    rfl
  have hfound : found = (TypeVariable.find? method.typeVariables name).or
      (declared.declaration.typeVariable? name) := rfl
  refine ⟨hempty, ?_, ?_⟩
  · intro hmethod
    rw [hfound]
    exact (TypeVariable.isFoundIn_find? hmethod).or _
  · intro hmethod
    rw [hfound, find?_eq_none_iff.mpr hmethod, Option.none_or, Declaration.typeVariable?_eq_or]
    constructor
    · intro inside owner outside hsplit howner hinside
      cases inside with
      | nil =>
        obtain ⟨rfl, -⟩ := List.cons.inj hsplit
        exact (TypeVariable.isFoundIn_find? howner).or _
      | cons first inside =>
        obtain ⟨rfl, haround⟩ := List.cons.inj hsplit
        obtain ⟨⟨hinner, hother⟩, hrest⟩ := List.forall_mem_cons.mp hinside
        obtain ⟨outer, more, rfl⟩ := List.exists_cons_of_ne_nil (l := around) (by simp [haround])
        rw [find?_eq_none_iff.mpr hother, Option.none_or,
          find?_enclosing_of_isInnerClass hrootMade hchain hinner]
        exact isFoundIn_visibleVariables hrootMade howner hrest hchain.tail haround
    · intro hreached
      have hown := hreached [] declared around rfl (by simp)
      have hnone := find?_visibleVariables_eq_none hrootMade hempty hreached hchain
      rw [Declaration.find?_visibleVariables, Option.or_eq_none_iff] at hnone
      rw [find?_eq_none_iff.mpr hown, hnone.2]
      rfl

/-- A class with an inner class that takes over one of its names, and a static one. -/
def scopingSource : String :=
  "class A<T, U extends T> { class B<T> { void m(T t, U u); } static class C { void n(U u); } }"

/-- The inner class has the name from itself or from around it, the static class has it from
nowhere. -/
theorem typeVariable?_scopingSource :
    ∃ outline root inner static, (SourceFile.ofSource scopingSource.toList).main? = some outline ∧
      parse scopingSource = .ok root ∧
      IsChain ⟨outline, root⟩ [inner, ⟨outline, root⟩] ∧
      IsChain ⟨outline, root⟩ [static, ⟨outline, root⟩] ∧
      IsFoundIn inner.declaration.typeVariables "T"
        ((⟨root, inner.declaration, default⟩ : Scope).typeVariable? "T") ∧
      IsFoundIn root.typeVariables "U"
        ((⟨root, inner.declaration, default⟩ : Scope).typeVariable? "U") ∧
      (⟨root, static.declaration, default⟩ : Scope).typeVariable? "U" = none := by
  let start : Context := { imports := (SourceFile.ofSource scopingSource.toList).importScope }
  -- what the theorem asks of the declarations is read off the outline
  have hshape : (SourceFile.ofSource scopingSource.toList).main?.map (fun outline =>
      ((outline.declare start none).typeVariables.map TypeVariable.name,
        (Declared.nested ⟨outline, outline.declare start none⟩).map fun declared =>
          (declared.outline.head.kind, declared.outline.head.isStatic,
            declared.declaration.typeVariables.map TypeVariable.name))) =
      some (["T", "U"], [(.classKind, false, ["T"]), (.classKind, true, [])]) := by
    decide +kernel
  obtain ⟨outline, houtline, hparts⟩ := Option.map_eq_some_iff.mp hshape
  obtain ⟨hvariables, hnested⟩ := Prod.mk.inj hparts
  obtain ⟨inner, more, hlist, hclass, hmore⟩ := List.map_eq_cons_iff.mp hnested
  obtain ⟨static, rest, rfl, hother, -⟩ := List.map_eq_cons_iff.mp hmore
  simp only [Prod.mk.injEq] at hclass hother
  let root := outline.declare start none
  have hparse : parse scopingSource = .ok root := root_eq_ok_iff.mpr ⟨outline, houtline, rfl⟩
  have hchain : ∀ declared ∈ Declared.nested ⟨outline, root⟩,
      IsChain ⟨outline, root⟩ [declared, ⟨outline, root⟩] := fun declared hdeclared =>
    ⟨List.isChain_cons_cons.mpr ⟨hdeclared, .singleton _⟩, rfl⟩
  have hinnerChain := hchain inner (by rw [hlist]; simp)
  have hstaticChain := hchain static (by rw [hlist]; simp)
  have hT : inner.Introduces "T" := by
    rw [Declared.Introduces, isAmong_iff, hclass.2.2]
    decide
  have hU : Declared.Introduces ⟨outline, root⟩ "U" := by
    rw [Declared.Introduces, isAmong_iff, hvariables]
    decide
  have hinnerU : inner.IsInnerClass ∧ ¬inner.Introduces "U" := by
    rw [Declared.Introduces, isAmong_iff, hclass.2.2]
    exact ⟨⟨hclass.1, hclass.2.1⟩, by decide⟩
  have hstaticU : ¬static.IsInnerClass ∧ ¬static.Introduces "U" := by
    rw [Declared.Introduces, isAmong_iff, hother.2.2]
    exact ⟨fun h => absurd (hother.2.1.symm.trans h.2) (by decide), by decide⟩
  have hmethod : ∀ name, ¬IsAmong (default : Method).typeVariables name := by
    intro name
    rintro ⟨candidate, hcandidate, -⟩
    exact absurd hcandidate (List.not_mem_nil)
  have inInner := fun name =>
    ((typeVariable?_innermost houtline hparse hinnerChain default name).2.2 (hmethod name)).1
  have inStatic :=
    ((typeVariable?_innermost houtline hparse hstaticChain default "U").2.2 (hmethod "U")).2
  refine ⟨outline, root, inner, static, houtline, hparse, hinnerChain, hstaticChain, ?_, ?_, ?_⟩
  · exact inInner "T" [] inner [⟨outline, root⟩] rfl hT (by simp)
  · exact inInner "U" [inner] ⟨outline, root⟩ [] rfl hU (by simpa using hinnerU)
  · refine inStatic fun inside owner outside hsplit hinside => ?_
    cases inside with
    | nil =>
      obtain ⟨rfl, -⟩ := List.cons.inj hsplit
      exact hstaticU.2
    | cons first inside =>
      obtain ⟨rfl, -⟩ := List.cons.inj hsplit
      exact absurd (hinside static (List.mem_cons_self ..)) hstaticU.1

end Source

end JavaSignatures
