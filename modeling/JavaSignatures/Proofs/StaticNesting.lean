import JavaSignatures.Proofs.BoundNames

set_option autoImplicit false

/-!
# Static declarations and the type variables around them

A static declaration has nothing to do with the type variables of the declarations around it.
Whether a nested declaration sees them is decided by its own keywords and kind alone, so a class in
the body of an interface, which is static without saying so, is taken for an inner class and sees
the variables of the interface (`Source.exists_static_sees_variables`).  This is the only exception:
`Source.enclosingTypeVariables_of_isStatic` says exactly what a static declaration sees, and that no
name that is introduced neither there nor inside of it is a type variable to any method, type or
bound inside.
-/

namespace JavaSignatures.Source

open TypeVariable (IsAmong isAmong_iff)

namespace Declared

variable {root declared outer within : Declared} {around between : List Declared}

/-- The declaration is static where it is nested: by the keyword, by its kind, or because the body
that it stands in is the one of an interface. -/
def IsStaticIn (declared outer : Declared) : Prop :=
  declared.outline.head.isStatic = true ∨ declared.outline.head.kind ≠ .classKind ∨
    outer.outline.head.kind = .interfaceKind

theorem IsStaticIn.kind_of_isInnerClass (h : declared.IsStaticIn outer)
    (hinner : declared.IsInnerClass) : outer.outline.head.kind = .interfaceKind := by
  obtain ⟨hclass, hkeyword⟩ := hinner
  rcases h with hstatic | hkind | hinterface
  · exact absurd (hstatic.symm.trans hkeyword) (by simp)
  · exact absurd hclass hkind
  · exact hinterface

theorem mem_nested_declaration (h : declared ∈ outer.nested) :
    declared.declaration ∈ outer.declaration.nested := by
  rw [nested, List.mem_iff_getElem] at h
  obtain ⟨i, hi, rfl⟩ := h
  rw [List.getElem_zipWith]
  exact List.getElem_mem _

theorem IsChain.reflTransGen (h : IsChain root (declared :: around)) :
    Relation.ReflTransGen (fun outer inner => inner ∈ outer.nested) root.declaration
      declared.declaration := by
  induction around generalizing declared with
  | nil => exact h.eq_root ▸ .refl
  | cons outer around ih => exact (ih h.tail).tail (mem_nested_declaration h.mem_nested)

/-- An interface sees nothing from around it, wherever it stands. -/
theorem IsChain.enclosing_of_interface (hroot : root.IsMade)
    (hempty : root.declaration.enclosingTypeVariables = []) (h : IsChain root (outer :: around))
    (hkind : outer.outline.head.kind = .interfaceKind) :
    outer.declaration.enclosingTypeVariables = [] := by
  cases around with
  | nil => rw [h.eq_root, hempty]
  | cons next around =>
    have hinner : outer.outline.head.isInner = false := by simp [TypeHead.isInner, hkind]
    have hstep := (IsMade.of_mem_nested (h.tail.isMade hroot) h.mem_nested).2
    rwa [hinner, if_neg Bool.false_ne_true] at hstep

/-- A static declaration sees the variables of the interface that it is a class in, and otherwise
nothing. -/
theorem IsChain.enclosing_of_isStaticIn (hroot : root.IsMade)
    (hempty : root.declaration.enclosingTypeVariables = [])
    (h : IsChain root (declared :: outer :: around)) (hstatic : declared.IsStaticIn outer) :
    (declared.IsInnerClass →
      declared.declaration.enclosingTypeVariables = outer.declaration.typeVariables) ∧
    (¬declared.IsInnerClass → declared.declaration.enclosingTypeVariables = []) := by
  have hstep := (IsMade.of_mem_nested (h.tail.isMade hroot) h.mem_nested).2
  constructor
  · intro hinner
    have hkind := hstatic.kind_of_isInnerClass hinner
    have houter := IsChain.enclosing_of_interface hroot hempty h.tail hkind
    rw [hstep, if_pos (isInner_iff.mpr hinner), Declaration.visibleVariables, houter,
      List.nil_append]
  · intro hinner
    rw [hstep, if_neg (mt isInner_iff.mp hinner)]

/-- What is in view inside of a declaration comes from around it or from what lies between. -/
theorem IsChain.mem_visibleVariables (hmade : declared.IsMade)
    (h : IsChain declared (within :: between)) {candidate : TypeVariable}
    (hcandidate : candidate ∈ within.declaration.visibleVariables) :
    candidate ∈ declared.declaration.enclosingTypeVariables ∨
      ∃ owner ∈ within :: between, candidate ∈ owner.declaration.typeVariables := by
  induction between generalizing within with
  | nil =>
    obtain rfl := h.eq_root
    rcases List.mem_append.mp hcandidate with houtside | hown
    · exact .inl houtside
    · exact .inr ⟨within, List.mem_cons_self .., hown⟩
  | cons outer between ih =>
    rcases List.mem_append.mp hcandidate with houtside | hown
    · have hstep := (IsMade.of_mem_nested (h.tail.isMade hmade) h.mem_nested).2
      rw [hstep] at houtside
      split at houtside
      · rcases ih h.tail houtside with hleft | ⟨owner, howner, hmem⟩
        · exact .inl hleft
        · exact .inr ⟨owner, List.mem_cons_of_mem _ howner, hmem⟩
      · exact absurd houtside List.not_mem_nil
    · exact .inr ⟨within, List.mem_cons_self .., hown⟩

/-- A name that nothing between introduces and that does not come in from around is not in view. -/
theorem IsChain.not_isAmong_visibleVariables (hmade : declared.IsMade)
    (h : IsChain declared (within :: between)) {name : String}
    (houtside : ¬IsAmong declared.declaration.enclosingTypeVariables name)
    (hbetween : ∀ owner ∈ within :: between, ¬owner.Introduces name) :
    ¬IsAmong within.declaration.visibleVariables name := by
  rintro ⟨candidate, hcandidate, hname⟩
  rcases h.mem_visibleVariables hmade hcandidate with hmem | ⟨owner, howner, hmem⟩
  · exact houtside ⟨candidate, hmem, hname⟩
  · exact hbetween owner howner ⟨candidate, hmem, hname⟩

end Declared

open Declared (IsChain)

/-- A name that is not in view is qualified as if no type variable were. -/
theorem IsQualified.of_not_visible {context : Context} {type : TypeRef}
    (h : IsQualified context type) (hvisible : ¬IsAmong context.visible type.name) :
    IsQualified ⟨context.imports, []⟩ type := by
  rcases h with hname | hforeign
  · have hany := Bool.eq_false_iff.mpr (mt any_visible_iff.mp hvisible)
    refine .inl (hname.trans ?_)
    rw [qualify_of_not_visible hany, qualify_of_not_visible rfl]
  · exact .inr hforeign

theorem not_isAmong_append {first second : List TypeVariable} {name : String} :
    ¬IsAmong (first ++ second) name ↔ ¬IsAmong first name ∧ ¬IsAmong second name := by
  simp [isAmong_iff]

/-- A static declaration sees type variables from around it only if it is a class, without the
keyword, in the body of an interface that has some, and then it sees those of the interface.  Any
other name is a type variable to what is inside, at any depth, only if it is introduced there: for
no method is it one where signatures are written, and all types and bounds that have it are
qualified as if there were no type variables. -/
theorem enclosingTypeVariables_of_isStatic {source : String} {outline : Outline}
    {root : Declaration} (houtline : (SourceFile.ofSource source.toList).main? = some outline)
    (hroot : parse source = .ok root) {declared outer : Declared} {around : List Declared}
    (hchain : IsChain ⟨outline, root⟩ (declared :: outer :: around))
    (hstatic : declared.IsStaticIn outer) :
    (declared.declaration.enclosingTypeVariables = [] ↔
      ¬(declared.IsInnerClass ∧ outer.declaration.typeVariables ≠ [])) ∧
    (declared.IsInnerClass →
      declared.declaration.enclosingTypeVariables = outer.declaration.typeVariables) ∧
    ∀ within between, IsChain declared (within :: between) → ∀ name,
      (∀ owner ∈ within :: between, ¬owner.Introduces name) →
      (declared.IsInnerClass → ¬outer.Introduces name) →
        (∀ method ∈ within.declaration.methods, ¬IsAmong method.typeVariables name →
          (⟨root, within.declaration, method⟩ : Scope).isVariable name = false ∧
            ∀ type ∈ method.references, type.name = name → IsQualified ⟨root.imports, []⟩ type) ∧
        ∀ list ∈ within.declaration.variableLists, ∀ type ∈ list.references, type.name = name →
          IsQualified ⟨root.imports, []⟩ type := by
  obtain ⟨written, hwritten, hmade⟩ := root_eq_ok_iff.mp hroot
  obtain rfl := Option.some.inj (houtline.symm.trans hwritten)
  have hrootMade : Declared.IsMade ⟨outline, root⟩ := ⟨_, _, hmade⟩
  have hempty : root.enclosingTypeVariables = [] := by
    rw [hmade]
    cases outline
    rfl
  obtain ⟨hinner, hother⟩ := IsChain.enclosing_of_isStaticIn hrootMade hempty hchain hstatic
  refine ⟨?_, hinner, ?_⟩
  · by_cases h : declared.IsInnerClass
    · simp [hinner h, h]
    · simp [hother h, h]
  intro within between hwithin name hintroduced hinterface
  have houtside : ¬IsAmong declared.declaration.enclosingTypeVariables name := by
    by_cases h : declared.IsInnerClass
    · rw [hinner h]
      exact hinterface h
    · rw [hother h]
      simp [isAmong_iff]
  have hdeclared : declared.IsMade := hchain.isMade hrootMade
  have hvisible : ¬IsAmong within.declaration.visibleVariables name :=
    hwithin.not_isAmong_visibleVariables hdeclared houtside hintroduced
  have hnested := hchain.reflTransGen.trans hwithin.reflTransGen
  constructor
  · intro method hmethod hown
    have hhidden : ¬IsAmong (within.declaration.visibleVariables ++ method.typeVariables) name :=
      not_isAmong_append.mpr ⟨hvisible, hown⟩
    constructor
    · rw [isVariable_eq]
      exact Bool.eq_false_iff.mpr (mt any_visible_iff.mp hhidden)
    · rintro type htype rfl
      obtain ⟨-, himports, hqualified⟩ := nestsSimply_and_isQualified_of_parse hroot hnested
      rw [← himports]
      exact (hqualified method hmethod type htype).of_not_visible hhidden
  · rintro list hlist type htype rfl
    obtain ⟨written, hmade, himports, hread, -⟩ := exists_outline_of_parse hroot hnested
    obtain ⟨introduced, hproper, hown⟩ := exists_written_of_variableLists hmade hread hlist
    have hqualified : IsQualified ⟨within.declaration.imports, list.outside⟩ type := by
      apply isQualified_references hproper
      rw [← hown]
      exact htype
    have hhidden : ¬IsAmong list.outside type.name := by
      rcases List.mem_cons.mp hlist with rfl | hmethod
      · exact (not_isAmong_append.mp hvisible).1
      · obtain ⟨method, -, rfl⟩ := List.mem_map.mp hmethod
        exact hvisible
    rw [← himports]
    exact hqualified.of_not_visible hhidden

/-- A static class with an inner class that uses the name of a type variable from around both. -/
def staticSource : String :=
  "package p; class A<T> { static class B<U> { class C { T m(U u); } } }"

/-- The static class sees nothing, and to the method inside the name is no type variable. -/
theorem enclosingTypeVariables_staticSource :
    ∃ outline root static inner, (SourceFile.ofSource staticSource.toList).main? = some outline ∧
      parse staticSource = .ok root ∧ IsChain ⟨outline, root⟩ [static, ⟨outline, root⟩] ∧
      static.IsStaticIn ⟨outline, root⟩ ∧ Declared.Introduces ⟨outline, root⟩ "T" ∧
      static.declaration.enclosingTypeVariables = [] ∧ inner ∈ static.nested ∧
      inner.declaration.methods.length = 1 ∧ ∀ method ∈ inner.declaration.methods,
        (⟨root, inner.declaration, method⟩ : Scope).isVariable "T" = false ∧
          ∀ type ∈ method.references, type.name = "T" → IsQualified ⟨root.imports, []⟩ type := by
  let start : Context := { imports := (SourceFile.ofSource staticSource.toList).importScope }
  -- what the theorem asks of the declarations is read off the outline
  have hshape : (SourceFile.ofSource staticSource.toList).main?.map (fun outline =>
      ((outline.declare start none).typeVariables.map TypeVariable.name,
        (Declared.nested ⟨outline, outline.declare start none⟩).map fun static =>
          (static.outline.head.isStatic, static.nested.map fun inner =>
            (static.declaration.typeVariables ++ inner.declaration.typeVariables).map
                TypeVariable.name ::
              inner.declaration.methods.map fun method =>
                method.typeVariables.map TypeVariable.name))) =
      some (["T"], [(true, [[["U"], []]])]) := by
    decide +kernel
  obtain ⟨outline, houtline, hparts⟩ := Option.map_eq_some_iff.mp hshape
  obtain ⟨hrootNames, hnested⟩ := Prod.mk.inj hparts
  obtain ⟨static, hlist, hparts⟩ := List.map_eq_singleton_iff.mp hnested
  obtain ⟨hkeyword, hinside⟩ := Prod.mk.inj hparts
  obtain ⟨inner, hinnerList, hparts⟩ := List.map_eq_singleton_iff.mp hinside
  obtain ⟨hinsideNames, hmethods⟩ := List.cons.inj hparts
  obtain ⟨method, hmethodList, hmethodNames⟩ := List.map_eq_singleton_iff.mp hmethods
  let root := outline.declare start none
  have hparse : parse staticSource = .ok root := root_eq_ok_iff.mpr ⟨outline, houtline, rfl⟩
  have hmem : static ∈ Declared.nested ⟨outline, root⟩ := by
    rw [hlist]
    exact List.mem_singleton_self _
  have hinner : inner ∈ static.nested := by
    rw [hinnerList]
    exact List.mem_singleton_self _
  have hchain : IsChain ⟨outline, root⟩ [static, ⟨outline, root⟩] :=
    ⟨List.isChain_cons_cons.mpr ⟨hmem, .singleton _⟩, rfl⟩
  have hwithin : IsChain static [inner, static] :=
    ⟨List.isChain_cons_cons.mpr ⟨hinner, .singleton _⟩, rfl⟩
  have hnotInner : ¬static.IsInnerClass := fun h => absurd (hkeyword.symm.trans h.2) (by simp)
  have hroot : Declared.Introduces ⟨outline, root⟩ "T" := by
    rw [Declared.Introduces, isAmong_iff]
    exact hrootNames.symm ▸ List.mem_singleton_self _
  have hintroduced : ∀ owner ∈ [inner, static], ¬owner.Introduces "T" := by
    have hnone : ¬IsAmong (static.declaration.typeVariables ++ inner.declaration.typeVariables)
        "T" := by
      rw [isAmong_iff, hinsideNames]
      decide
    obtain ⟨hstatic, hown⟩ := not_isAmong_append.mp hnone
    exact List.forall_mem_cons.mpr ⟨hown, List.forall_mem_singleton.mpr hstatic⟩
  obtain ⟨hempty, -, hhidden⟩ :=
    enclosingTypeVariables_of_isStatic houtline hparse hchain (.inl hkeyword)
  obtain ⟨hmethod, -⟩ := hhidden inner [static] hwithin "T" hintroduced fun h => absurd h hnotInner
  refine ⟨outline, root, static, inner, houtline, hparse, hchain, .inl hkeyword, hroot,
    hempty.mpr fun h => hnotInner h.1, hinner, by rw [hmethodList]; rfl, fun found hfound => ?_⟩
  have hfoundNames : ¬IsAmong found.typeVariables "T" := by
    rw [hmethodList, List.mem_singleton] at hfound
    rw [hfound, isAmong_iff, hmethodNames]
    decide
  exact hmethod found hfound hfoundNames

/-- A class in the body of an interface with a type variable. -/
def interfaceSource : String :=
  "package com.acme; public interface Outer<T> { class Nested { public T get() { return null; } } }"

/-- A declaration can be static and see a type variable from around it. -/
theorem exists_static_sees_variables :
    ¬∀ (source : String) (outline : Outline) (root : Declaration),
      (SourceFile.ofSource source.toList).main? = some outline → parse source = .ok root →
      ∀ (declared outer : Declared) (around : List Declared),
        IsChain ⟨outline, root⟩ (declared :: outer :: around) → declared.IsStaticIn outer →
          declared.declaration.enclosingTypeVariables = [] := by
  intro h
  let start : Context := { imports := (SourceFile.ofSource interfaceSource.toList).importScope }
  have hshape : (SourceFile.ofSource interfaceSource.toList).main?.map (fun outline =>
      (outline.head.kind, (Declared.nested ⟨outline, outline.declare start none⟩).map fun nested =>
        nested.declaration.enclosingTypeVariables.map TypeVariable.name)) =
      some (.interfaceKind, [["T"]]) := by
    decide +kernel
  obtain ⟨outline, houtline, hparts⟩ := Option.map_eq_some_iff.mp hshape
  obtain ⟨hkind, hnested⟩ := Prod.mk.inj hparts
  obtain ⟨nested, hlist, hnames⟩ := List.map_eq_singleton_iff.mp hnested
  let root := outline.declare start none
  have hparse : parse interfaceSource = .ok root := root_eq_ok_iff.mpr ⟨outline, houtline, rfl⟩
  have hmem : nested ∈ Declared.nested ⟨outline, root⟩ := by
    rw [hlist]
    exact List.mem_singleton_self _
  have hchain : IsChain ⟨outline, root⟩ [nested, ⟨outline, root⟩] :=
    ⟨List.isChain_cons_cons.mpr ⟨hmem, .singleton _⟩, rfl⟩
  have hempty := h interfaceSource outline root houtline hparse nested ⟨outline, root⟩ [] hchain
    (.inr (.inr hkind))
  rw [hempty] at hnames
  exact absurd hnames (by decide)

end JavaSignatures.Source
