import JavaSignatures.Proofs.BoundSubstitution

set_option autoImplicit false

/-!
# Bounds where type variables are kept

When type variables are kept, the bounds of the scope are asked for the direct arguments of a
reference and nowhere else.  So two scopes that differ in bounds alone write a reference alike if
they agree on the usable bounds of its direct arguments, and on whether the arguments are written
(`Rendering.render_keep_of_withoutBounds`).  In the arguments that are written, every type variable
without such a bound keeps its name.
-/

namespace JavaSignatures

open Name (IsRun mapWhole)

/-! ## Scopes without bounds -/

namespace TypeVariable

/-- The type variable without its bounds. -/
def withoutBounds (typeVariable : TypeVariable) : TypeVariable := { typeVariable with bounds := [] }

theorem find?_withoutBounds (candidates : List TypeVariable) (name : String) :
    find? (candidates.map withoutBounds) name = (find? candidates name).map withoutBounds := by
  rw [find?, List.find?_map]
  rfl

end TypeVariable

open TypeVariable (find?_withoutBounds)

/-- The method, its type variables without bounds. -/
def Method.withoutBounds (method : Method) : Method :=
  { method with typeVariables := method.typeVariables.map .withoutBounds }

namespace Declaration

mutual

/-- The declaration with everything in it, all type variables without bounds. -/
def withoutBounds (declaration : Declaration) : Declaration :=
  match declaration with
  | ⟨name, qualifiedName, kind, nested, typeVariables, enclosing, methods, comment, imports⟩ =>
    ⟨name, qualifiedName, kind, withoutBoundsAll nested, typeVariables.map .withoutBounds,
      enclosing.map .withoutBounds, methods.map .withoutBounds, comment, imports⟩
termination_by structural declaration

/-- The declarations with all type variables without bounds. -/
def withoutBoundsAll (declarations : List Declaration) : List Declaration :=
  match declarations with
  | [] => []
  | declaration :: rest => withoutBounds declaration :: withoutBoundsAll rest
termination_by structural declarations

end

theorem withoutBoundsAll_eq_map (declarations : List Declaration) :
    withoutBoundsAll declarations = declarations.map withoutBounds := by
  induction declarations with
  | nil => rfl
  | cons declaration rest ih => rw [withoutBoundsAll, ih, List.map_cons]

variable (declaration : Declaration) (name : String)

theorem name_withoutBounds : declaration.withoutBounds.name = declaration.name := by
  cases declaration
  rfl

theorem qualifiedName_withoutBounds :
    declaration.withoutBounds.qualifiedName = declaration.qualifiedName := by
  cases declaration
  rfl

theorem imports_withoutBounds : declaration.withoutBounds.imports = declaration.imports := by
  cases declaration
  rfl

theorem hasNested_withoutBounds :
    declaration.withoutBounds.hasNested name = declaration.hasNested name := by
  have hnested : declaration.withoutBounds.nested = declaration.nested.map withoutBounds := by
    rw [← withoutBoundsAll_eq_map]
    cases declaration
    rfl
  rw [hasNested, hasNested, nested?, nested?, hnested, List.find?_map, Option.isSome_map]
  simp only [Function.comp_def, name_withoutBounds]

theorem typeVariable?_withoutBounds :
    declaration.withoutBounds.typeVariable? name =
      (declaration.typeVariable? name).map .withoutBounds := by
  rw [typeVariable?, typeVariable?, ← find?_withoutBounds, List.map_append, List.map_reverse]
  cases declaration
  rfl

end Declaration

namespace Scope

/-- The scope with all type variables without bounds. -/
def withoutBounds (scope : Scope) : Scope :=
  ⟨scope.root.withoutBounds, scope.lexical.withoutBounds, scope.method.withoutBounds⟩

variable (scope : Scope)

theorem isVariable_withoutBounds (name : String) :
    scope.withoutBounds.isVariable name = scope.isVariable name := by
  have hmethod : scope.withoutBounds.method.typeVariable? name =
      (scope.method.typeVariable? name).map .withoutBounds :=
    find?_withoutBounds _ _
  rw [isVariable, isVariable, typeVariable?, typeVariable?, hmethod, withoutBounds,
    Declaration.typeVariable?_withoutBounds]
  simp only [Option.isSome_or, Option.isSome_map]

theorem ownerOf?_withoutBounds (name : String) :
    scope.withoutBounds.ownerOf? name = (scope.ownerOf? name).map .withoutBounds := by
  simp only [ownerOf?, withoutBounds, Declaration.hasNested_withoutBounds]
  split
  · rfl
  · split <;> rfl

theorem qualifyPath_withoutBounds (first rest : String) :
    scope.withoutBounds.qualifyPath first rest = scope.qualifyPath first rest := by
  have hname : scope.withoutBounds.root.name = scope.root.name := Declaration.name_withoutBounds _
  have himports : scope.withoutBounds.root.imports = scope.root.imports :=
    Declaration.imports_withoutBounds _
  unfold qualifyPath
  rw [ownerOf?_withoutBounds, ownerOf?_withoutBounds, hname, himports]
  cases scope.ownerOf? first with
  | some owner => simp [Declaration.member, Declaration.qualifiedName_withoutBounds]
  | none =>
    by_cases hroot : first = scope.root.name
    · cases scope.ownerOf? rest <;>
        simp [hroot, Declaration.member, Declaration.qualifiedName_withoutBounds]
    · simp [hroot]

theorem qualifyName_withoutBounds (name : String) :
    scope.withoutBounds.qualifyName name = scope.qualifyName name := by
  have hsimple : scope.withoutBounds.qualifySimple name = scope.qualifySimple name := by
    simp only [qualifySimple, withoutBounds, Declaration.imports_withoutBounds]
  unfold qualifyName
  rw [ownerOf?_withoutBounds, hsimple]
  cases scope.ownerOf? name with
  | some owner => simp [Declaration.member, Declaration.qualifiedName_withoutBounds]
  | none => simp only [Option.map_none, qualifyPath_withoutBounds]

mutual

theorem qualify_withoutBounds (type : TypeRef) :
    scope.withoutBounds.qualify type = scope.qualify type := by
  obtain ⟨name, qualifiedName, arguments, dimensions, varargs⟩ := type
  have harguments := qualifyAll_withoutBounds arguments
  simp only [qualify, isVariable_withoutBounds, qualifyName_withoutBounds, harguments]
termination_by structural type

theorem qualifyAll_withoutBounds (types : List TypeRef) :
    scope.withoutBounds.qualifyAll types = scope.qualifyAll types := by
  cases types with
  | nil => rfl
  | cons type rest =>
    rw [qualifyAll, qualifyAll, qualify_withoutBounds type, qualifyAll_withoutBounds rest]
termination_by structural types

end

/-- Scopes that differ in bounds alone qualify alike. -/
theorem qualify_eq_of_withoutBounds {scope other : Scope}
    (h : scope.withoutBounds = other.withoutBounds) : scope.qualify = other.qualify := by
  funext type
  rw [← qualify_withoutBounds scope, h, qualify_withoutBounds]

end Scope

/-! ## Kept type variables -/

namespace Rendering

theorem boundArguments_congr {scope other : Scope} {arguments : List TypeRef}
    (h : ∀ argument ∈ arguments, scope.bound? argument.name = other.bound? argument.name) :
    boundArguments scope arguments = boundArguments other arguments := by
  funext text
  induction arguments generalizing text with
  | nil => rfl
  | cons argument rest ih =>
    obtain ⟨hargument, hrest⟩ := List.forall_mem_cons.mp h
    rw [boundArguments, boundArguments, List.foldl_cons, List.foldl_cons, hargument]
    exact ih hrest _

theorem boundNamesAreRuns_of_forall {scope : Scope} (h : ∀ found ∈ scope.typeVariables,
    IsRun found.name) (arguments : List TypeRef) : BoundNamesAreRuns scope arguments := by
  intro argument _ hsome
  obtain ⟨bound, hbound⟩ := Option.isSome_iff_exists.mp hsome
  obtain ⟨found, hfound, -⟩ := Option.bind_eq_some_iff.mp hbound
  obtain ⟨hmem, hname⟩ := Scope.mem_typeVariables hfound
  exact hname ▸ h found hmem

/-- A name stays if no argument that has a usable bound has it. -/
theorem mapWhole_boundArguments_of_unbounded {scope : Scope} {arguments : List TypeRef}
    (hruns : BoundNamesAreRuns scope arguments) {name : String} (hname : IsRun name)
    (h : ∀ argument ∈ arguments, argument.name = name → scope.bound? name = none) :
    mapWhole (boundArguments scope arguments) name = name := by
  rw [← boundArguments_eq_mapWhole hruns]
  refine boundArguments_eq_self hruns fun argument hargument hsome hmem => ?_
  rw [Name.wholeNames_of_isRun hname, List.mem_singleton] at hmem
  rw [hmem, h argument hargument hmem] at hsome
  exact absurd hsome (by simp)

/-- Where type variables are kept, two scopes that differ in bounds alone write a reference alike,
if both write its arguments or both leave them out, and if the arguments that are written have the
same usable bounds in both.  Whatever the bounds of the others, in arguments that are written every
type variable keeps its name unless it is itself an argument of the reference and has a usable
bound. -/
theorem render_keep_of_withoutBounds {scope other : Scope}
    (hscopes : scope.withoutBounds = other.withoutBounds) {type : TypeRef}
    (hkeeps : keepsArguments scope type = keepsArguments other type)
    (hbounds : keepsArguments scope type = true →
      ∀ argument ∈ type.arguments, scope.bound? argument.name = other.bound? argument.name)
    (placeholder otherPlaceholder : String) (varargs : Bool) :
    let write := mapWhole (boundArguments scope type.arguments)
    let more := if varargs || type.varargs then "[]" else ""
    render ⟨.keep, placeholder⟩ scope type varargs =
        render ⟨.keep, otherPlaceholder⟩ other type varargs ∧
      ((∀ found ∈ scope.typeVariables, IsRun found.name) →
        (keepsArguments scope type = true →
          render ⟨.keep, placeholder⟩ scope type varargs = Name.dropImplicitPackage
            (scope.qualifyWith write type ++ TypeRef.brackets type.dimensions ++ more)) ∧
        ∀ name, scope.isVariable name = true →
          (∀ argument ∈ type.arguments, argument.name = name → scope.bound? name = none) →
          write name = name) := by
  intro write more
  have hqualify := Scope.qualify_eq_of_withoutBounds hscopes
  constructor
  · have happlied : renderApplied scope type = renderApplied other type := by
      rw [renderApplied_eq, renderApplied_eq, ← hkeeps, hqualify]
      split
      · next hwritten => rw [boundArguments_congr (hbounds hwritten)]
      · rfl
    simp only [render, renderFull, renderBare, happlied, hqualify]
  · intro hvariables
    have hruns := boundNamesAreRuns_of_forall hvariables type.arguments
    constructor
    · intro hwritten
      have hbare : type.isParameterized = false →
          boundArguments scope type.arguments (scope.qualify type) = scope.qualify type := by
        intro hnone
        have harguments : type.arguments = [] := by
          simpa [TypeRef.isParameterized] using hnone
        rw [harguments]
        rfl
      have hform : (if type.isParameterized then renderApplied scope type
          else renderBare ⟨.keep, placeholder⟩ scope type) = scope.qualifyWith write type := by
        rw [← Scope.mapWhole_qualify, ← boundArguments_eq_mapWhole hruns]
        split
        · rw [renderApplied_eq, if_pos hwritten]
        · next hnone => rw [hbare (by simpa using hnone), renderBare_keep]
      rw [render, renderFull, hform]
    · intro name hname hunbounded
      obtain ⟨found, hfound⟩ := Option.isSome_iff_exists.mp hname
      obtain ⟨hmem, rfl⟩ := Scope.mem_typeVariables hfound
      exact mapWhole_boundArguments_of_unbounded hruns (hvariables found hmem) hunbounded

/-- `Map<T, List<E>>`. -/
def mapOfNestedVariable : TypeRef :=
  { name := "Map"
    qualifiedName := "java.util.Map"
    arguments := [.simple "T" "T",
      { name := "List", qualifiedName := "java.util.List", arguments := [.simple "E" "E"] }] }

/-- The method of `twoVariables` with a bound for the second variable too. -/
def twoBounds : Scope :=
  { twoVariables with
    method :=
      { name := "put"
        typeVariables := [⟨"T", [.simple "Foo" "com.acme.Foo"]⟩,
          ⟨"E", [.simple "Number" "java.lang.Number"]⟩] } }

/-- The bound of a variable inside an argument does not matter, and the variable keeps its name. -/
theorem render_keep_mapOfNestedVariable :
    render ⟨.keep, ""⟩ twoVariables mapOfNestedVariable false =
        "java.util.Map<com.acme.Foo, java.util.List<E>>" ∧
      render ⟨.keep, defaultPlaceholder⟩ twoBounds mapOfNestedVariable false =
        "java.util.Map<com.acme.Foo, java.util.List<E>>" ∧
      mapWhole (boundArguments twoVariables mapOfNestedVariable.arguments) "E" = "E" := by
  obtain ⟨halike, hform⟩ := @render_keep_of_withoutBounds twoVariables twoBounds rfl
    mapOfNestedVariable (by decide +kernel) (by decide +kernel) "" defaultPlaceholder false
  obtain ⟨hwritten, hname⟩ := hform (by decide +kernel)
  have hmap : render ⟨.keep, ""⟩ twoVariables mapOfNestedVariable false =
      "java.util.Map<com.acme.Foo, java.util.List<E>>" :=
    (hwritten (by decide +kernel)).trans (by decide +kernel)
  exact ⟨hmap, halike.symm.trans hmap, hname "E" (by decide) (by decide)⟩

/-- `List<E>`. -/
def listOfVariable : TypeRef :=
  { name := "List", qualifiedName := "java.util.List", arguments := [.simple "E" "E"] }

/-- Bounds can matter although type variables are kept. -/
theorem exists_bound_shown_by_keep :
    ¬∀ (scope other : Scope) (type : TypeRef) (placeholder otherPlaceholder : String)
      (varargs : Bool), scope.withoutBounds = other.withoutBounds →
      render ⟨.keep, placeholder⟩ scope type varargs =
        render ⟨.keep, otherPlaceholder⟩ other type varargs := by
  intro h
  have hlist := h twoVariables twoBounds listOfVariable "" "" false rfl
  exact absurd hlist (by decide +kernel)

end Rendering

end JavaSignatures
