import JavaSignatures.Proofs.BaseNames

set_option autoImplicit false

/-!
# Which arguments are written

The arguments of a reference are written all or not at all.  One argument that is a type variable
with a usable bound is enough to write all of them; only if no argument is a type variable with
bounds each of them has to look like a real type (`Rendering.render_arguments`).  So an argument
that looks like none is written next to a bounded one
(`Rendering.exists_unusable_argument_written`).
-/

namespace JavaSignatures

open Name (mapWhole)

namespace Rendering

variable {scope : Scope} {type : TypeRef} {arguments : List TypeRef}

/-- The arguments are written just if one of them is a type variable with a usable bound, or none of
them is a type variable with bounds and each one looks like a real type. -/
theorem keepsArguments_iff :
    keepsArguments scope type = true ↔
      (∃ argument ∈ type.arguments, (scope.bound? argument.name).isSome) ∨
        ∀ argument ∈ type.arguments,
          scope.isBounded argument.name = false ∧ isUsableArgument argument = true := by
  rw [keepsArguments, Bool.or_eq_true, Bool.and_eq_true, Bool.not_eq_true', List.any_eq_true,
    List.any_eq_false, List.all_eq_true]
  simp only [Bool.not_eq_true]
  rw [← forall₂_and]

/-- The bound of an argument stays in its place, if it holds the name of no bounded argument. -/
theorem boundArguments_of_mem (hruns : BoundNamesAreRuns scope arguments) {name bound : String}
    (hname : ∃ argument ∈ arguments, argument.name = name) (hbound : scope.bound? name = some bound)
    (hstays : IsUntouched scope arguments bound) :
    boundArguments scope arguments name = bound := by
  induction arguments with
  | nil =>
    obtain ⟨argument, hargument, -⟩ := hname
    exact absurd hargument (List.not_mem_nil)
  | cons argument rest ih =>
    obtain ⟨hrun, hruns⟩ := List.forall_mem_cons.mp hruns
    obtain ⟨-, hrest⟩ := List.forall_mem_cons.mp hstays
    by_cases hsame : argument.name = name
    · -- the first argument of the name puts the bound in, and nothing behind it changes the bound
      subst hsame
      have hself : Name.substitute argument.name bound argument.name = bound := by
        rw [Name.substitute_eq_mapWhole (hrun (by simp [hbound])),
          Name.mapWhole_of_isRun (hrun (by simp [hbound])), Name.replaceName, if_pos rfl]
      rw [boundArguments_cons_of_some hbound, hself, boundArguments_eq_self hruns hrest]
    · obtain ⟨other, hother, hothername⟩ := hname
      have hmore : other ∈ rest := (List.mem_cons.mp hother).resolve_left fun heq =>
        hsame (heq ▸ hothername)
      have htail := ih hruns ⟨other, hmore, hothername⟩ hrest
      cases hfirst : scope.bound? argument.name with
      | none => rw [boundArguments_cons_of_none hfirst, htail]
      | some put =>
        have hnamerun : Name.IsRun name := by
          rw [← hothername]
          exact hruns other hmore (by simp [hothername, hbound])
        have hkept : Name.substitute argument.name put name = name := by
          rw [Name.substitute_eq_mapWhole (hrun (by simp [hfirst])),
            Name.mapWhole_of_isRun hnamerun, Name.replaceName, if_neg (Ne.symm hsame)]
        rw [boundArguments_cons_of_some hfirst, hkept, htail]

/-- An argument that is a type variable with a usable bound is written as this bound, with its own
brackets behind it. -/
theorem mapWhole_shownArgument (hruns : BoundNamesAreRuns scope arguments) {argument : TypeRef}
    (hargument : argument ∈ arguments) {bound : String}
    (hbound : scope.bound? argument.name = some bound)
    (hstays : IsUntouched scope arguments bound) :
    mapWhole (boundArguments scope arguments) (shownArgument scope argument) =
      bound ++ TypeRef.brackets argument.dimensions := by
  have hvariable : scope.isVariable argument.name = true := Scope.isVariable_of_bound? hbound
  have hrun : Name.IsRun argument.name := hruns argument hargument (by simp [hbound])
  rw [shownArgument, Scope.qualify_of_isVariable hvariable, TypeRef.mapWhole_brackets,
    Name.mapWhole_of_isRun hrun,
    boundArguments_of_mem hruns ⟨argument, hargument, rfl⟩ hbound hstays]

/-- An opening bracket outside of names is not lost. -/
theorem angle_mem_dropImplicitPackage (base : String) (arguments : List String) :
    '<' ∈ (Name.dropImplicitPackage (TypeRef.applied base arguments)).toList := by
  rw [TypeRef.applied_eq_append, Name.dropImplicitPackage_append_mark (by decide) (by decide)]
  simp

/-- One argument with a usable bound is enough to write all arguments of a reference that is no array;
if none of them is a type variable with bounds, each one has to look like a real type.  An argument
with a usable bound is then written as this bound, unless the bound holds the name of a bounded
argument itself.  Otherwise the reference is written by its qualified name. -/
theorem render_arguments (hvariable : scope.isVariable type.name = false)
    (hparameterized : type.isParameterized = true) (hdimensions : type.dimensions = 0)
    (hvarargs : type.varargs = false) (rendering : Rendering) :
    let text := rendering.render scope type false
    let settle := mapWhole (boundArguments scope type.arguments)
    let written := (∃ argument ∈ type.arguments, (scope.bound? argument.name).isSome) ∨
      ∀ argument ∈ type.arguments,
        scope.isBounded argument.name = false ∧ isUsableArgument argument = true
    (written → BoundNamesAreRuns scope type.arguments →
        text = Name.dropImplicitPackage (TypeRef.applied (settle (scope.qualifyName type.name))
          (type.arguments.map fun argument => settle (shownArgument scope argument))) ∧
        '<' ∈ text.toList ∧
        ∀ argument ∈ type.arguments, ∀ bound ∈ scope.bound? argument.name,
          IsUntouched scope type.arguments bound →
            settle (shownArgument scope argument) =
              bound ++ TypeRef.brackets argument.dimensions) ∧
      (¬written → text = Name.dropImplicitPackage type.qualifiedName) ∧
      ('<' ∉ type.qualifiedName.toList → '<' ∈ text.toList → written) := by
  intro text settle written
  have hkeeps : keepsArguments scope type = true ↔ written := keepsArguments_iff
  have htext : text = Name.dropImplicitPackage (renderApplied scope type) := by
    have hbrackets := render_eq_append_brackets rendering scope type false
    rw [if_pos hparameterized, hdimensions, hvarargs] at hbrackets
    exact hbrackets.trans String.append_empty
  have hdropped : ¬written → text = Name.dropImplicitPackage type.qualifiedName := by
    intro hnot
    rw [htext, renderApplied_eq, if_neg (mt hkeeps.mp hnot)]
  refine ⟨?_, hdropped, ?_⟩
  · intro hwritten hruns
    have happlied : text = Name.dropImplicitPackage
        (TypeRef.applied (settle (scope.qualifyName type.name))
          (type.arguments.map fun argument => settle (shownArgument scope argument))) := by
      rw [htext, renderApplied_eq_applied hvariable hdimensions hruns hparameterized
        (hkeeps.mpr hwritten)]
    refine ⟨happlied, ?_, ?_⟩
    · rw [happlied]
      exact angle_mem_dropImplicitPackage _ _
    · intro argument hargument bound hbound hstays
      exact mapWhole_shownArgument hruns hargument hbound hstays
  · intro hplain hangle
    by_contra hnot
    rw [hdropped hnot] at hangle
    exact not_mem_dropImplicitPackage hplain hangle

/-- `Map<T, E>` is written with the bound of `T` and the bare `E`; of `Map<E, E>` only the name is
left. -/
theorem render_arguments_mapOfVariables :
    render {} twoVariables mapOfVariables false = "java.util.Map<com.acme.Foo, E>" ∧
      mapWhole (boundArguments twoVariables mapOfVariables.arguments)
        (shownArgument twoVariables (.simple "T" "T")) = "com.acme.Foo" ∧
      render {} twoVariables { mapOfVariables with arguments := [.simple "E" "E", .simple "E" "E"] }
        false = "java.util.Map" := by
  obtain ⟨hwritten, -, -⟩ :=
    @render_arguments twoVariables mapOfVariables (by decide) rfl rfl rfl {}
  obtain ⟨hmap, -, hbound⟩ := hwritten
    (.inl ⟨.simple "T" "T", List.mem_cons_self .., by decide⟩) (by decide +kernel)
  obtain ⟨-, hdropped, -⟩ := @render_arguments twoVariables
    { mapOfVariables with arguments := [.simple "E" "E", .simple "E" "E"] } (by decide) rfl rfl rfl {}
  refine ⟨hmap.trans (by decide +kernel), ?_, (hdropped (by decide)).trans (by decide +kernel)⟩
  exact hbound (.simple "T" "T") (List.mem_cons_self ..) "com.acme.Foo" (by decide)
    (by decide +kernel)

/-- An argument that neither has a usable bound nor looks like a real type is written next to one with
a bound. -/
theorem exists_unusable_argument_written :
    ¬∀ (rendering : Rendering) (scope : Scope) (type : TypeRef),
      scope.isVariable type.name = false → type.isParameterized = true → type.dimensions = 0 →
      type.varargs = false → BoundNamesAreRuns scope type.arguments →
      '<' ∈ (rendering.render scope type false).toList →
      ∀ argument ∈ type.arguments,
        (scope.bound? argument.name).isSome ∨ isUsableArgument argument = true := by
  intro h
  have hmap := h {} twoVariables mapOfVariables (by decide) rfl rfl rfl (by decide +kernel)
    (by decide +kernel) (.simple "E" "E") (.tail _ (.head _))
  exact absurd hmap (by decide)

end Rendering

end JavaSignatures
