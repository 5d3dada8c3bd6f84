import JavaSignatures.Proofs.ErasedVariables
import JavaSignatures.Proofs.WholeNames

set_option autoImplicit false

/-!
# Bounds in the place of type arguments

The bounds of the arguments are put in one after the other, each into the whole text of the type.
What becomes of one whole identifier does not depend on the text around it, so the base and the
arguments are rewritten apart from each other (`boundArguments_eq_mapWhole`, `mapWhole_applied`).
Where no bound holds the name of an argument that has a bound, the order does not matter and each
identifier is rewritten once (`boundArguments_eq_argumentBound`).
-/

namespace JavaSignatures

open Name (IsRun mapWhole wholeNames)

/-! ## Names in types with arguments -/

namespace TypeRef

variable (f : String → String)

theorem mapWhole_brackets (text : String) (dimensions : Nat) :
    mapWhole f (text ++ brackets dimensions) = mapWhole f text ++ brackets dimensions := by
  induction dimensions generalizing text with
  | zero => simp [brackets]
  | succ dimensions ih =>
    have hpair : mapWhole f (text ++ "[]" ++ "") = mapWhole f text ++ "[]" ++ "" :=
      Name.mapWhole_append_mark (by decide) (by decide) text ""
    rw [String.append_empty, String.append_empty] at hpair
    rw [brackets, ← String.append_assoc, ih, hpair, String.append_assoc]

theorem mapWhole_intercalate (parts : List String) :
    mapWhole f (", ".intercalate parts) = ", ".intercalate (parts.map (mapWhole f)) := by
  induction parts with
  | nil => rfl
  | cons part rest ih =>
    cases rest with
    | nil => rfl
    | cons next more =>
      have hlist : ", ".intercalate (part :: next :: more) =
          part ++ ", " ++ ", ".intercalate (next :: more) := String.intercalate_cons_cons
      rw [hlist, Name.mapWhole_append_mark (by decide) (by decide), ih]
      simp only [List.map_cons, String.intercalate_cons_cons]

/-- The base and the arguments are rewritten apart from each other. -/
theorem mapWhole_applied (base : String) (arguments : List String) :
    mapWhole f (applied base arguments) = applied (mapWhole f base) (arguments.map (mapWhole f)) := by
  have hclosing : mapWhole f (base ++ "<" ++ ", ".intercalate arguments ++ ">" ++ "") =
      mapWhole f (base ++ "<" ++ ", ".intercalate arguments) ++ ">" ++ "" :=
    Name.mapWhole_append_mark (by decide) (by decide) _ _
  rw [String.append_empty, String.append_empty] at hclosing
  rw [applied, hclosing, Name.mapWhole_append_mark (by decide) (by decide), mapWhole_intercalate]
  rfl

end TypeRef

/-! ## Written names -/

namespace TypeRef

mutual

/-- The qualified name with all arguments, every name written by `write`. -/
def genericNameWith (write : String → String) (type : TypeRef) : String :=
  match type with
  | ⟨_, qualifiedName, arguments, _, _⟩ =>
    if arguments.isEmpty then write qualifiedName
    else applied (write qualifiedName) (genericNamesWith write arguments)
termination_by structural type

/-- The qualified names of arguments, every name written by `write`. -/
def genericNamesWith (write : String → String) (types : List TypeRef) : List String :=
  match types with
  | [] => []
  | type :: rest =>
    (genericNameWith write type ++ brackets type.dimensions) :: genericNamesWith write rest
termination_by structural types

end

variable (f : String → String)

mutual

theorem mapWhole_genericName (type : TypeRef) :
    mapWhole f type.genericName = type.genericNameWith (mapWhole f) := by
  obtain ⟨name, qualifiedName, arguments, dimensions, varargs⟩ := type
  have harguments := map_mapWhole_genericNames arguments
  rw [genericName, genericNameWith]
  split
  · rfl
  · rw [mapWhole_applied, harguments]
termination_by structural type

theorem map_mapWhole_genericNames (types : List TypeRef) :
    (genericNames types).map (mapWhole f) = genericNamesWith (mapWhole f) types := by
  cases types with
  | nil => rfl
  | cons type rest =>
    rw [genericNames, genericNamesWith, List.map_cons, mapWhole_brackets,
      mapWhole_genericName type, map_mapWhole_genericNames rest]
termination_by structural types

end

end TypeRef

namespace Scope

mutual

/-- The qualified form of a reference, every name written by `write`: a type variable by its name,
any other type by its qualified name, and what stands in a parameterized array by the qualified name
that the reference carries. -/
def qualifyWith (scope : Scope) (write : String → String) (type : TypeRef) : String :=
  match type with
  | ⟨name, qualifiedName, arguments, dimensions, varargs⟩ =>
    if scope.isVariable name then write name
    else if arguments.isEmpty then write (scope.qualifyName name)
    else if dimensions == 0 then
      TypeRef.applied (write (scope.qualifyName name)) (scope.qualifyAllWith write arguments)
    else TypeRef.genericNameWith write ⟨name, qualifiedName, arguments, dimensions, varargs⟩
termination_by structural type

/-- The qualified forms of arguments with their brackets, every name written by `write`. -/
def qualifyAllWith (scope : Scope) (write : String → String) (types : List TypeRef) :
    List String :=
  match types with
  | [] => []
  | type :: rest =>
    (scope.qualifyWith write type ++ TypeRef.brackets type.dimensions) ::
      scope.qualifyAllWith write rest
termination_by structural types

end

variable (scope : Scope) (f : String → String)

mutual

/-- What rewrites whole identifiers rewrites each name by itself. -/
theorem mapWhole_qualify (type : TypeRef) :
    mapWhole f (scope.qualify type) = scope.qualifyWith (mapWhole f) type := by
  obtain ⟨name, qualifiedName, arguments, dimensions, varargs⟩ := type
  have harguments := map_mapWhole_qualifyAll arguments
  rw [qualify, qualifyWith]
  split
  · rfl
  · split
    · rfl
    · split
      · rw [TypeRef.mapWhole_applied, harguments]
      · exact TypeRef.mapWhole_genericName f _
termination_by structural type

theorem map_mapWhole_qualifyAll (types : List TypeRef) :
    (scope.qualifyAll types).map (mapWhole f) = scope.qualifyAllWith (mapWhole f) types := by
  cases types with
  | nil => rfl
  | cons type rest =>
    rw [qualifyAll, qualifyAllWith, List.map_cons, TypeRef.mapWhole_brackets,
      mapWhole_qualify type, map_mapWhole_qualifyAll rest]
termination_by structural types

end

end Scope

namespace Rendering

variable {scope : Scope} {arguments : List TypeRef}

/-- The arguments that have a usable bound have identifiers as names. -/
def BoundNamesAreRuns (scope : Scope) (arguments : List TypeRef) : Prop :=
  ∀ argument ∈ arguments, (scope.bound? argument.name).isSome → IsRun argument.name

/-- Putting in the bounds of the arguments leaves the text alone: none of them is, as a name, a
whole identifier of the text. -/
def IsUntouched (scope : Scope) (arguments : List TypeRef) (text : String) : Prop :=
  ∀ argument ∈ arguments, (scope.bound? argument.name).isSome → argument.name ∉ wholeNames text

/-- No usable bound of an argument holds the name of an argument that has a usable bound. -/
def BoundsApart (scope : Scope) (arguments : List TypeRef) : Prop :=
  ∀ argument ∈ arguments, ∀ bound ∈ scope.bound? argument.name, IsUntouched scope arguments bound

/-- What stands for a name in arguments: the bound, if one of them has this name and a usable bound,
else the name itself. -/
def argumentBound (scope : Scope) (arguments : List TypeRef) (name : String) : String :=
  if arguments.any fun argument => argument.name == name then (scope.bound? name).getD name
  else name

instance (scope : Scope) (arguments : List TypeRef) :
    Decidable (BoundNamesAreRuns scope arguments) :=
  List.decidableBAll _ arguments

instance (scope : Scope) (arguments : List TypeRef) (text : String) :
    Decidable (IsUntouched scope arguments text) :=
  List.decidableBAll _ arguments

instance (scope : Scope) (arguments : List TypeRef) : Decidable (BoundsApart scope arguments) :=
  List.decidableBAll _ arguments

/-! ## One argument after the other -/

theorem boundArguments_cons_of_none {argument : TypeRef} (h : scope.bound? argument.name = none)
    (arguments : List TypeRef) :
    boundArguments scope (argument :: arguments) = boundArguments scope arguments := by
  funext text
  simp [boundArguments, h]

theorem boundArguments_cons_of_some {argument : TypeRef} {bound : String}
    (h : scope.bound? argument.name = some bound) (arguments : List TypeRef) (text : String) :
    boundArguments scope (argument :: arguments) text =
      boundArguments scope arguments (Name.substitute argument.name bound text) := by
  simp [boundArguments, h]

/-- The bounds of all arguments are put into each whole identifier apart from the others. -/
theorem boundArguments_eq_mapWhole (h : BoundNamesAreRuns scope arguments) (text : String) :
    boundArguments scope arguments text = mapWhole (boundArguments scope arguments) text := by
  induction arguments generalizing text with
  | nil => exact (Name.mapWhole_eq_self fun name _ => rfl).symm
  | cons argument rest ih =>
    obtain ⟨hargument, hrest⟩ := List.forall_mem_cons.mp h
    cases hbound : scope.bound? argument.name with
    | none =>
      rw [boundArguments_cons_of_none hbound]
      exact ih hrest text
    | some bound =>
      have hrun : IsRun argument.name := hargument (by simp [hbound])
      rw [boundArguments_cons_of_some hbound, Name.substitute_eq_mapWhole hrun, ih hrest,
        Name.mapWhole_mapWhole]
      refine Name.mapWhole_congr fun name hname => ?_
      rw [boundArguments_cons_of_some hbound, Name.substitute_eq_mapWhole hrun,
        Name.mapWhole_of_isRun (Name.isRun_of_mem_wholeNames hname), ← ih hrest]

/-- A text stays if it holds none of the names. -/
theorem boundArguments_eq_self (h : BoundNamesAreRuns scope arguments) {text : String}
    (htext : IsUntouched scope arguments text) : boundArguments scope arguments text = text := by
  induction arguments with
  | nil => rfl
  | cons argument rest ih =>
    obtain ⟨hargument, hrest⟩ := List.forall_mem_cons.mp h
    obtain ⟨hother, hothers⟩ := List.forall_mem_cons.mp htext
    cases hbound : scope.bound? argument.name with
    | none =>
      rw [boundArguments_cons_of_none hbound]
      exact ih hrest hothers
    | some bound =>
      have hsome : (scope.bound? argument.name).isSome := by simp [hbound]
      have hstays : Name.substitute argument.name bound text = text := by
        rw [Name.substitute_eq_mapWhole (hargument hsome)]
        refine Name.mapWhole_eq_self fun name hname => if_neg ?_
        rintro rfl
        exact hother hsome hname
      rw [boundArguments_cons_of_some hbound, hstays]
      exact ih hrest hothers

/-- An identifier of the text is replaced once, if no bound holds a name that is replaced. -/
theorem boundArguments_eq_argumentBound (h : BoundNamesAreRuns scope arguments)
    (hbounds : BoundsApart scope arguments) {name : String} (hname : IsRun name) :
    boundArguments scope arguments name = argumentBound scope arguments name := by
  induction arguments with
  | nil => rfl
  | cons argument rest ih =>
    obtain ⟨hargument, hrest⟩ := List.forall_mem_cons.mp h
    obtain ⟨hbound, hbounds⟩ := List.forall_mem_cons.mp hbounds
    have hapart : BoundsApart scope rest := fun other hother bound hsome =>
      (List.forall_mem_cons.mp (hbounds other hother bound hsome)).2
    have htail := ih hrest hapart
    cases hsome : scope.bound? argument.name with
    | none =>
      rw [boundArguments_cons_of_none hsome, htail, argumentBound, argumentBound, List.any_cons]
      by_cases hsame : argument.name = name
      · simp [← hsame, hsome]
      · simp [hsame]
    | some bound =>
      rw [boundArguments_cons_of_some hsome, Name.substitute_eq_mapWhole (hargument (by simp [hsome])),
        Name.mapWhole_of_isRun hname, Name.replaceName]
      by_cases hsame : name = argument.name
      · have huntouched := (List.forall_mem_cons.mp (hbound bound hsome)).2
        rw [if_pos hsame, boundArguments_eq_self hrest huntouched, argumentBound, List.any_cons]
        simp [hsame, hsome]
      · rw [if_neg hsame, htail, argumentBound, argumentBound, List.any_cons]
        simp [Ne.symm hsame]

/-! ## References with bounded arguments -/

/-- An argument in its qualified form, brackets included. -/
def shownArgument (scope : Scope) (argument : TypeRef) : String :=
  scope.qualify argument ++ TypeRef.brackets argument.dimensions

theorem qualify_eq_applied {type : TypeRef} (hvariable : scope.isVariable type.name = false)
    (hparameterized : type.isParameterized = true) (hdimensions : type.dimensions = 0) :
    scope.qualify type =
      TypeRef.applied (scope.qualifyName type.name) (type.arguments.map (shownArgument scope)) := by
  obtain ⟨name, qualifiedName, arguments, dimensions, varargs⟩ := type
  obtain rfl : dimensions = 0 := hdimensions
  have harguments : arguments.isEmpty = false := by simpa [TypeRef.isParameterized] using hparameterized
  have hname : scope.isVariable name = false := hvariable
  simp only [Scope.qualify, hname, harguments, Bool.false_eq_true, if_false, beq_self_eq_true,
    if_true, Scope.qualifyAll_eq_map]
  rfl

theorem isParameterized_of_exists {type : TypeRef}
    (h : ∃ argument ∈ type.arguments, (scope.bound? argument.name).isSome) :
    type.isParameterized = true := by
  obtain ⟨argument, hargument, -⟩ := h
  simpa [TypeRef.isParameterized] using List.ne_nil_of_mem hargument

theorem render_of_isParameterized {type : TypeRef} (hparameterized : type.isParameterized = true)
    (rendering : Rendering) (varargs : Bool) :
    rendering.render scope type varargs =
      Name.dropImplicitPackage (renderApplied scope type ++ TypeRef.brackets type.dimensions ++
        if varargs || type.varargs then "[]" else "") := by
  rw [render, renderFull, if_pos hparameterized]

theorem keepsArguments_of_exists {type : TypeRef}
    (h : ∃ argument ∈ type.arguments, (scope.bound? argument.name).isSome) :
    keepsArguments scope type = true := by
  rw [keepsArguments, Bool.or_eq_true, List.any_eq_true]
  exact Or.inl h

section

variable {type : TypeRef} (hvariable : scope.isVariable type.name = false)
variable (hdimensions : type.dimensions = 0) (hruns : BoundNamesAreRuns scope type.arguments)
variable (hbound : ∃ argument ∈ type.arguments, (scope.bound? argument.name).isSome)

include hvariable hdimensions hruns in
/-- Where arguments are written, the base and the arguments are rewritten apart, and in each of them
every whole identifier. -/
theorem renderApplied_eq_applied (hparameterized : type.isParameterized = true)
    (hkeeps : keepsArguments scope type = true) :
    let settle := mapWhole (boundArguments scope type.arguments)
    renderApplied scope type =
      TypeRef.applied (settle (scope.qualifyName type.name))
        (type.arguments.map fun argument => settle (shownArgument scope argument)) := by
  intro settle
  rw [renderApplied_eq, if_pos hkeeps, boundArguments_eq_mapWhole hruns,
    qualify_eq_applied hvariable hparameterized hdimensions, TypeRef.mapWhole_applied,
    List.map_map]
  rfl

include hvariable hdimensions hruns hbound in
theorem renderApplied_eq_applied_argumentBound (happart : BoundsApart scope type.arguments)
    (hbase : IsUntouched scope type.arguments (scope.qualifyName type.name)) :
    renderApplied scope type =
      TypeRef.applied (scope.qualifyName type.name) (type.arguments.map fun argument =>
        mapWhole (argumentBound scope type.arguments) (shownArgument scope argument)) := by
  have hsettled : ∀ text, mapWhole (boundArguments scope type.arguments) text =
      mapWhole (argumentBound scope type.arguments) text := fun text =>
    Name.mapWhole_congr fun name hname =>
      boundArguments_eq_argumentBound hruns happart (Name.isRun_of_mem_wholeNames hname)
  have hstays : mapWhole (boundArguments scope type.arguments) (scope.qualifyName type.name) =
      scope.qualifyName type.name := by
    rw [← boundArguments_eq_mapWhole hruns, boundArguments_eq_self hruns hbase]
  rw [renderApplied_eq_applied hvariable hdimensions hruns (isParameterized_of_exists hbound)
    (keepsArguments_of_exists hbound), hstays]
  simp only [hsettled]

end

/-- Only which arguments there are matters for what stands for a name. -/
theorem argumentBound_of_perm {other : List TypeRef} (h : other.Perm arguments) :
    argumentBound scope other = argumentBound scope arguments := by
  funext name
  rw [argumentBound, argumentBound, h.any_eq]

/-- A reference with a bounded argument is written with all its arguments.  Its base and each
argument are rewritten apart, every whole identifier of them becoming what the bounds make of it one
after the other.  Where no bound holds a name that is replaced, and neither does the base, the base
stays, each identifier of an argument that names a bounded argument is replaced by its bound once,
and other orders of the arguments give the same in that order. -/
theorem render_of_bounded_arguments {type : TypeRef}
    (hvariable : scope.isVariable type.name = false) (hdimensions : type.dimensions = 0)
    (hruns : BoundNamesAreRuns scope type.arguments)
    (hbound : ∃ argument ∈ type.arguments, (scope.bound? argument.name).isSome)
    (rendering : Rendering) (varargs : Bool) :
    let base := scope.qualifyName type.name
    let settle := mapWhole (boundArguments scope type.arguments)
    let once := mapWhole (argumentBound scope type.arguments)
    let more := if varargs || type.varargs then "[]" else ""
    rendering.render scope type varargs =
        Name.dropImplicitPackage (TypeRef.applied (settle base)
          (type.arguments.map fun argument => settle (shownArgument scope argument)) ++ more) ∧
      (BoundsApart scope type.arguments → IsUntouched scope type.arguments base →
        ∀ arguments : List TypeRef, arguments.Perm type.arguments →
          rendering.render scope { type with arguments := arguments } varargs =
            Name.dropImplicitPackage (TypeRef.applied base
              (arguments.map fun argument => once (shownArgument scope argument)) ++ more)) := by
  intro base settle once more
  have hparameterized := isParameterized_of_exists hbound
  constructor
  · rw [render_of_isParameterized hparameterized, hdimensions, TypeRef.brackets,
      String.append_empty, renderApplied_eq_applied hvariable hdimensions hruns hparameterized
        (keepsArguments_of_exists hbound)]
  · intro hapart hbase arguments hperm
    let permuted : TypeRef := { type with arguments := arguments }
    have hmem : ∀ {argument}, argument ∈ arguments → argument ∈ type.arguments :=
      fun h => hperm.mem_iff.mp h
    have hexists : ∃ argument ∈ permuted.arguments, (scope.bound? argument.name).isSome := by
      obtain ⟨argument, hargument, hsome⟩ := hbound
      exact ⟨argument, hperm.mem_iff.mpr hargument, hsome⟩
    have huntouched : ∀ text, IsUntouched scope type.arguments text →
        IsUntouched scope arguments text :=
      fun text h argument hargument => h argument (hmem hargument)
    have happlied : renderApplied scope permuted = TypeRef.applied base
        (arguments.map fun argument =>
          mapWhole (argumentBound scope arguments) (shownArgument scope argument)) :=
      renderApplied_eq_applied_argumentBound hvariable hdimensions
        (fun argument hargument => hruns argument (hmem hargument)) hexists
        (fun argument hargument bound hsome =>
          huntouched bound (hapart argument (hmem hargument) bound hsome))
        (huntouched base hbase)
    rw [argumentBound_of_perm hperm] at happlied
    have hrender : rendering.render scope permuted varargs =
        Name.dropImplicitPackage (renderApplied scope permuted ++ TypeRef.brackets type.dimensions ++
          more) :=
      render_of_isParameterized (isParameterized_of_exists hexists) rendering varargs
    rw [hrender, hdimensions, TypeRef.brackets, String.append_empty, happlied]

/-- `Map<T, List<T>>`. -/
def mapOfVariableToList : TypeRef :=
  { name := "Map"
    qualifiedName := "java.util.Map"
    arguments := [.simple "T" "T",
      { name := "List", qualifiedName := "java.util.List", arguments := [.simple "T" "T"] }] }

/-- The bound stands for the variable wherever an argument has it, in both orders. -/
theorem render_mapOfVariableToList :
    render {} twoVariables mapOfVariableToList false =
        "java.util.Map<com.acme.Foo, java.util.List<com.acme.Foo>>" ∧
      render {} twoVariables
          { mapOfVariableToList with arguments := mapOfVariableToList.arguments.reverse } false =
        "java.util.Map<java.util.List<com.acme.Foo>, com.acme.Foo>" := by
  have hbound : ∃ argument ∈ mapOfVariableToList.arguments,
      (twoVariables.bound? argument.name).isSome :=
    ⟨.simple "T" "T", List.mem_cons_self .., by decide⟩
  have hrendered := (render_of_bounded_arguments (by decide) rfl (by decide +kernel) hbound {} false).2
    (by decide +kernel) (by decide +kernel)
  exact ⟨(hrendered _ (.refl _)).trans (by decide +kernel),
    (hrendered _ (List.reverse_perm _)).trans (by decide +kernel)⟩

/-- A method of the class `Box` with a type variable whose bound is the other one. -/
def chainedVariables : Scope :=
  { twoVariables with
    method :=
      { name := "put"
        typeVariables :=
          [⟨"T", [.simple "U" "U"]⟩, ⟨"U", [.simple "Number" "java.lang.Number"]⟩] } }

/-- `Map<T, U>`. -/
def mapOfChained : TypeRef :=
  { name := "Map"
    qualifiedName := "java.util.Map"
    arguments := [.simple "T" "T", .simple "U" "U"] }

/-- A bound that has been put in can be replaced by the bound of another argument. -/
theorem exists_bound_replaced :
    ¬∀ (scope : Scope) (type : TypeRef), scope.isVariable type.name = false →
      type.dimensions = 0 → BoundNamesAreRuns scope type.arguments →
      (∃ argument ∈ type.arguments, (scope.bound? argument.name).isSome) →
      renderApplied scope type =
        TypeRef.applied (scope.qualifyName type.name) (type.arguments.map fun argument =>
          mapWhole (argumentBound scope type.arguments) (shownArgument scope argument)) := by
  intro h
  have hmap := h chainedVariables mapOfChained (by decide) rfl (by decide +kernel)
    ⟨.simple "T" "T", List.mem_cons_self .., by decide⟩
  have hwritten : renderApplied chainedVariables mapOfChained =
      "java.util.Map<java.lang.Number, java.lang.Number>" := by
    decide +kernel
  have honce : TypeRef.applied (chainedVariables.qualifyName "Map")
      (mapOfChained.arguments.map fun argument =>
        mapWhole (argumentBound chainedVariables mapOfChained.arguments)
          (shownArgument chainedVariables argument)) =
      "java.util.Map<U, java.lang.Number>" := by
    decide +kernel
  rw [hwritten] at hmap
  exact absurd (hmap.trans honce) (by decide)

end Rendering

end JavaSignatures
