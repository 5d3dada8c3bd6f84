import JavaSignatures.Proofs.BoundSubstitution
import JavaSignatures.Proofs.DottedNames

set_option autoImplicit false

/-!
# The implicit package in rendered types

The package that needs no import is taken out of the finished text, wherever it stands in it.  The
dotted names of this text are those of the names that the reference is written with, at any depth:
qualified names, bounds, the placeholder (`Rendering.dottedNames_renderFull`).  So the package of
types is all that gets lost just if the implicit package stands nowhere else in any of these
(`Rendering.render_eq_dropFromTypes_iff`).  The name of another package that holds it loses a part
(`Rendering.exists_render_ne_dropFromTypes`).
-/

namespace JavaSignatures

open Name (mapWhole isDottedPart HoldsPackageOfType)

/-! ## Dotted names of types with arguments -/

/-- The dotted names of a text. -/
def Name.dottedNamesOf (text : String) : List (List Char) := dottedNames text.toList

open Name (dottedNamesOf)

theorem Name.dottedNamesOf_append_mark {mark : String} (hne : mark.toList ≠ [])
    (hmark : ∀ c ∈ mark.toList, isDottedPart c = false) (text rest : String) :
    dottedNamesOf (text ++ mark ++ rest) = dottedNamesOf text ++ dottedNamesOf rest := by
  have hlist : (text ++ mark ++ rest).toList = text.toList ++ (mark.toList ++ rest.toList) := by
    simp
  rw [dottedNamesOf, hlist, dottedNames_append_mark hne hmark]
  rfl

namespace TypeRef

theorem dottedNamesOf_brackets (text : String) (dimensions : Nat) :
    dottedNamesOf (text ++ brackets dimensions) = dottedNamesOf text := by
  induction dimensions generalizing text with
  | zero => simp [brackets]
  | succ dimensions ih =>
    have hpair : dottedNamesOf (text ++ "[]" ++ "") = dottedNamesOf text ++ dottedNamesOf "" :=
      Name.dottedNamesOf_append_mark (by decide) (by decide) text ""
    rw [String.append_empty] at hpair
    rw [brackets, ← String.append_assoc, ih, hpair]
    exact List.append_nil _

theorem dottedNamesOf_intercalate (parts : List String) :
    dottedNamesOf (", ".intercalate parts) = parts.flatMap dottedNamesOf := by
  induction parts with
  | nil => rfl
  | cons part rest ih =>
    cases rest with
    | nil => simp
    | cons next more =>
      have hlist : ", ".intercalate (part :: next :: more) =
          part ++ ", " ++ ", ".intercalate (next :: more) := String.intercalate_cons_cons
      rw [hlist, Name.dottedNamesOf_append_mark (by decide) (by decide), ih]
      rfl

/-- The base comes first, and then the arguments one by one. -/
theorem dottedNamesOf_applied (base : String) (arguments : List String) :
    dottedNamesOf (applied base arguments) =
      dottedNamesOf base ++ arguments.flatMap dottedNamesOf := by
  have hclosing : dottedNamesOf (base ++ "<" ++ ", ".intercalate arguments ++ ">" ++ "") =
      dottedNamesOf (base ++ "<" ++ ", ".intercalate arguments) ++ dottedNamesOf "" :=
    Name.dottedNamesOf_append_mark (by decide) (by decide) _ _
  have hempty : dottedNamesOf "" = [] := rfl
  rw [String.append_empty, hempty, List.append_nil] at hclosing
  rw [applied, hclosing, Name.dottedNamesOf_append_mark (by decide) (by decide),
    dottedNamesOf_intercalate]

variable (write : String → String)

mutual

theorem dottedNamesOf_genericNameWith (type : TypeRef) :
    dottedNamesOf (type.genericNameWith write) =
      type.references.flatMap fun inner => dottedNamesOf (write inner.qualifiedName) := by
  obtain ⟨name, qualifiedName, arguments, dimensions, varargs⟩ := type
  have harguments := flatMap_dottedNamesOf_genericNamesWith arguments
  rw [references_eq_cons, List.flatMap_cons, genericNameWith]
  cases arguments with
  | nil => simp [referencesOf]
  | cons argument rest =>
    simp only [List.isEmpty_cons, Bool.false_eq_true, if_false]
    rw [dottedNamesOf_applied, harguments]
termination_by structural type

theorem flatMap_dottedNamesOf_genericNamesWith (types : List TypeRef) :
    (genericNamesWith write types).flatMap dottedNamesOf =
      (referencesOf types).flatMap fun inner => dottedNamesOf (write inner.qualifiedName) := by
  cases types with
  | nil => rfl
  | cons type rest =>
    rw [genericNamesWith, referencesOf, List.flatMap_cons, List.flatMap_append,
      dottedNamesOf_brackets, dottedNamesOf_genericNameWith type,
      flatMap_dottedNamesOf_genericNamesWith rest]
termination_by structural types

end

end TypeRef

/-! ## The names that a reference is written with -/

namespace Scope

mutual

/-- The names in the qualified form of a reference, from left to right. -/
def shownNames (scope : Scope) (type : TypeRef) : List String :=
  match type with
  | ⟨name, qualifiedName, arguments, dimensions, varargs⟩ =>
    if scope.isVariable name then [name]
    else if arguments.isEmpty then [scope.qualifyName name]
    else if dimensions == 0 then scope.qualifyName name :: scope.shownNamesOf arguments
    else
      (TypeRef.references ⟨name, qualifiedName, arguments, dimensions, varargs⟩).map
        TypeRef.qualifiedName
termination_by structural type

/-- The names in the qualified forms of arguments. -/
def shownNamesOf (scope : Scope) (types : List TypeRef) : List String :=
  match types with
  | [] => []
  | type :: rest => scope.shownNames type ++ scope.shownNamesOf rest
termination_by structural types

end

variable (scope : Scope) (write : String → String)

mutual

theorem dottedNamesOf_qualifyWith (type : TypeRef) :
    dottedNamesOf (scope.qualifyWith write type) =
      (scope.shownNames type).flatMap fun name => dottedNamesOf (write name) := by
  obtain ⟨name, qualifiedName, arguments, dimensions, varargs⟩ := type
  have harguments := flatMap_dottedNamesOf_qualifyAllWith arguments
  rw [qualifyWith, shownNames]
  split
  · simp
  · split
    · simp
    · split
      · rw [TypeRef.dottedNamesOf_applied, harguments, List.flatMap_cons]
      · rw [TypeRef.dottedNamesOf_genericNameWith, List.flatMap_map]
termination_by structural type

theorem flatMap_dottedNamesOf_qualifyAllWith (types : List TypeRef) :
    (scope.qualifyAllWith write types).flatMap dottedNamesOf =
      (scope.shownNamesOf types).flatMap fun name => dottedNamesOf (write name) := by
  cases types with
  | nil => rfl
  | cons type rest =>
    rw [qualifyAllWith, shownNamesOf, List.flatMap_cons, List.flatMap_append,
      TypeRef.dottedNamesOf_brackets, dottedNamesOf_qualifyWith type,
      flatMap_dottedNamesOf_qualifyAllWith rest]
termination_by structural types

end

end Scope

namespace Rendering

/-- The names that a reference is written with, from left to right: the names of its qualified form
with the bounds of its arguments put in, or its qualified name if its arguments are left out, or
what a bare reference is written as. -/
def writtenNames (rendering : Rendering) (scope : Scope) (type : TypeRef) : List String :=
  if type.isParameterized then
    if keepsArguments scope type then
      (scope.shownNames type).map (mapWhole (boundArguments scope type.arguments))
    else [type.qualifiedName]
  else [rendering.renderBare scope type]

variable {scope : Scope} {type : TypeRef}

/-- No dotted name of a rendered type is put together from two of the names it is written with. -/
theorem dottedNames_renderFull (hruns : BoundNamesAreRuns scope type.arguments)
    (rendering : Rendering) (varargs : Bool) :
    dottedNamesOf (rendering.renderFull scope type varargs) =
      (rendering.writtenNames scope type).flatMap dottedNamesOf := by
  rw [renderFull, TypeRef.ite_eq_brackets, TypeRef.dottedNamesOf_brackets,
    TypeRef.dottedNamesOf_brackets, writtenNames]
  split
  · rw [renderApplied_eq]
    split
    · rw [boundArguments_eq_mapWhole hruns, Scope.mapWhole_qualify, Scope.dottedNamesOf_qualifyWith,
        List.flatMap_map]
    · simp
  · simp

/-- A rendered type is the text in front of the last step without the packages of types, each at the
beginning of a dotted name, just if the implicit package stands nowhere else in any dotted name of
the text.  These are the dotted names of the names that the reference is written with. -/
theorem render_eq_dropFromTypes_iff (rendering : Rendering) (scope : Scope) (type : TypeRef)
    (varargs : Bool) :
    let full := rendering.renderFull scope type varargs
    (rendering.render scope type varargs = Name.dropFromTypes full ↔
        ∀ name ∈ dottedNamesOf full, HoldsPackageOfType name) ∧
      (BoundNamesAreRuns scope type.arguments →
        dottedNamesOf full = (rendering.writtenNames scope type).flatMap dottedNamesOf) := by
  intro full
  constructor
  · exact Name.dropImplicitPackage_eq_dropFromTypes_iff full
  · intro hruns
    exact dottedNames_renderFull hruns rendering varargs

/-- `Map<T, Comparable<String>>`. -/
def mapOfComparables : TypeRef :=
  { name := "Map"
    qualifiedName := "java.util.Map"
    arguments := [.simple "T" "T",
      { name := "Comparable"
        qualifiedName := "java.lang.Comparable"
        arguments := [.simple "String" "java.lang.String"] }] }

/-- The implicit package is left out twice, inside of an argument too. -/
theorem render_eq_dropFromTypes_mapOfComparables :
    render {} twoVariables mapOfComparables false =
        Name.dropFromTypes (renderFull {} twoVariables mapOfComparables false) ∧
      Name.dropFromTypes (renderFull {} twoVariables mapOfComparables false) =
        "java.util.Map<com.acme.Foo, Comparable<String>>" := by
  obtain ⟨hiff, hnames⟩ := render_eq_dropFromTypes_iff {} twoVariables mapOfComparables false
  have hwritten : writtenNames {} twoVariables mapOfComparables =
      ["java.util.Map", "com.acme.Foo", "java.lang.Comparable", "java.lang.String"] := by
    decide +kernel
  refine ⟨hiff.mpr ?_, by decide +kernel⟩
  rw [hnames (by decide +kernel), hwritten]
  decide +kernel

/-- A class that imports a type from a package whose name ends with the implicit one. -/
def toolScope : Scope :=
  let user : Declaration :=
    { name := "User"
      qualifiedName := "com.acme.User"
      imports := { package := some "com.acme", imports := ["com.java.lang.Tool"] } }
  { root := user, lexical := user, method := { name := "m" } }

/-- Names of other packages can lose a part of them. -/
theorem exists_render_ne_dropFromTypes :
    ¬∀ (rendering : Rendering) (scope : Scope) (type : TypeRef) (varargs : Bool),
      rendering.render scope type varargs =
        Name.dropFromTypes (rendering.renderFull scope type varargs) := by
  intro h
  have htool := h {} toolScope (.simple "Tool" "com.java.lang.Tool") false
  have hrendered : render {} toolScope (.simple "Tool" "com.java.lang.Tool") false = "com.Tool" := by
    decide +kernel
  have hmeant :
      Name.dropFromTypes (renderFull {} toolScope (.simple "Tool" "com.java.lang.Tool") false) =
        "com.java.lang.Tool" := by
    decide +kernel
  rw [hrendered, hmeant] at htool
  exact absurd htool (by decide)

end Rendering

end JavaSignatures
