import JavaSignatures.Declaration

set_option autoImplicit false

/-!
# Scopes

What a name means at a method: which type variable, or else which qualified name.  Three places are
looked at, the method, the declaration it stands in and the outermost declaration of the file.  A
nested declaration is written with `$` behind the one around it.
-/

namespace JavaSignatures

/-- The qualified form of a name inside a nested declaration of `owner`. -/
def Declaration.member (owner : Declaration) (name : String) : String :=
  owner.qualifiedName ++ "$" ++ name

/-- The places in which a name is looked up. -/
structure Scope where
  /-- the outermost declaration of the file -/
  root : Declaration
  /-- the declaration that the method stands in -/
  lexical : Declaration
  method : Method
  deriving Repr, Inhabited

namespace Scope

/-- The type variable that a name means; those of the method come first. -/
def typeVariable? (scope : Scope) (name : String) : Option TypeVariable :=
  (scope.method.typeVariable? name).or (scope.lexical.typeVariable? name)

/-- The name means a type variable. -/
def isVariable (scope : Scope) (name : String) : Bool := (scope.typeVariable? name).isSome

/-- The name means a type variable that has bounds. -/
def isBounded (scope : Scope) (name : String) : Bool :=
  (scope.typeVariable? name).any fun found => !found.bounds.isEmpty

/-- The bound that stands for the type variable of the name, if it has a usable one. -/
def bound? (scope : Scope) (name : String) : Option String :=
  (scope.typeVariable? name).bind TypeVariable.usableBound?

/-- The outermost declaration, or else the one around the method, that has a nested declaration of
the name. -/
def ownerOf? (scope : Scope) (name : String) : Option Declaration :=
  if scope.root.hasNested name then some scope.root
  else if scope.lexical.hasNested name then some scope.lexical
  else none

/-- The qualified form of a dotted name that begins with a type: `first` and what follows its first
period. -/
def qualifyPath (scope : Scope) (first rest : String) : String :=
  match scope.ownerOf? first with
  | some owner => owner.member (Name.nestedForm (first ++ "." ++ rest))
  | none =>
    match if first == scope.root.name then scope.ownerOf? rest else none with
    | some owner => owner.member (Name.nestedForm rest)
    | none => scope.root.imports.resolve first ++ "$" ++ rest

/-- The qualified form of a simple name, or of a dotted one that begins with a package. -/
def qualifySimple (scope : Scope) (name : String) : String :=
  let found := scope.lexical.imports.resolve name
  if found == name then scope.root.imports.resolve name else found

/-- The qualified form of a name that is no type variable. -/
def qualifyName (scope : Scope) (name : String) : String :=
  if name == "void" then name
  else
    match scope.ownerOf? name with
    | some owner => owner.member name
    | none =>
      match if Name.isCapitalized name then Name.splitFirst? name else none with
      | some (first, rest) => scope.qualifyPath first rest
      | none => scope.qualifySimple name

mutual

/-- The qualified form of a reference with its arguments; type variables keep their names.  The
brackets of the reference itself are left out. -/
def qualify (scope : Scope) (type : TypeRef) : String :=
  match type with
  | ⟨name, qualifiedName, arguments, dimensions, varargs⟩ =>
    if scope.isVariable name then name
    else if arguments.isEmpty then scope.qualifyName name
    else if dimensions == 0 then
      TypeRef.applied (scope.qualifyName name) (scope.qualifyAll arguments)
    else TypeRef.genericName ⟨name, qualifiedName, arguments, dimensions, varargs⟩
termination_by structural type

/-- The qualified forms of arguments with their brackets. -/
def qualifyAll (scope : Scope) (types : List TypeRef) : List String :=
  match types with
  | [] => []
  | type :: rest =>
    (scope.qualify type ++ TypeRef.brackets type.dimensions) :: scope.qualifyAll rest
termination_by structural types

end

theorem isVariable_of_bound? {scope : Scope} {name bound : String}
    (h : scope.bound? name = some bound) : scope.isVariable name = true := by
  obtain ⟨found, hf, _⟩ := Option.bind_eq_some_iff.mp h
  simp [isVariable, hf]

theorem qualify_of_isVariable {scope : Scope} {type : TypeRef}
    (h : scope.isVariable type.name = true) : scope.qualify type = type.name := by
  obtain ⟨name, qualifiedName, arguments, dimensions, varargs⟩ := type
  simp only at h
  simp [qualify, h]

theorem qualifyAll_eq_map (scope : Scope) (types : List TypeRef) :
    scope.qualifyAll types =
      types.map fun type => scope.qualify type ++ TypeRef.brackets type.dimensions := by
  induction types with
  | nil => rfl
  | cons type rest ih => simp [qualifyAll, ih]

end Scope

end JavaSignatures
