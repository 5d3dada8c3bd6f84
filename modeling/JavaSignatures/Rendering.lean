import JavaSignatures.Scope

set_option autoImplicit false

/-!
# Rendering of types

How a reference to a type is written in a signature.  A bare type variable is kept or replaced by
its bound; type arguments are written only if all of them are usable; brackets follow; the package
that needs no import is left out.
-/

namespace JavaSignatures

/-- How a bare type variable is written. -/
inductive TypeVariableMode where
  /-- its first bound, or the placeholder -/
  | erase
  /-- its own name -/
  | keep
  deriving DecidableEq, Repr, Inhabited

namespace Rendering

/-- What stands for an erased type variable unless a setting says otherwise. -/
def defaultPlaceholder : String := "java.lang.Object"

end Rendering

/-- How types are written. -/
structure Rendering where
  mode : TypeVariableMode := .erase
  /-- stands for an erased type variable without a usable bound -/
  placeholder : String := Rendering.defaultPlaceholder
  deriving DecidableEq, Repr, Inhabited

namespace Rendering

/-- Whether a type argument looks like a real type: one of the language's own packages, or one with
a package whose simple name is not written like a type variable. -/
def isUsableArgument (argument : TypeRef) : Bool :=
  "java".toList.isPrefixOf argument.qualifiedName.toList ||
    !Name.isUpperOnly argument.name && argument.qualifiedName.toList.contains '.'

/-- Puts the bounds of the arguments that are bounded type variables in their places, one argument
after the other. -/
def boundArguments (scope : Scope) (arguments : List TypeRef) (text : String) : String :=
  arguments.foldl
    (fun text argument =>
      match scope.bound? argument.name with
      | some bound => Name.substitute argument.name bound text
      | none => text)
    text

/-- A parameterized reference: with its arguments if a bound could be put in, or if no argument is a
bounded variable and all are usable, else without arguments. -/
def renderApplied (scope : Scope) (type : TypeRef) : String :=
  let substituted := type.arguments.any fun argument => (scope.bound? argument.name).isSome
  let bounded := type.arguments.any fun argument => scope.isBounded argument.name
  if substituted || !bounded && type.arguments.all isUsableArgument then
    boundArguments scope type.arguments (scope.qualify type)
  else type.qualifiedName

/-- A reference without type arguments. -/
def renderBare (rendering : Rendering) (scope : Scope) (type : TypeRef) : String :=
  let name := scope.qualify type
  match rendering.mode with
  | .keep => name
  | .erase =>
    if scope.isVariable name then (scope.bound? name).getD rendering.placeholder else name

/-- A reference with the package still in front of types that need no import. -/
def renderFull (rendering : Rendering) (scope : Scope) (type : TypeRef) (varargs : Bool) : String :=
  (if type.isParameterized then renderApplied scope type else rendering.renderBare scope type) ++
    TypeRef.brackets type.dimensions ++ if varargs || type.varargs then "[]" else ""

/-- A reference as it is written in a signature; a parameter of any number of arguments gets one
more pair of brackets. -/
def render (rendering : Rendering) (scope : Scope) (type : TypeRef) (varargs : Bool) : String :=
  Name.dropImplicitPackage (rendering.renderFull scope type varargs)

theorem renderBare_keep (placeholder : String) (scope : Scope) (type : TypeRef) :
    renderBare ⟨.keep, placeholder⟩ scope type = scope.qualify type := rfl

end Rendering

end JavaSignatures
