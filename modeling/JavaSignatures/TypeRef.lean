import JavaSignatures.Text

set_option autoImplicit false

/-!
# References to types

A reference as it stands in a declaration, together with the qualified form of its name, and the
type variables that declarations and methods introduce.
-/

namespace JavaSignatures

/-- A reference to a type. -/
structure TypeRef where
  /-- the name as written, without arguments and brackets -/
  name : String := ""
  /-- the name as the imports of the file qualify it -/
  qualifiedName : String := ""
  arguments : List TypeRef := []
  /-- the number of bracket pairs -/
  dimensions : Nat := 0
  varargs : Bool := false
  deriving BEq, Repr, Inhabited

namespace TypeRef

/-- As many pairs of brackets. -/
def brackets : Nat → String
  | 0 => ""
  | n + 1 => "[]" ++ brackets n

/-- A name with its arguments in angle brackets. -/
def applied (name : String) (arguments : List String) : String :=
  name ++ "<" ++ ", ".intercalate arguments ++ ">"

/-- The reference to a type that is a plain name. -/
def simple (name qualifiedName : String) : TypeRef :=
  { name := name, qualifiedName := qualifiedName }

/-- The reference to no type at all. -/
def void : TypeRef := simple "void" "void"

/-- The reference has type arguments. -/
def isParameterized (type : TypeRef) : Bool := !type.arguments.isEmpty

mutual

/-- The qualified name with all arguments, brackets of the arguments included. -/
def genericName (type : TypeRef) : String :=
  match type with
  | ⟨_, qualifiedName, arguments, _, _⟩ =>
    if arguments.isEmpty then qualifiedName else applied qualifiedName (genericNames arguments)
termination_by structural type

/-- The qualified names of arguments. -/
def genericNames (types : List TypeRef) : List String :=
  match types with
  | [] => []
  | type :: rest => (genericName type ++ brackets type.dimensions) :: genericNames rest
termination_by structural types

end

end TypeRef

/-- A type variable such as `T extends Foo`. -/
structure TypeVariable where
  name : String
  bounds : List TypeRef := []
  deriving BEq, Repr, Inhabited

namespace TypeVariable

/-- The first variable of the list that has the name. -/
def find? (candidates : List TypeVariable) (name : String) : Option TypeVariable :=
  candidates.find? fun candidate => candidate.name == name

/-- The qualified name of the first bound that is not the variable itself.  A bound that is another
type variable counts. -/
def usableBound? (typeVariable : TypeVariable) : Option String :=
  (typeVariable.bounds.map TypeRef.qualifiedName).find? fun bound => bound != typeVariable.name

theorem name_of_find? {candidates : List TypeVariable} {name : String} {found : TypeVariable}
    (h : find? candidates name = some found) : found.name = name := by
  simpa using List.find?_some h

end TypeVariable

end JavaSignatures
