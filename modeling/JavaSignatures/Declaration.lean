import JavaSignatures.Comment.Block
import JavaSignatures.Import
import JavaSignatures.TypeRef

set_option autoImplicit false

/-!
# Declarations

The declarations of one source file as the signatures are made from them: classes, interfaces,
enums and records with their methods and the declarations nested in them.
-/

namespace JavaSignatures

/-- The kinds of type declarations. -/
inductive DeclarationKind where
  | classKind
  | interfaceKind
  | enumKind
  | recordKind
  deriving DecidableEq, Repr, Inhabited

/-- The declared access to a method; a method without a keyword has package access. -/
inductive Visibility where
  | publicAccess
  | protectedAccess
  | privateAccess
  | packageAccess
  deriving DecidableEq, Repr, Inhabited

/-- A parameter of a method. -/
structure Parameter where
  name : String
  type : TypeRef := {}
  /-- the parameter takes any number of arguments -/
  varargs : Bool := false
  deriving BEq, Repr, Inhabited

/-- A method or a constructor. -/
structure Method where
  name : String
  /-- without a name for a constructor -/
  returnType : TypeRef := {}
  parameters : List Parameter := []
  isConstructor : Bool := false
  visibility : Visibility := .packageAccess
  comment : Option DocComment := none
  typeVariables : List TypeVariable := []
  deriving BEq, Repr, Inhabited

namespace Method

/-- The type variable of the method with the name. -/
def typeVariable? (method : Method) (name : String) : Option TypeVariable :=
  TypeVariable.find? method.typeVariables name

/-- The values of the tags that describe parameters. -/
def parameterTags (method : Method) : List String :=
  match method.comment with
  | none => []
  | some comment => comment.tagValues "@param"

end Method

namespace DeclarationKind

/-- Whether a method of a declaration of this kind has a signature.  A constructor has none; a
method of an interface is public without saying so. -/
def accepts (kind : DeclarationKind) (method : Method) : Bool :=
  !method.isConstructor && (kind == .interfaceKind || method.visibility == .publicAccess)

end DeclarationKind

/-- A type declaration. -/
structure Declaration where
  name : String
  /-- the package and the names of the enclosing declarations, joined by periods -/
  qualifiedName : String
  kind : DeclarationKind := .classKind
  nested : List Declaration := []
  typeVariables : List TypeVariable := []
  /-- the type variables of the enclosing declarations, outermost first -/
  enclosingTypeVariables : List TypeVariable := []
  methods : List Method := []
  comment : Option DocComment := none
  imports : ImportScope := {}
  deriving Repr, Inhabited

namespace Declaration

/-- The nested declaration with the simple name. -/
def nested? (declaration : Declaration) (name : String) : Option Declaration :=
  declaration.nested.find? fun inner => inner.name == name

/-- The declaration has a nested one with the simple name. -/
def hasNested (declaration : Declaration) (name : String) : Bool :=
  (declaration.nested? name).isSome

/-- The type variable that the name means in the declaration; its own variables come before those
of the enclosing declarations, and of these the innermost come first. -/
def typeVariable? (declaration : Declaration) (name : String) : Option TypeVariable :=
  TypeVariable.find? (declaration.typeVariables ++ declaration.enclosingTypeVariables.reverse) name

/-- Follows simple names inwards. -/
def descend? : Declaration → List String → Option Declaration
  | declaration, [] => some declaration
  | declaration, name :: names => (declaration.nested? name).bind fun inner => inner.descend? names

/-- The non-empty names of a path with `$` between them. -/
def pathNames (path : String) : List String :=
  ((path.toList.splitOn '$').filter fun part => !part.isEmpty).map String.ofList

/-- The nested declaration that a path with `$` between the names leads to.  The path may begin with
the name of the declaration itself, unless a nested one has that name. -/
def find? (declaration : Declaration) (path : String) : Option Declaration :=
  match pathNames path with
  | [] => none
  | [name] => declaration.nested? name
  | first :: second :: names =>
    if first == declaration.name && !declaration.hasNested first then
      declaration.descend? (second :: names)
    else declaration.descend? (first :: second :: names)

theorem descend?_cons (declaration : Declaration) (name : String) (names : List String) :
    declaration.descend? (name :: names) =
      (declaration.nested? name).bind fun inner => inner.descend? names := rfl

theorem descend?_append (declaration : Declaration) (outer inner : List String) :
    declaration.descend? (outer ++ inner) =
      (declaration.descend? outer).bind fun middle => middle.descend? inner := by
  induction outer generalizing declaration with
  | nil => rfl
  | cons name names ih =>
    simp only [List.cons_append, descend?_cons, Option.bind_assoc]
    congr 1
    funext middle
    exact ih middle

end Declaration

end JavaSignatures
