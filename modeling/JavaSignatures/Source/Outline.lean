import JavaSignatures.Source.Head
import JavaSignatures.Source.Statement

set_option autoImplicit false

/-!
# Source text: outlines

What a source file declares, with all names as they are written: its package, its imports of single
types and its type declarations with their methods and nested declarations.  Bodies of methods and
initial values of fields are not part of it.
-/

namespace JavaSignatures.Source

/-- A type declaration with what it declares itself. -/
structure Outline where
  head : TypeHead
  /-- the methods and constructors in order -/
  methods : List MethodHead := []
  /-- the nested type declarations in order -/
  nested : List Outline := []
  deriving Repr, Inhabited

namespace Outline

/-- The statement ends with a block. -/
def endsInBlock : Statement → Bool
  | .plain _ => false
  | .block .. => true

/-- The statements of a body that declare members.  Those of an enum stand behind its constants,
which end at the first semicolon. -/
def members (kind : DeclarationKind) (body : List Statement) : List Statement :=
  if kind == .enumKind then (body.dropWhile endsInBlock).tail else body

/-- The method or constructor that a statement declares. -/
def method? : Statement → Option MethodHead
  | .plain head =>
    match Head.ofTrees false head with
    | .method head => some head
    | _ => none
  | .block head _ =>
    match Head.ofTrees true head with
    | .method head => some head
    | _ => none

mutual

/-- The type declaration that a statement is. -/
def ofStatement? (statement : Statement) : Option Outline :=
  match statement with
  | .plain _ => none
  | .block head body =>
    match Head.ofTrees true head with
    | .type head =>
      some
        { head := head
          methods := (members head.kind body).filterMap method?
          nested := ofStatements (head.kind == .enumKind) body }
    | _ => none
termination_by structural statement

/-- The type declarations among statements; those up to the first semicolon are passed over if they
belong to the constants of an enum. -/
def ofStatements (constants : Bool) (statements : List Statement) : List Outline :=
  match statements with
  | [] => []
  | statement :: rest =>
    if constants then ofStatements (endsInBlock statement) rest
    else (ofStatement? statement).toList ++ ofStatements false rest
termination_by structural statements

end

theorem ofStatements_false (statements : List Statement) :
    ofStatements false statements = statements.filterMap ofStatement? := by
  induction statements with
  | nil => rfl
  | cons statement rest ih =>
    cases h : ofStatement? statement <;> simp [ofStatements, h, ih]

theorem ofStatements_true (statements : List Statement) :
    ofStatements true statements =
      ofStatements false (statements.dropWhile endsInBlock).tail := by
  induction statements with
  | nil => rfl
  | cons statement rest ih =>
    cases h : endsInBlock statement <;> simp [ofStatements, h, ih]

end Outline

/-- What a source file declares. -/
structure SourceFile where
  package : Option String := none
  imports : List String := []
  declarations : List Outline := []
  deriving Repr, Inhabited

namespace SourceFile

/-- How the pieces of a name are spelled, if there are any. -/
def spelled? (pieces : List Piece) : Option String :=
  if pieces.isEmpty then none else some (String.ofList (Piece.spell pieces))

/-- The package that a statement names. -/
def package? : Statement → Option String
  | .block .. => none
  | .plain head =>
    match (Piece.ofTrees head).dropWhile Piece.isAnnotation with
    | [] => none
    | keyword :: name => if keyword.isKeyword "package" then spelled? name else none

/-- The single type that a statement imports.  Imports of members, and of all types of a package,
are none. -/
def import? : Statement → Option String
  | .block .. => none
  | .plain head =>
    match Piece.ofTrees head with
    | [] => none
    | keyword :: name =>
      if keyword.isKeyword "import" && !name.head?.any (Piece.isKeyword · "static") &&
          !name.any (Piece.isSymbol · "*") then
        spelled? name
      else none

/-- What a source text declares. -/
def ofSource (source : List Char) : SourceFile :=
  let statements := Statement.ofSource source
  { package := statements.findSome? package?
    imports := statements.filterMap import?
    declarations := Outline.ofStatements false statements }

/-- The declaration that a file is about: the first public one, or else the first one. -/
def main? (file : SourceFile) : Option Outline :=
  (file.declarations.find? fun outline => outline.head.visibility == .publicAccess).or
    file.declarations.head?

end SourceFile

end JavaSignatures.Source
