import JavaSignatures.Declaration
import JavaSignatures.Source.TypeExpr

set_option autoImplicit false

/-!
# Source text: heads of declarations

The head of a statement tells what is declared: a type, a method or a constructor, or something
that has no part in signatures.  A head is read as far as signatures need it: modifiers, type
variables, result type, name and parameters.
-/

namespace JavaSignatures.Source

/-! ## Modifiers -/

/-- The keywords and annotations in front of a declaration. -/
structure Modifiers where
  words : List String := []
  /-- the comments between them -/
  comments : List String := []
  deriving DecidableEq, Repr, Inhabited

namespace Modifiers

/-- The keywords that modify a declaration. -/
def keywords : List String :=
  ["public", "protected", "private", "abstract", "static", "final", "strictfp", "default",
    "synchronized", "native", "transient", "volatile", "sealed", "non-sealed"]

/-- The piece is a modifier. -/
def isModifier (piece : Piece) : Bool :=
  piece.isAnnotation || piece.isWord && keywords.contains piece.text

/-- The modifiers of a row of pieces. -/
def ofPieces (pieces : List Piece) : Modifiers where
  words := (pieces.filter Piece.isWord).map Piece.text
  comments := pieces.tail.flatMap Piece.comments

/-- The modifiers that a row begins with, and the rest of the row. -/
def split (pieces : List Piece) : Modifiers × List Piece :=
  (ofPieces (pieces.takeWhile isModifier), pieces.dropWhile isModifier)

/-- The access that the modifiers declare; the first keyword for it counts. -/
def visibility (modifiers : Modifiers) : Visibility :=
  (modifiers.words.findSome? fun word =>
    match word with
    | "public" => some Visibility.publicAccess
    | "protected" => some .protectedAccess
    | "private" => some .privateAccess
    | _ => none).getD .packageAccess

/-- The modifiers make the declaration static. -/
def isStatic (modifiers : Modifiers) : Bool := modifiers.words.contains "static"

end Modifiers

/-! ## Parameters -/

/-- A parameter as it is written. -/
structure ParameterExpr where
  name : String
  type : TypeExpr
  varargs : Bool := false
  deriving BEq, Repr, Inhabited

namespace ParameterExpr

/-- A parameter of any number of arguments: the type in front of the dots and what is behind them.
A comment between modifiers and type takes the place of the type. -/
def ofSpread? (hasModifiers : Bool) (type declarator : List Piece) : Option ParameterExpr := do
  let name ← (declarator.dropWhile Piece.isAnnotation).head?
  let comment? := if hasModifiers then (type.head?.map Piece.comments).bind List.head? else none
  let type ← (comment?.map TypeExpr.verbatim).or (TypeExpr.ofPieces? type)
  if name.isWord then some { name := name.text, type := type, varargs := true } else none

/-- A parameter of one argument; brackets may follow its name.  The receiver `this` is none. -/
def ofSingle? (pieces : List Piece) : Option ParameterExpr :=
  let behindName (piece : Piece) : Bool := piece.isBrackets || piece.isAnnotation
  let dimensions := (pieces.reverse.takeWhile behindName).countP Piece.isBrackets
  match pieces.reverse.dropWhile behindName with
  | [] => none
  | name :: type =>
    if name.isWord && !name.isKeyword "this" then
      (TypeExpr.ofPieces? type.reverse).map fun type =>
        { name := name.text, type := type.withDimensions dimensions }
    else none

/-- The parameter that a row of pieces is. -/
def ofPieces? (pieces : List Piece) : Option ParameterExpr :=
  let rest := pieces.dropWhile Modifiers.isModifier
  let notDots (piece : Piece) : Bool := !piece.isSymbol "..."
  match rest.dropWhile notDots with
  | _ :: declarator =>
    ofSpread? (rest.length < pieces.length) (rest.takeWhile notDots) declarator
  | [] => ofSingle? rest

/-- The parameters between the parentheses of a head. -/
def listOfTrees (trees : List Tree) : List ParameterExpr :=
  (Piece.parts (Piece.isSymbol · ",") (Piece.ofTrees trees)).filterMap ofPieces?

end ParameterExpr

/-! ## Heads -/

/-- The head of a method or constructor. -/
structure MethodHead where
  /-- missing for a constructor, which is named like its declaration -/
  name : Option String
  result : TypeExpr
  typeVariables : List VariableExpr := []
  parameters : List ParameterExpr := []
  visibility : Visibility := .packageAccess
  comment : Option String := none
  deriving BEq, Repr, Inhabited

/-- The head of a type declaration. -/
structure TypeHead where
  kind : DeclarationKind
  name : String
  typeVariables : List VariableExpr := []
  visibility : Visibility := .packageAccess
  isStatic : Bool := false
  comment : Option String := none
  deriving BEq, Repr, Inhabited

/-- What a head declares. -/
inductive Head where
  | method (head : MethodHead)
  | type (head : TypeHead)
  | other
  deriving Repr, Inhabited

namespace Head

/-- The comment documents what it belongs to. -/
def isDocComment (comment : String) : Bool := "/**".toList.isPrefixOf comment.toList

/-- The documentation of a declaration: a comment among its modifiers, or the one right before
it. -/
def docComment (before : List String) (modifiers : Modifiers) : Option String :=
  (modifiers.comments.find? isDocComment).or (before.getLast?.filter isDocComment)

/-- The list of type variables that a row may begin with, and what follows it. -/
def leadingVariables (pieces : List Piece) : List VariableExpr × List Piece :=
  match pieces with
  | ⟨_, .angles _ introduced⟩ :: rest => (introduced, rest)
  | _ => ([], pieces)

/-- The kind of type declaration that a keyword begins. -/
def kind? (piece : Piece) : Option DeclarationKind :=
  if !piece.isWord then none
  else
    match piece.text with
    | "class" => some .classKind
    | "interface" => some .interfaceKind
    | "enum" => some .enumKind
    | "record" => some .recordKind
    | _ => none

/-- A row behind the modifiers as the head of a type declaration. -/
def typeHead? (comment : Option String) (modifiers : Modifiers) (pieces : List Piece) :
    Option TypeHead :=
  match pieces with
  | keyword :: name :: rest =>
    match kind? keyword with
    | some kind =>
      if name.isWord then
        some
          { kind := kind
            name := name.text
            typeVariables := (leadingVariables rest).1
            visibility := modifiers.visibility
            isStatic := modifiers.isStatic
            comment := comment }
      else none
    | none => none
  | _ => none

/-- What stands in front of the first parentheses of a row, what is between them and what follows
them. -/
def cutAtParens? : List Piece → Option (List Piece × List Tree × List Piece)
  | [] => none
  | ⟨_, .parens inner⟩ :: rest => some ([], inner, rest)
  | piece :: rest =>
    (cutAtParens? rest).map fun (before, inner, after) => (piece :: before, inner, after)

/-- A row behind the modifiers as the head of a method or, if the statement has a block, of a
constructor.  The constructor of a record may leave its parameters out. -/
def methodHead? (hasBlock : Bool) (comment : Option String) (modifiers : Modifiers)
    (pieces : List Piece) : Option MethodHead :=
  let (introduced, rest) := leadingVariables pieces
  let head : MethodHead :=
    { name := none
      result := .verbatim ""
      typeVariables := introduced
      visibility := modifiers.visibility
      comment := comment }
  match cutAtParens? rest with
  | none =>
    match rest with
    | [name] => if hasBlock && introduced.isEmpty && name.isWord then some head else none
    | _ => none
  | some (before, inner, after) =>
    match before.getLast? with
    | none => none
    | some name =>
      let parameters := ParameterExpr.listOfTrees inner
      let type := before.dropLast
      if !name.isWord then none
      else if type.isEmpty then
        if hasBlock then some { head with parameters := parameters } else none
      else
        let behind := after.takeWhile fun piece => piece.isBrackets || piece.isAnnotation
        (TypeExpr.ofPieces? type).map fun type =>
          { head with
            name := some name.text
            result := type.withDimensions (behind.countP Piece.isBrackets)
            parameters := parameters }

/-- What the head of a statement declares. -/
def ofTrees (hasBlock : Bool) (trees : List Tree) : Head :=
  let pieces := Piece.ofTrees trees
  let (modifiers, rest) := Modifiers.split pieces
  let comment := docComment ((pieces.head?.map Piece.comments).getD []) modifiers
  match if hasBlock then typeHead? comment modifiers rest else none with
  | some head => .type head
  | none =>
    match methodHead? hasBlock comment modifiers rest with
    | some head => .method head
    | none => .other

end Head

end JavaSignatures.Source
