import JavaSignatures.Name
import JavaSignatures.Source.Tree

set_option autoImplicit false

/-!
# Source text: types

Types as they are written in the head of a declaration, before any name is looked up.  The head is
first read as a row of pieces (`Piece`): words, annotations, brackets and lists in angle brackets,
the latter with the types or type variables in them already read.

A comment inside a type can take the place of a part of it: one between a generic type and its
arguments replaces the name of the type, and one inside a bound is a bound.
-/

namespace JavaSignatures.Source

/-- A type as it is written. -/
inductive TypeExpr where
  /-- a name, simple or dotted -/
  | name (text : String)
  /-- a text that is kept as it is: a wildcard or a comment -/
  | verbatim (text : String)
  | applied (base : TypeExpr) (arguments : List TypeExpr)
  | array (element : TypeExpr) (dimensions : Nat)
  deriving BEq, Repr, Inhabited

/-- A type variable where it is introduced. -/
structure VariableExpr where
  name : String
  bounds : List TypeExpr := []
  deriving BEq, Repr, Inhabited

/-- What a piece of a head is. -/
inductive Shape where
  | word
  | annotationMark
  /-- a pair of square brackets -/
  | brackets
  | parens (inner : List Tree)
  /-- a list in angle brackets, read as types and as type variables -/
  | angles (types : List TypeExpr) (introduced : List VariableExpr)
  | symbol
  | other
  deriving Repr, Inhabited

/-- A piece of a head: some tokens and what they are. -/
structure Piece where
  tokens : List Token
  shape : Shape
  deriving Repr, Inhabited

namespace Piece

/-- How the piece is spelled. -/
def text (piece : Piece) : String := String.ofList (Token.spell piece.tokens)

/-- The comments in front of the piece. -/
def comments (piece : Piece) : List String :=
  match piece.tokens with
  | [] => []
  | token :: _ => token.comments

/-- The piece is a word. -/
def isWord (piece : Piece) : Bool := piece.shape matches .word

/-- The piece is the given word. -/
def isKeyword (piece : Piece) (keyword : String) : Bool := piece.isWord && piece.text == keyword

/-- The piece is an annotation. -/
def isAnnotation (piece : Piece) : Bool := piece.shape matches .annotationMark

/-- The piece is a pair of square brackets. -/
def isBrackets (piece : Piece) : Bool := piece.shape matches .brackets

/-- The piece is the given symbol. -/
def isSymbol (piece : Piece) (symbol : String) : Bool :=
  piece.shape matches .symbol && piece.text == symbol

/-- The piece can be part of the name of a type, arguments included. -/
def isNamePart (piece : Piece) : Bool :=
  match piece.shape with
  | .word | .annotationMark | .angles .. => true
  | _ => piece.isSymbol "."

/-- How a row of pieces is spelled. -/
def spell (pieces : List Piece) : List Char := Token.spell (pieces.flatMap tokens)

/-- The parts of a row between the separators. -/
def parts (separator : Piece → Bool) : List Piece → List (List Piece)
  | [] => [[]]
  | piece :: rest =>
    if separator piece then [] :: parts separator rest
    else
      match parts separator rest with
      | [] => [[piece]]
      | part :: more => (piece :: part) :: more

/-! ## Annotations -/

/-- The rest of an annotation behind the first word of its name, and what follows it. -/
def annotationTail : List Piece → List Token × List Piece
  | [] => ([], [])
  | [piece] => if piece.shape matches .parens _ then (piece.tokens, []) else ([], [piece])
  | piece :: next :: rest =>
    if piece.shape matches .parens _ then (piece.tokens, next :: rest)
    else if piece.isSymbol "." && next.isWord then
      let (tokens, after) := annotationTail rest
      (piece.tokens ++ next.tokens ++ tokens, after)
    else ([], piece :: next :: rest)

/-- Puts an `@` together with the annotation it begins; the row behind it is joined already. -/
def joinMark (mark : Piece) (rest : List Piece) : List Piece :=
  match rest with
  | [] => [mark]
  | name :: more =>
    if name.isWord && !name.isKeyword "interface" then
      let (tokens, after) := annotationTail more
      ⟨mark.tokens ++ name.tokens ++ tokens, .annotationMark⟩ :: after
    else mark :: rest

/-- Puts the pieces of each annotation together. -/
def joinAnnotations (pieces : List Piece) : List Piece :=
  pieces.foldr
    (fun piece rest => if piece.isSymbol "@" then joinMark piece rest else piece :: rest) []

end Piece

/-! ## Reading types -/

namespace TypeExpr

/-- No two words stand side by side, as they never do in the name of a type. -/
def isNameRow : List Piece → Bool
  | piece :: next :: rest => !(piece.isWord && next.isWord) && isNameRow (next :: rest)
  | _ => true

/-- The type that a row of name parts names: with arguments if it ends with a list of them. -/
def ofNameRow (row : List Piece) : TypeExpr :=
  match row.getLast? with
  | some ⟨tokens, .angles types _⟩ =>
    let base :=
      match (Piece.comments ⟨tokens, .other⟩).getLast? with
      | some comment => .verbatim comment
      | none => .name (Name.withoutBlanks (Piece.spell row.dropLast))
    .applied base types
  | _ => .name (Name.withoutBlanks (Piece.spell row))

/-- The type with further pairs of brackets. -/
def withDimensions (type : TypeExpr) (dimensions : Nat) : TypeExpr :=
  if dimensions == 0 then type else .array type dimensions

/-- The type that a whole row of pieces is, annotations in front of it included. -/
def ofPieces? (pieces : List Piece) : Option TypeExpr :=
  match pieces.dropWhile Piece.isAnnotation with
  | [] => none
  | first :: rest =>
    if first.isSymbol "?" then some (.verbatim (String.ofList (Piece.spell pieces)))
    else
      let row := first :: rest
      let named := (row.takeWhile Piece.isNamePart).reverse.dropWhile Piece.isAnnotation
      let suffix := row.drop named.length
      if first.isWord && isNameRow named &&
          suffix.all fun piece => piece.isBrackets || piece.isAnnotation then
        some ((ofNameRow named.reverse).withDimensions (suffix.countP Piece.isBrackets))
      else none

/-- The types of a list with commas. -/
def listOfPieces (pieces : List Piece) : List TypeExpr :=
  (Piece.parts (Piece.isSymbol · ",") pieces).filterMap ofPieces?

/-- The bounds that stand behind `extends`.  The comments between them are bounds too. -/
def boundsOfPieces (pieces : List Piece) : List TypeExpr :=
  let part (pieces : List Piece) : List TypeExpr :=
    match pieces with
    | [] => []
    | first :: _ => first.comments.map .verbatim ++ (ofPieces? pieces).toList
  let separators := (pieces.filter (Piece.isSymbol · "&")).map fun piece =>
    piece.comments.map TypeExpr.verbatim
  match (Piece.parts (Piece.isSymbol · "&") pieces).map part with
  | [] => []
  | first :: more => first ++ (List.zipWith (· ++ ·) separators more).flatten

end TypeExpr

namespace VariableExpr

/-- The type variable that a row of pieces introduces. -/
def ofPieces? (pieces : List Piece) : Option VariableExpr :=
  match pieces.dropWhile Piece.isAnnotation with
  | name :: rest =>
    if name.isWord then
      some
        { name := name.text
          bounds :=
            match rest with
            | keyword :: bounds =>
              if keyword.isKeyword "extends" then TypeExpr.boundsOfPieces bounds else []
            | [] => [] }
    else none
  | [] => none

/-- The type variables of a list with commas. -/
def listOfPieces (pieces : List Piece) : List VariableExpr :=
  (Piece.parts (Piece.isSymbol · ",") pieces).filterMap ofPieces?

end VariableExpr

namespace Piece

mutual

/-- The piece that a tree is by itself. -/
def ofTree (tree : Tree) : Piece :=
  match tree with
  | .leaf token =>
    ⟨[token], match token.lexeme.kind with
      | .word => .word
      | .symbol => .symbol
      | _ => .other⟩
  | .group opening inner closing =>
    let tokens := Tree.tokens (.group opening inner closing)
    if opening.isSymbol '<' then
      let pieces := joinAnnotations (ofTreesApart inner)
      ⟨tokens, .angles (TypeExpr.listOfPieces pieces) (VariableExpr.listOfPieces pieces)⟩
    else if opening.isSymbol '(' then ⟨tokens, .parens inner⟩
    else if opening.isSymbol '[' then ⟨tokens, .brackets⟩
    else ⟨tokens, .other⟩
termination_by structural tree

/-- The pieces that trees are one by one. -/
def ofTreesApart (trees : List Tree) : List Piece :=
  match trees with
  | [] => []
  | tree :: rest => ofTree tree :: ofTreesApart rest
termination_by structural trees

end

/-- The pieces of the head of a declaration. -/
def ofTrees (trees : List Tree) : List Piece :=
  joinAnnotations (ofTreesApart (Tree.groupAngles trees))

theorem ofTreesApart_eq_map (trees : List Tree) : ofTreesApart trees = trees.map ofTree := by
  induction trees with
  | nil => rfl
  | cons tree rest ih => simp [ofTreesApart, ih]

end Piece

end JavaSignatures.Source
