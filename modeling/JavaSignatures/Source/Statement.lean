import JavaSignatures.Source.Tree

set_option autoImplicit false

/-!
# Source text: statements

The trees of a file, or of the body of a declaration, cut into statements: stretches that end at a
semicolon or with a block in braces.  Braces behind an equals sign are no block, since they belong
to the initial value of a field.  What stands behind the last end is no statement.
-/

namespace JavaSignatures.Source

/-- A stretch of trees up to its end, and the statements of the block that ends it. -/
inductive Statement where
  | plain (head : List Tree)
  | block (head : List Tree) (body : List Statement)
  deriving Repr, Inhabited

namespace Statement

/-- The token ends a statement: a semicolon, or a closing bracket that closes nothing. -/
def endsAt (token : Token) : Bool :=
  token.isSymbol ';' || (Brackets.nesting.closed? token).isSome

/-- The head of a statement that gives a field its initial value. -/
def isAssignment (head : List Tree) : Bool := head.any fun tree => tree.isSymbol '='

/-- The tree is a block behind a head: braces that are no initial value. -/
def isBlock (head : List Tree) : Tree → Bool
  | .leaf _ => false
  | .group opening _ _ => opening.isSymbol '{' && !isAssignment head

/-- The tree ends a statement without a block. -/
def isEnd : Tree → Bool
  | .leaf token => endsAt token
  | .group .. => false

mutual

/-- The statements inside a group. -/
def inside (tree : Tree) : List Statement :=
  match tree with
  | .leaf _ => []
  | .group _ inner _ => ofTreesAfter [] inner
termination_by structural tree

/-- The statements of trees behind the trees `head` of an unfinished one, the last one first. -/
def ofTreesAfter (head : List Tree) (trees : List Tree) : List Statement :=
  match trees with
  | [] => []
  | tree :: rest =>
    if isEnd tree then .plain head.reverse :: ofTreesAfter [] rest
    else if isBlock head tree then .block head.reverse (inside tree) :: ofTreesAfter [] rest
    else ofTreesAfter (tree :: head) rest
termination_by structural trees

end

/-- The statements of trees. -/
def ofTrees (trees : List Tree) : List Statement := ofTreesAfter [] trees

/-- The statements of a source text. -/
def ofSource (source : List Char) : List Statement :=
  ofTrees (Tree.ofTokens (Token.ofSource source))

end Statement

end JavaSignatures.Source
