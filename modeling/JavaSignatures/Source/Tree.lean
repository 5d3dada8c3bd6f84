import JavaSignatures.Source.Token

set_option autoImplicit false

/-!
# Source text: bracket trees

Tokens grouped by their brackets.  A bracket that is never closed is closed where the text around
it ends, so that an unfinished file still has a tree.  Parentheses, square brackets and braces are
grouped first (`Tree.ofTokens`); angle brackets are brackets only in the head of a declaration, so
they are grouped there and not in the whole text (`Tree.groupAngles`).
-/

namespace JavaSignatures.Source

/-- A token, or a group between brackets. -/
inductive Tree where
  | leaf (token : Token)
  | group (opening : Token) (inner : List Tree) (closing : Option Token)
  deriving Repr, Inhabited

/-- The pairs of brackets by which a text is grouped. -/
abbrev Brackets := List (Char × Char)

namespace Brackets

/-- The pairs that group a whole text. -/
def nesting : Brackets := [('(', ')'), ('[', ']'), ('{', '}')]

/-- The pair that groups the types in a head. -/
def angles : Brackets := [('<', '>')]

/-- The pair that the token opens. -/
def opened? (brackets : Brackets) (token : Token) : Option (Char × Char) :=
  brackets.find? fun pair => token.isSymbol pair.1

/-- The pair that the token closes. -/
def closed? (brackets : Brackets) (token : Token) : Option (Char × Char) :=
  brackets.find? fun pair => token.isSymbol pair.2

end Brackets

namespace Tree

/-- A group that is still open: its bracket and the trees in front of it, the last one first. -/
structure Frame where
  opening : Token
  before : List Tree
  deriving Repr, Inhabited

/-- Closes the innermost open group; `inner` are its trees, the last one first. -/
def Frame.close (frame : Frame) (inner : List Tree) (closing : Option Token) : List Tree :=
  .group frame.opening inner.reverse closing :: frame.before

/-- Closes the innermost group of the pair, and with it the unclosed groups inside.  Only a brace
closes a group across an open brace. -/
def closePair (pair : Char × Char) (token : Token) :
    List Frame → List Tree → Option (List Frame × List Tree)
  | [], _ => none
  | frame :: frames, inner =>
    if frame.opening.isSymbol pair.1 then some (frames, frame.close inner (some token))
    else if frame.opening.isSymbol '{' then none
    else closePair pair token frames (frame.close inner none)

/-- Closes all open groups at the end of the text. -/
def closeAll : List Frame → List Tree → List Tree
  | [], trees => trees.reverse
  | frame :: frames, inner => closeAll frames (frame.close inner none)

/-- Groups trees by pairs of brackets, inside the open groups `frames` and behind the trees
`before`, the last one first. -/
def groupFrom (brackets : Brackets) (frames : List Frame) (before : List Tree) :
    List Tree → List Tree
  | [] => closeAll frames before
  | .group opening inner closing :: rest =>
    groupFrom brackets frames (.group opening inner closing :: before) rest
  | .leaf token :: rest =>
    match brackets.opened? token with
    | some _ => groupFrom brackets (⟨token, before⟩ :: frames) [] rest
    | none =>
      match (brackets.closed? token).bind fun pair => closePair pair token frames before with
      | some (frames, before) => groupFrom brackets frames before rest
      | none => groupFrom brackets frames (.leaf token :: before) rest

/-- The trees of tokens. -/
def ofTokens (tokens : List Token) : List Tree :=
  groupFrom Brackets.nesting [] [] (tokens.map leaf)

/-- The trees with angle brackets grouped as well. -/
def groupAngles (trees : List Tree) : List Tree := groupFrom Brackets.angles [] [] trees

mutual

/-- The tokens of a tree. -/
def tokens (tree : Tree) : List Token :=
  match tree with
  | .leaf token => [token]
  | .group opening inner closing => opening :: tokensOf inner ++ closing.toList
termination_by structural tree

/-- The tokens of trees. -/
def tokensOf (trees : List Tree) : List Token :=
  match trees with
  | [] => []
  | tree :: rest => tokens tree ++ tokensOf rest
termination_by structural trees

end

/-- The tree is the given symbol. -/
def isSymbol (tree : Tree) (symbol : Char) : Bool :=
  match tree with
  | .leaf token => token.isSymbol symbol
  | .group .. => false

theorem tokensOf_append (first second : List Tree) :
    tokensOf (first ++ second) = tokensOf first ++ tokensOf second := by
  induction first with
  | nil => rfl
  | cons tree rest ih => simp [tokensOf, ih]

theorem tokensOf_map_leaf (tokens : List Token) : tokensOf (tokens.map leaf) = tokens := by
  induction tokens with
  | nil => rfl
  | cons token rest ih => simp [tokensOf, Tree.tokens, ih]

end Tree

end JavaSignatures.Source
