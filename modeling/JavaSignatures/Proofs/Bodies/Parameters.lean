import JavaSignatures.Proofs.Bodies.Annotations

set_option autoImplicit false

/-!
# Heads with parameters

The head of a method, a constructor or a record: its parameters stand in parentheses, and
annotations with arguments can stand among the modifiers of each.  What the head declares does not
depend on those arguments either (`DeclarationHead.ofTrees_bare`).
-/

namespace JavaSignatures.Source

open Lexeme
open JavaSignatures.Source.Tree (tokensOf Nests)
open Canonical (StaysInHead markPiece isSymbol_markPiece)

/-! ## Rows of parameters -/

namespace Piece

/-- A modifier is no symbol. -/
theorem not_isSymbol_of_isModifier {piece : Piece} (h : Modifiers.isModifier piece = true)
    (symbol : String) : piece.isSymbol symbol = false := by
  unfold Modifiers.isModifier isAnnotation isWord at h
  unfold isSymbol
  cases hshape : piece.shape <;> rw [hshape] at h <;> first | rfl | exact absurd h (by simp)

namespace Alike

variable {row other : List Piece}

theorem length_eq (h : Alike row other) : row.length = other.length := by
  induction h with
  | refl => rfl
  | modifier hpiece h ih => rw [List.length_cons, List.length_cons, ih]
  | annotationMark first tokens more h ih => rw [List.length_cons, List.length_cons, ih]

/-- Alike rows are the same parameter. -/
theorem parameter_eq (h : Alike row other) :
    ParameterExpr.ofPieces? row = ParameterExpr.ofPieces? other := by
  unfold ParameterExpr.ofPieces?
  rw [h.behind_modifiers, h.length_eq]

/-- The first parts of alike rows are alike, and the others are the same. -/
theorem parts_alike (h : Alike row other) :
    ∃ part part' more, parts (isSymbol · ",") row = part :: more ∧
      parts (isSymbol · ",") other = part' :: more ∧ Alike part part' := by
  induction h with
  | refl row =>
    cases hparts : parts (isSymbol · ",") row with
    | nil => exact absurd hparts (Canonical.parts_ne_nil _ row)
    | cons part more => exact ⟨part, part, more, rfl, rfl, .refl part⟩
  | modifier hpiece h ih =>
    obtain ⟨part, part', more, hrow, hother, halike⟩ := ih
    have hcomma := not_isSymbol_of_isModifier hpiece ","
    refine ⟨_, _, more, ?_, ?_, .modifier hpiece halike⟩
    · rw [parts, hcomma, hrow]
      rfl
    · rw [parts, hcomma, hother]
      rfl
  | annotationMark first tokens tokens' h ih =>
    obtain ⟨part, part', more, hrow, hother, halike⟩ := ih
    refine ⟨_, _, more, ?_, ?_, .annotationMark first tokens tokens' halike⟩
    · rw [parts, hrow]
      rfl
    · rw [parts, hother]
      rfl

/-- So they are the same parameters. -/
theorem parameters_eq (h : Alike row other) :
    (parts (isSymbol · ",") row).filterMap ParameterExpr.ofPieces? =
      (parts (isSymbol · ",") other).filterMap ParameterExpr.ofPieces? := by
  obtain ⟨part, part', more, hrow, hother, halike⟩ := h.parts_alike
  rw [hrow, hother, List.filterMap_cons, List.filterMap_cons, halike.parameter_eq]

end Alike

end Piece

/-! ## Parameters -/

/-- The parameters of a head; there is a comma behind each one but the last. -/
structure ParameterTexts where
  front : List (AnnotatedHead .fieldHead)
  last : AnnotatedHead .fieldHead

namespace ParameterTexts

/-- How the parameters are written. -/
def text (parameters : ParameterTexts) : List Char :=
  parameters.front.flatMap (fun parameter => parameter.text ++ [',']) ++ parameters.last.text

/-- The trees of the parameters. -/
def trees (parameters : ParameterTexts) : List Tree :=
  parameters.front.flatMap
    (fun parameter => parameter.trees ++ [.leaf (Token.mark parameter.rest.gap ',')]) ++
      parameters.last.trees

/-- The parameters without the arguments of annotations. -/
def bare (parameters : ParameterTexts) : ParameterTexts where
  front := parameters.front.map AnnotatedHead.bare
  last := parameters.last.bare

variable (parameters : ParameterTexts)

theorem readAfter_append_mark {c : Char} (hc : c ∈ stops) (rest : List Char) :
    readAfter [] (parameters.text ++ c :: rest) =
      tokensOf parameters.trees ++ Token.mark parameters.last.rest.gap c :: readAfter [] rest := by
  obtain ⟨front, last⟩ := parameters
  unfold text trees
  induction front with
  | nil => exact last.readAfter_append_mark hc rest
  | cons parameter front ih =>
    rw [List.flatMap_cons, List.flatMap_cons, List.append_assoc, List.append_assoc,
      List.append_assoc, List.append_assoc, List.singleton_append,
      parameter.readAfter_append_mark (by decide), ← List.append_assoc, ih]
    simp [Tree.tokensOf_append, tokensOf, Tree.tokens]

theorem nests : Nests parameters.trees := by
  have hcomma : ∀ gap, Nests [.leaf (Token.mark gap ',')] := fun gap => .leaf rfl rfl
  refine Nests.append (Nests.flatMap fun parameter _ => ?_) parameters.last.nests
  exact parameter.nests.append (hcomma _)

/-- The arguments of annotations are no part of the parameters. -/
theorem listOfTrees_bare :
    ParameterExpr.listOfTrees parameters.bare.trees =
      ParameterExpr.listOfTrees parameters.trees := by
  obtain ⟨front, last⟩ := parameters
  have hparameter : ∀ {place : Position} (parameter : AnnotatedHead place),
      ParameterExpr.listOfTrees parameter.bare.trees =
        ParameterExpr.listOfTrees parameter.trees := by
    intro place parameter
    have halike := parameter.alike_bare []
    rw [List.append_nil, List.append_nil] at halike
    exact halike.parameters_eq.symm
  have hcomma : ∀ gap, Piece.isSymbol (markPiece gap ',') "," = true := by
    intro gap
    rw [isSymbol_markPiece]
    decide
  have hlist : ∀ (parameter : AnnotatedHead .fieldHead) (gap : List Lexeme) (rest : List Tree),
      ParameterExpr.listOfTrees (parameter.trees ++ .leaf (Token.mark gap ',') :: rest) =
        ParameterExpr.listOfTrees parameter.trees ++ ParameterExpr.listOfTrees rest := by
    intro parameter gap rest
    unfold ParameterExpr.listOfTrees
    rw [Piece.ofTrees_append_mark parameter.treeRow gap (by decide),
      Canonical.parts_append _ (hcomma gap), List.filterMap_append]
  induction front with
  | nil => exact hparameter last
  | cons parameter front ih =>
    simp only [trees, bare, List.map_cons, List.flatMap_cons, List.append_assoc,
      List.cons_append, List.nil_append] at ih ⊢
    rw [hlist, hlist parameter, hparameter, ih]

end ParameterTexts

/-! ## Heads behind a name -/

namespace Head

variable {comment : Option String} {modifiers : Modifiers} {inner inner' : List Tree}

/-- The head of a type declaration ends in front of parentheses. -/
theorem typeHead?_parens (row rest : List Piece) (tokens tokens' : List Token) :
    typeHead? comment modifiers (row ++ ⟨tokens, .parens inner⟩ :: rest) =
      typeHead? comment modifiers (row ++ ⟨tokens', .parens inner'⟩ :: rest) := by
  match row with
  | [] => cases rest <;> rfl
  | [keyword] => rfl
  | keyword :: name :: row =>
    unfold typeHead?
    simp only [List.cons_append]
    rw [leadingVariables_append (by simp), leadingVariables_append (by simp)]

/-- The head of a method has the parameters of its first parentheses. -/
theorem methodHead?_parens (hinner : ParameterExpr.listOfTrees inner =
      ParameterExpr.listOfTrees inner') (hasBlock : Bool) (row rest : List Piece)
    (tokens tokens' : List Token) :
    methodHead? hasBlock comment modifiers (row ++ ⟨tokens, .parens inner⟩ :: rest) =
      methodHead? hasBlock comment modifiers (row ++ ⟨tokens', .parens inner'⟩ :: rest) := by
  have hbehind : ∀ (after : List Piece) tokens inner,
      (after ++ ⟨tokens, .parens inner⟩ :: rest).takeWhile
        (fun piece => piece.isBrackets || piece.isAnnotation) =
          after.takeWhile fun piece => piece.isBrackets || piece.isAnnotation :=
    fun after _ _ => takeWhile_append_stop rfl after rest
  unfold methodHead?
  rw [leadingVariables_append (by simp), leadingVariables_append (by simp)]
  dsimp only
  rw [cutAtParens?_append, cutAtParens?_append]
  cases cutAtParens? (leadingVariables row).2 with
  | some cut =>
    obtain ⟨before, first, after⟩ := cut
    dsimp only
    rw [hbehind, hbehind]
  | none =>
    simp only [cutAtParens?, Option.map_some, hinner]

/-- What a head declares depends on its first parentheses as far as they hold parameters. -/
theorem ofTrees_eq_of_parens {trees other : List Tree} {front rest : List Piece}
    {first : Token} {tokens tokens' : List Token}
    (htrees : Piece.ofTrees trees = front ++ ⟨first :: tokens, .parens inner⟩ :: rest)
    (hother : Piece.ofTrees other = front ++ ⟨first :: tokens', .parens inner'⟩ :: rest)
    (hinner : ParameterExpr.listOfTrees inner = ParameterExpr.listOfTrees inner')
    (hasBlock : Bool) : ofTrees hasBlock trees = ofTrees hasBlock other := by
  have hmodifier : ∀ tokens inner, Modifiers.isModifier ⟨tokens, .parens inner⟩ = false :=
    fun _ _ => rfl
  have hhead : (front ++ ⟨first :: tokens, .parens inner⟩ :: rest).head?.map Piece.comments =
      (front ++ ⟨first :: tokens', .parens inner'⟩ :: rest).head?.map Piece.comments := by
    cases front <;> rfl
  unfold ofTrees Modifiers.split
  dsimp only
  rw [htrees, hother, takeWhile_append_stop (hmodifier _ _),
    takeWhile_append_stop (hmodifier _ _), dropWhile_append_stop (hmodifier _ _),
    dropWhile_append_stop (hmodifier _ _), hhead,
    typeHead?_parens _ rest _ (first :: tokens'),
    methodHead?_parens hinner hasBlock _ rest _ (first :: tokens')]

end Head

/-! ## Heads of declarations -/

namespace AnnotatedHead

variable {place : Position}

/-- The head ends with a word that belongs to no annotation. -/
def EndsInWord (head : AnnotatedHead place) : Prop :=
  (Piece.ofTrees head.rest.trees).getLast?.any Piece.isWord = true

theorem EndsInWord.isWord_of_mem {head : AnnotatedHead place} (h : head.EndsInWord) :
    ∀ piece ∈ (Piece.ofTrees head.trees).getLast?, piece.isWord = true := by
  rw [EndsInWord, Option.any_eq_true] at h
  obtain ⟨name, hname, hword⟩ := h
  obtain ⟨annotations, rest⟩ := head
  have hlast : name ∈ (Piece.ofTrees (AnnotatedHead.mk annotations rest).trees).getLast? := by
    induction annotations with
    | nil => exact hname
    | cons note annotations ih =>
      obtain ⟨tokens, hpieces⟩ := note.ofTrees_append (AnnotatedHead.mk annotations rest).trees
      have htrees : (AnnotatedHead.mk (note :: annotations) rest).trees =
          note.trees ++ (AnnotatedHead.mk annotations rest).trees := by
        simp [trees]
      rw [htrees, hpieces]
      exact List.mem_getLast?_append_of_mem_getLast? (List.mem_getLast?_cons (ih hname))
  intro piece hpiece
  rw [Option.mem_unique hpiece hlast]
  exact hword

/-- Parentheses behind a name divide the pieces of a head. -/
theorem EndsInWord.ofTrees_append {head : AnnotatedHead .fieldHead} (h : head.EndsInWord)
    (gap : List Lexeme) (inner : List Tree) (closing : Option Token) (behind : List Tree) :
    Piece.ofTrees (head.trees ++ .group (Token.mark gap '(') inner closing :: behind) =
      Piece.ofTrees head.trees ++
        ⟨Token.mark gap '(' :: (tokensOf inner ++ closing.toList), .parens inner⟩ ::
          Piece.ofTrees behind := by
  rw [Piece.ofTrees_eq, head.treeRow.apart_append rfl (.group _ _ _ _)]
  exact Piece.joinAnnotations_append_of_word rfl rfl h.isWord_of_mem _

end AnnotatedHead

/-- A head with parameters behind a name. -/
structure CalledHead where
  /-- what stands in front of the parameters -/
  front : AnnotatedHead .fieldHead
  parameters : ParameterTexts
  /-- what stands behind them -/
  behind : EnclosedText .head
  hname : front.EndsInWord

namespace CalledHead

/-- How the head is written. -/
def text (head : CalledHead) : List Char :=
  head.front.text ++ '(' :: (head.parameters.text ++ ')' :: head.behind.text)

/-- The parameters in their parentheses. -/
def parens (head : CalledHead) : Tree :=
  .group (Token.mark head.front.rest.gap '(') head.parameters.trees
    (some (Token.mark head.parameters.last.rest.gap ')'))

/-- The trees of the head. -/
def trees (head : CalledHead) : List Tree :=
  head.front.trees ++ head.parens :: head.behind.trees

/-- The head without the arguments of annotations. -/
def bare (head : CalledHead) : CalledHead :=
  { head with front := head.front.bare, parameters := head.parameters.bare }

variable (head : CalledHead)

theorem readAfter_append_mark {c : Char} (hc : c ∈ stops) (rest : List Char) :
    readAfter [] (head.text ++ c :: rest) =
      tokensOf head.trees ++ Token.mark head.behind.gap c :: readAfter [] rest := by
  have htext : head.text ++ c :: rest =
      head.front.text ++ '(' :: (head.parameters.text ++ ')' :: (head.behind.text ++ c :: rest)) := by
    simp [text]
  rw [htext, head.front.readAfter_append_mark (by decide),
    head.parameters.readAfter_append_mark (by decide), head.behind.readAfter_append_mark hc]
  simp [trees, parens, Tree.tokensOf_append, tokensOf, Tree.tokens]

theorem nests : Nests head.trees := by
  have hpair : ('(', ')') ∈ Brackets.nesting := by decide
  exact head.front.nests.append
    (.cons (.enclosed _ _ _ hpair head.parameters.nests) head.behind.treeRow.nests)

theorem staysInHead : ∀ tree ∈ head.trees, StaysInHead tree := by
  have hparens : StaysInHead head.parens := Canonical.staysInHead_group (by decide) _ _
  exact List.forall_mem_append.mpr ⟨head.front.staysInHead (by decide),
    List.forall_mem_cons.mpr ⟨hparens, head.behind.treeRow.staysInHead fun _ hc => hc⟩⟩

/-- What the head declares does not depend on the arguments of annotations. -/
theorem ofTrees_bare (hasBlock : Bool) :
    Head.ofTrees hasBlock head.bare.trees = Head.ofTrees hasBlock head.trees := by
  have hfront : Head.ofTrees hasBlock (head.front.trees ++ head.bare.parens :: head.behind.trees) =
      Head.ofTrees hasBlock head.bare.trees :=
    Head.ofTrees_eq_of_alike (head.front.alike_bare _) hasBlock
  rw [← hfront]
  exact Head.ofTrees_eq_of_parens (head.hname.ofTrees_append _ _ _ _)
    (head.hname.ofTrees_append _ _ _ _) head.parameters.listOfTrees_bare hasBlock

end CalledHead

/-- The head of a declaration. -/
inductive DeclarationHead where
  /-- without annotations in parentheses -/
  | plain (head : AnnotatedHead .head)
  | called (head : CalledHead)

namespace DeclarationHead

/-- How the head is written. -/
def text : DeclarationHead → List Char
  | .plain head => head.text
  | .called head => head.text

/-- The trees of the head. -/
def trees : DeclarationHead → List Tree
  | .plain head => head.trees
  | .called head => head.trees

/-- What the head passes over behind its last token. -/
def gap : DeclarationHead → List Lexeme
  | .plain head => head.rest.gap
  | .called head => head.behind.gap

/-- The head without the arguments of annotations. -/
def bare : DeclarationHead → DeclarationHead
  | .plain head => .plain head.bare
  | .called head => .called head.bare

variable (head : DeclarationHead)

theorem readAfter_append_mark {c : Char} (hc : c ∈ stops) (rest : List Char) :
    readAfter [] (head.text ++ c :: rest) =
      tokensOf head.trees ++ Token.mark head.gap c :: readAfter [] rest := by
  cases head with
  | plain head => exact head.readAfter_append_mark hc rest
  | called head => exact head.readAfter_append_mark hc rest

theorem nests : Nests head.trees := by
  cases head with
  | plain head => exact head.nests
  | called head => exact head.nests

theorem staysInHead : ∀ tree ∈ head.trees, StaysInHead tree := by
  cases head with
  | plain head => exact head.staysInHead fun _ hc => hc
  | called head => exact head.staysInHead

/-- What the head declares does not depend on the arguments of annotations. -/
theorem ofTrees_bare (hasBlock : Bool) :
    Head.ofTrees hasBlock head.bare.trees = Head.ofTrees hasBlock head.trees := by
  cases head with
  | plain head => exact head.ofTrees_bare hasBlock
  | called head => exact head.ofTrees_bare hasBlock

end DeclarationHead

end JavaSignatures.Source
