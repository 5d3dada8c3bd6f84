import JavaSignatures.Name
import JavaSignatures.Proofs.Extents
import JavaSignatures.Proofs.Lexing
import JavaSignatures.Source.Statement

set_option autoImplicit false

/-!
# Layout

The layout of a source text is the white space between its tokens and comments.  A token without the
white space in front of it is dense (`Token.dense`).  Tokens are grouped into trees and cut into
statements without a look at white space, so that the readers commute with `dense`: two sources that
have the same content but for their layout have the same statements but for white space
(`Statement.map_dense_ofSource`).
-/

namespace JavaSignatures.Source

/-- The tokens and comments of a source text in their order: all but its white space. -/
def content (source : List Char) : List Lexeme :=
  (Lexeme.lexemes (if source.head? == some Token.byteOrderMark then source.tail else source)).filter
    fun lexeme => lexeme.kind != .blank

/-! ## Tokens -/

namespace Lexeme

/-- The lexeme is white space, and so has no part in any text that is compared without it. -/
def isWhite (lexeme : Lexeme) : Bool := lexeme.kind == .blank && Text.isBlankText lexeme.text

variable {lexeme : Lexeme}

theorem isTrivia_of_isWhite (h : lexeme.isWhite = true) : lexeme.isTrivia = true := by
  rw [isWhite, Bool.and_eq_true, beq_iff_eq] at h
  rw [isTrivia, h.1]

theorem not_isComment_of_isWhite (h : lexeme.isWhite = true) : lexeme.isComment = false := by
  rw [isWhite, Bool.and_eq_true, beq_iff_eq] at h
  rw [isComment, h.1]
  simp

/-- The white space that is cut off a text is white. -/
theorem isWhite_of_mem_lexemes {text : List Char} (h : lexeme ∈ lexemes text) :
    lexeme.isWhite = (lexeme.kind == .blank) := by
  unfold isWhite
  cases hkind : lexeme.kind == .blank with
  | false => rfl
  | true =>
    have hgap := isGap_of_mem_lexemes h (eq_of_beq hkind)
    rw [Bool.true_and, Text.isBlankText, List.all_eq_true]
    exact fun c hc => isBlank_of_isGap (hgap c hc)

end Lexeme

namespace Token

/-- The token without the white space in front of it. -/
def dense (token : Token) : Token := { token with gap := token.gap.filter (!·.isWhite) }

variable (token : Token)

@[simp]
theorem lexeme_dense : token.dense.lexeme = token.lexeme := rfl

@[simp]
theorem isSymbol_dense (symbol : Char) : token.dense.isSymbol symbol = token.isSymbol symbol := rfl

@[simp]
theorem comments_dense : token.dense.comments = token.comments := by
  have hgap : (token.gap.filter (!·.isWhite)).filter Lexeme.isComment =
      token.gap.filter Lexeme.isComment := by
    rw [List.filter_filter]
    refine List.filter_congr fun lexeme _ => ?_
    cases hwhite : lexeme.isWhite with
    | false => simp
    | true => simp [Lexeme.not_isComment_of_isWhite hwhite]
  rw [comments, comments, dense, hgap]

@[simp]
theorem dense_dense : token.dense.dense = token.dense := by
  simp [dense]

/-- White space does not show in a text that is compared without it. -/
theorem filter_full_dense :
    token.dense.full.filter (fun c => !Character.isBlank c) =
      token.full.filter fun c => !Character.isBlank c := by
  have hgap : ∀ gap : List Lexeme,
      ((gap.filter (!·.isWhite)).flatMap Lexeme.text).filter (fun c => !Character.isBlank c) =
        (gap.flatMap Lexeme.text).filter fun c => !Character.isBlank c := by
    intro gap
    induction gap with
    | nil => rfl
    | cons lexeme rest ih =>
      cases hwhite : lexeme.isWhite with
      | false => simp [hwhite, ih]
      | true =>
        have hall := (Bool.and_eq_true_iff.mp hwhite).2
        rw [Text.isBlankText, List.all_eq_true] at hall
        have hblank : lexeme.text.filter (fun c => !Character.isBlank c) = [] :=
          List.filter_eq_nil_iff.mpr fun c hc => by simp [hall c hc]
        rw [List.filter_cons_of_neg (by simp [hwhite]), ih, List.flatMap_cons, List.filter_append,
          hblank, List.nil_append]
  rw [full, full, List.filter_append, List.filter_append, dense, hgap]

theorem withoutBlanks_spell_dense (tokens : List Token) :
    Name.withoutBlanks (spell (tokens.map dense)) = Name.withoutBlanks (spell tokens) := by
  have hrest : ∀ rest : List Token,
      ((rest.map dense).flatMap full).filter (fun c => !Character.isBlank c) =
        (rest.flatMap full).filter fun c => !Character.isBlank c := by
    intro rest
    induction rest with
    | nil => rfl
    | cons token rest ih => simp [filter_full_dense, ih]
  unfold Name.withoutBlanks
  cases tokens with
  | nil => rfl
  | cons token rest =>
    rw [List.map_cons, spell, spell, List.filter_append, List.filter_append, hrest]
    rfl

/-- Reading tokens commutes with leaving white space out. -/
theorem map_dense_ofLexemesAfter (gap row : List Lexeme) :
    (ofLexemesAfter gap row).map dense =
      ofLexemesAfter (gap.filter (!·.isWhite)) (row.filter (!·.isWhite)) := by
  induction row generalizing gap with
  | nil => rfl
  | cons lexeme rest ih =>
    cases hwhite : lexeme.isWhite with
    | true =>
      have htrivia := Lexeme.isTrivia_of_isWhite hwhite
      simp [ofLexemesAfter, htrivia, hwhite, ih]
    | false =>
      cases htrivia : lexeme.isTrivia with
      | true => simp [ofLexemesAfter, htrivia, hwhite, ih]
      | false => simp [ofLexemesAfter, htrivia, hwhite, ih, dense]

/-- Sources with the same content have the same tokens but for white space. -/
theorem map_dense_ofSource {first second : List Char} (h : content first = content second) :
    (ofSource first).map dense = (ofSource second).map dense := by
  have hcontent : ∀ source : List Char,
      (ofSource source).map dense = ofLexemesAfter [] (content source) := by
    intro source
    rw [ofSource, map_dense_ofLexemesAfter, content]
    congr 1
    refine List.filter_congr fun lexeme hlexeme => ?_
    rw [Lexeme.isWhite_of_mem_lexemes hlexeme]
    rfl
  rw [hcontent, hcontent, h]

end Token

/-! ## Trees -/

namespace Tree

mutual

/-- The tree without white space. -/
def dense (tree : Tree) : Tree :=
  match tree with
  | .leaf token => .leaf token.dense
  | .group opening inner closing =>
    .group opening.dense (denseAll inner) (closing.map Token.dense)
termination_by structural tree

/-- The trees without white space. -/
def denseAll (trees : List Tree) : List Tree :=
  match trees with
  | [] => []
  | tree :: rest => dense tree :: denseAll rest
termination_by structural trees

end

@[simp]
theorem denseAll_eq_map (trees : List Tree) : denseAll trees = trees.map dense := by
  induction trees with
  | nil => rfl
  | cons tree rest ih => simp [denseAll, ih]

@[simp]
theorem dense_leaf (token : Token) : dense (.leaf token) = .leaf token.dense := rfl

@[simp]
theorem dense_group (opening : Token) (inner : List Tree) (closing : Option Token) :
    dense (.group opening inner closing) =
      .group opening.dense (inner.map dense) (closing.map Token.dense) := by
  simp [dense]

@[simp]
theorem isSymbol_dense (tree : Tree) (symbol : Char) :
    tree.dense.isSymbol symbol = tree.isSymbol symbol := by
  cases tree <;> simp [isSymbol]

mutual

@[simp]
theorem dense_dense (tree : Tree) : tree.dense.dense = tree.dense := by
  cases tree with
  | leaf token => simp
  | group opening inner closing =>
    have hclosing : (closing.map Token.dense).map Token.dense = closing.map Token.dense := by
      cases closing <;> simp
    rw [dense_group, dense_group, Token.dense_dense, map_dense_map_dense inner, hclosing]
termination_by structural tree

theorem map_dense_map_dense (trees : List Tree) :
    (trees.map dense).map dense = trees.map dense := by
  cases trees with
  | nil => rfl
  | cons tree rest =>
    rw [List.map_cons, List.map_cons, dense_dense tree, map_dense_map_dense rest]
termination_by structural trees

end

mutual

theorem tokens_dense (tree : Tree) : tokens tree.dense = (tokens tree).map Token.dense := by
  cases tree with
  | leaf token => rfl
  | group opening inner closing =>
    have hclosing : (closing.map Token.dense).toList = closing.toList.map Token.dense := by
      cases closing <;> rfl
    rw [dense_group, tokens, tokens, tokensOf_map_dense inner, hclosing]
    simp
termination_by structural tree

theorem tokensOf_map_dense (trees : List Tree) :
    tokensOf (trees.map dense) = (tokensOf trees).map Token.dense := by
  cases trees with
  | nil => rfl
  | cons tree rest =>
    rw [List.map_cons, tokensOf, tokensOf, tokens_dense tree, tokensOf_map_dense rest,
      List.map_append]
termination_by structural trees

end

/-! ### Grouping -/

/-- The open group without white space. -/
def Frame.dense (frame : Frame) : Frame := ⟨frame.opening.dense, frame.before.map Tree.dense⟩

theorem map_dense_close (frame : Frame) (inner : List Tree) (closing : Option Token) :
    (frame.close inner closing).map dense =
      frame.dense.close (inner.map dense) (closing.map Token.dense) := by
  simp [Frame.close, Frame.dense]

theorem closePair_dense (pair : Char × Char) (token : Token) (frames : List Frame)
    (inner : List Tree) :
    closePair pair token.dense (frames.map Frame.dense) (inner.map dense) =
      (closePair pair token frames inner).map fun (frames, trees) =>
        (frames.map Frame.dense, trees.map dense) := by
  induction frames generalizing inner with
  | nil => rfl
  | cons frame frames ih =>
    have hopening : ∀ symbol, frame.dense.opening.isSymbol symbol =
        frame.opening.isSymbol symbol := fun _ => rfl
    rw [List.map_cons, closePair, closePair, hopening, hopening]
    split
    · simp [map_dense_close]
    · split
      · rfl
      · rw [← ih, map_dense_close]
        rfl

theorem map_dense_closeAll (frames : List Frame) (inner : List Tree) :
    (closeAll frames inner).map dense =
      closeAll (frames.map Frame.dense) (inner.map dense) := by
  induction frames generalizing inner with
  | nil => simp [closeAll]
  | cons frame frames ih =>
    rw [closeAll, ih, map_dense_close]
    rfl

/-- Grouping commutes with leaving white space out. -/
theorem map_dense_groupFrom (brackets : Brackets) (frames : List Frame) (before trees : List Tree) :
    (groupFrom brackets frames before trees).map dense =
      groupFrom brackets (frames.map Frame.dense) (before.map dense) (trees.map dense) := by
  fun_induction groupFrom brackets frames before trees with
  | case1 frames before => exact map_dense_closeAll frames before
  | case2 frames before opening inner closing rest ih =>
    rw [ih, List.map_cons, List.map_cons, dense_group, groupFrom]
  | case3 frames before token rest pair hpair ih =>
    have hopens : brackets.opened? token.dense = some pair := hpair
    simp only [ih, List.map_cons, dense_leaf, groupFrom, hopens]
    rfl
  | case4 frames before token rest hnone frames' before' hclose ih =>
    have hopens : brackets.opened? token.dense = none := hnone
    obtain ⟨pair, hpair, hcloses⟩ := Option.bind_eq_some_iff.mp hclose
    have hclosed : brackets.closed? token.dense = some pair := hpair
    simp only [ih, List.map_cons, dense_leaf, groupFrom, hopens, hclosed, Option.bind_some,
      closePair_dense, hcloses, Option.map_some]
  | case5 frames before token rest hnone hstays ih =>
    have hopens : brackets.opened? token.dense = none := hnone
    have hnot : (brackets.closed? token.dense).bind (fun pair =>
        closePair pair token.dense (frames.map Frame.dense) (before.map dense)) = none := by
      rw [Option.bind_eq_none_iff] at hstays ⊢
      intro pair hpair
      rw [closePair_dense, hstays pair hpair]
      rfl
    simp only [ih, List.map_cons, dense_leaf, groupFrom, hopens, hnot]

theorem map_dense_ofTokens (tokens : List Token) :
    (ofTokens tokens).map dense = ofTokens (tokens.map Token.dense) := by
  have hleaves : (tokens.map leaf).map dense = (tokens.map Token.dense).map leaf := by
    rw [List.map_map, List.map_map]
    rfl
  rw [ofTokens, map_dense_groupFrom, hleaves]
  rfl

theorem map_dense_groupAngles (trees : List Tree) :
    (groupAngles trees).map dense = groupAngles (trees.map dense) :=
  map_dense_groupFrom ..

end Tree

/-! ## Statements -/

namespace Statement

mutual

/-- The statement without white space. -/
def dense (statement : Statement) : Statement :=
  match statement with
  | .plain head => .plain (head.map Tree.dense)
  | .block head body => .block (head.map Tree.dense) (denseAll body)
termination_by structural statement

/-- The statements without white space. -/
def denseAll (statements : List Statement) : List Statement :=
  match statements with
  | [] => []
  | statement :: rest => dense statement :: denseAll rest
termination_by structural statements

end

@[simp]
theorem denseAll_eq_map (statements : List Statement) :
    denseAll statements = statements.map dense := by
  induction statements with
  | nil => rfl
  | cons statement rest ih => simp [denseAll, ih]

@[simp]
theorem dense_plain (head : List Tree) : dense (.plain head) = .plain (head.map Tree.dense) := rfl

@[simp]
theorem dense_block (head : List Tree) (body : List Statement) :
    dense (.block head body) = .block (head.map Tree.dense) (body.map dense) := by
  simp [dense]

theorem isEnd_dense (tree : Tree) : isEnd tree.dense = isEnd tree := by
  cases tree <;> simp [isEnd, endsAt, Brackets.closed?]

theorem isAssignment_dense (head : List Tree) :
    isAssignment (head.map Tree.dense) = isAssignment head := by
  simp [isAssignment, Function.comp_def]

theorem isBlock_dense (head : List Tree) (tree : Tree) :
    isBlock (head.map Tree.dense) tree.dense = isBlock head tree := by
  cases tree <;> simp [isBlock, isAssignment_dense]

mutual

theorem map_dense_inside (tree : Tree) : (inside tree).map dense = inside tree.dense := by
  cases tree with
  | leaf token => rfl
  | group opening inner closing =>
    rw [Tree.dense_group, inside, inside, map_dense_ofTreesAfter [] inner]
    rfl
termination_by structural tree

/-- Cutting into statements commutes with leaving white space out. -/
theorem map_dense_ofTreesAfter (head trees : List Tree) :
    (ofTreesAfter head trees).map dense =
      ofTreesAfter (head.map Tree.dense) (trees.map Tree.dense) := by
  cases trees with
  | nil => rfl
  | cons tree rest =>
    rw [List.map_cons, ofTreesAfter, ofTreesAfter, isEnd_dense, isBlock_dense]
    split
    · rw [List.map_cons, dense_plain, List.map_reverse, map_dense_ofTreesAfter [] rest]
      rfl
    · split
      · rw [List.map_cons, dense_block, List.map_reverse, map_dense_inside tree,
          map_dense_ofTreesAfter [] rest]
        rfl
      · exact map_dense_ofTreesAfter (tree :: head) rest
termination_by structural trees

end

/-- Sources with the same content have the same statements but for white space. -/
theorem map_dense_ofSource {first second : List Char} (h : content first = content second) :
    (ofSource first).map dense = (ofSource second).map dense := by
  have hdense : ∀ source : List Char, (ofSource source).map dense =
      ofTrees (Tree.ofTokens ((Token.ofSource source).map Token.dense)) := by
    intro source
    rw [ofSource, ofTrees, map_dense_ofTreesAfter, Tree.map_dense_ofTokens]
    rfl
  rw [hdense, hdense, Token.map_dense_ofSource h]

end Statement

end JavaSignatures.Source
