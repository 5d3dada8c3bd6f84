import JavaSignatures.Proofs.Extents
import JavaSignatures.Source.Elaboration

set_option autoImplicit false

/-!
# Where the names of methods come from

Nothing is made up between the source text and the declarations: lexemes become tokens, grouping
keeps the tokens in order (`tokensOf_groupFrom`), the heads of statements are made of them, and a
method is named by a word of its head.  So every method that a source text declares is named by a
word of the text (`isWordPart_name_of_parse`).
-/

namespace JavaSignatures

namespace Source

open Lexeme (isWordPart)

/-! ## Tokens -/

namespace Token

theorem mem_ofLexemesAfter {gap lexemes : List Lexeme} {token : Token}
    (h : token ∈ ofLexemesAfter gap lexemes) : token.lexeme ∈ lexemes := by
  induction lexemes generalizing gap with
  | nil => exact absurd h (by simp [ofLexemesAfter])
  | cons lexeme rest ih =>
    rw [ofLexemesAfter] at h
    split at h
    · exact List.mem_cons_of_mem _ (ih h)
    · rcases List.mem_cons.mp h with rfl | h
      · exact List.mem_cons_self ..
      · exact List.mem_cons_of_mem _ (ih h)

/-- A word of a source text has only characters of words. -/
theorem isWordPart_of_mem_ofSource {source : List Char} {token : Token}
    (h : token ∈ ofSource source) (hword : token.isWord = true) :
    ∀ c ∈ token.text.toList, isWordPart c = true := by
  have hlexeme := mem_ofLexemesAfter h
  rw [text, String.toList_ofList]
  exact Lexeme.isWordPart_of_mem_lexemes hlexeme (eq_of_beq hword)

end Token

/-! ## Grouping keeps the tokens -/

namespace Tree

/-- The tokens of open groups and of what stands in front of them; the innermost comes first in the
list and last in the text. -/
def openTokens : List Frame → List Token
  | [] => []
  | frame :: frames => openTokens frames ++ (tokensOf frame.before.reverse ++ [frame.opening])

theorem tokensOf_close (frame : Frame) (inner : List Tree) (closing : Option Token) :
    tokensOf (frame.close inner closing).reverse =
      tokensOf frame.before.reverse ++ frame.opening :: (tokensOf inner.reverse ++
        closing.toList) := by
  simp [Frame.close, tokensOf_append, tokensOf, tokens]

theorem tokensOf_closePair {pair : Char × Char} {token : Token} {frames after : List Frame}
    {inner before : List Tree} (h : closePair pair token frames inner = some (after, before)) :
    openTokens after ++ tokensOf before.reverse =
      openTokens frames ++ tokensOf inner.reverse ++ [token] := by
  induction frames generalizing inner with
  | nil => exact absurd h (by simp [closePair])
  | cons frame frames ih =>
    rw [closePair] at h
    split at h
    · obtain ⟨rfl, rfl⟩ := Prod.mk.inj (Option.some.inj h)
      rw [tokensOf_close]
      simp [openTokens]
    · split at h
      · exact absurd h (by simp)
      · rw [ih h, tokensOf_close]
        simp [openTokens]

theorem tokensOf_closeAll (frames : List Frame) (trees : List Tree) :
    tokensOf (closeAll frames trees) = openTokens frames ++ tokensOf trees.reverse := by
  induction frames generalizing trees with
  | nil => rfl
  | cons frame frames ih =>
    rw [closeAll, ih, tokensOf_close]
    simp [openTokens]

/-- Grouping by any brackets keeps all tokens in their order. -/
theorem tokensOf_groupFrom (brackets : Brackets) (frames : List Frame) (before trees : List Tree) :
    tokensOf (groupFrom brackets frames before trees) =
      openTokens frames ++ tokensOf before.reverse ++ tokensOf trees := by
  induction trees generalizing frames before with
  | nil => simp [groupFrom, tokensOf_closeAll, tokensOf]
  | cons tree rest ih =>
    cases tree with
    | group opening inner closing =>
      rw [groupFrom, ih]
      simp [tokensOf, tokensOf_append]
    | leaf token =>
      rw [groupFrom]
      split
      · rw [ih]
        simp [openTokens, tokensOf, tokens]
      · split
        · next after before' hclosed =>
          obtain ⟨pair, -, hpair⟩ := Option.bind_eq_some_iff.mp hclosed
          rw [ih, tokensOf_closePair hpair]
          simp [tokensOf, tokens]
        · rw [ih]
          simp [tokensOf, tokensOf_append, tokens]

theorem tokensOf_ofTokens (tokens : List Token) : tokensOf (ofTokens tokens) = tokens := by
  rw [ofTokens, tokensOf_groupFrom, tokensOf_map_leaf]
  rfl

theorem tokensOf_groupAngles (trees : List Tree) : tokensOf (groupAngles trees) = tokensOf trees := by
  rw [groupAngles, tokensOf_groupFrom]
  rfl

theorem mem_tokensOf_of_mem {tree : Tree} {trees : List Tree} (h : tree ∈ trees) {token : Token}
    (htoken : token ∈ tokens tree) : token ∈ tokensOf trees := by
  obtain ⟨before, after, rfl⟩ := List.append_of_mem h
  rw [tokensOf_append, tokensOf]
  exact List.mem_append_right _ (List.mem_append_left _ htoken)

end Tree

/-! ## Statements -/

namespace Statement

open JavaSignatures.Source.Tree (tokens tokensOf)

mutual

/-- The heads of a statement and of the statements in it. -/
def heads (statement : Statement) : List (List Tree) :=
  match statement with
  | .plain head => [head]
  | .block head body => head :: headsOf body
termination_by structural statement

/-- The heads of statements. -/
def headsOf (statements : List Statement) : List (List Tree) :=
  match statements with
  | [] => []
  | statement :: rest => heads statement ++ headsOf rest
termination_by structural statements

end

theorem mem_headsOf {statement : Statement} {statements : List Statement}
    (h : statement ∈ statements) {head : List Tree} (hhead : head ∈ statement.heads) :
    head ∈ headsOf statements := by
  induction statements with
  | nil => exact absurd h (List.not_mem_nil)
  | cons other rest ih =>
    rw [headsOf, List.mem_append]
    rcases List.mem_cons.mp h with rfl | h
    · exact Or.inl hhead
    · exact Or.inr (ih h)

mutual

theorem mem_tokens_of_inside (tree : Tree) {head : List Tree}
    (h : head ∈ headsOf (inside tree)) {token : Token} (htoken : token ∈ tokensOf head) :
    token ∈ tokens tree := by
  cases tree with
  | leaf other => exact absurd h (by simp [inside, headsOf])
  | group opening inner closing =>
    have hinner := mem_tokensOf_of_ofTreesAfter [] inner h htoken
    rw [List.reverse_nil] at hinner
    have htokens : token ∈ tokensOf inner := hinner.resolve_left (by simp [tokensOf])
    rw [Tree.tokens]
    simp [htokens]
termination_by structural tree

/-- The heads of statements have only tokens of the trees that the statements are cut from. -/
theorem mem_tokensOf_of_ofTreesAfter (before trees : List Tree) {head : List Tree}
    (h : head ∈ headsOf (ofTreesAfter before trees)) {token : Token}
    (htoken : token ∈ tokensOf head) :
    token ∈ tokensOf before.reverse ∨ token ∈ tokensOf trees := by
  cases trees with
  | nil => exact absurd h (by simp [ofTreesAfter, headsOf])
  | cons tree rest =>
    have hinside := fun h => mem_tokens_of_inside tree h htoken
    have hmore := fun before h => mem_tokensOf_of_ofTreesAfter before rest h htoken
    have hrest : ∀ h : head ∈ headsOf (ofTreesAfter [] rest),
        token ∈ tokensOf before.reverse ∨ token ∈ tokensOf (tree :: rest) := by
      intro h
      have hafter := (hmore [] h).resolve_left (by simp [tokensOf])
      exact Or.inr (by rw [tokensOf]; exact List.mem_append_right _ hafter)
    rw [ofTreesAfter] at h
    split at h
    · rw [headsOf, heads, List.mem_append, List.mem_singleton] at h
      rcases h with rfl | h
      · exact Or.inl htoken
      · exact hrest h
    · split at h
      · rw [headsOf, heads, List.mem_append, List.mem_cons] at h
        rcases h with (rfl | h) | h
        · exact Or.inl htoken
        · exact Or.inr (by rw [tokensOf]; exact List.mem_append_left _ (hinside h))
        · exact hrest h
      · rcases hmore (tree :: before) h with hbefore | hafter
        · rw [List.reverse_cons, Tree.tokensOf_append, List.mem_append] at hbefore
          rcases hbefore with hbefore | hbefore
          · exact Or.inl hbefore
          · refine Or.inr ?_
            simp only [tokensOf, List.append_nil] at hbefore ⊢
            exact List.mem_append_left _ hbefore
        · exact Or.inr (by rw [tokensOf]; exact List.mem_append_right _ hafter)
termination_by structural trees

end

theorem mem_ofSource_of_mem_heads {source : List Char} {head : List Tree}
    (h : head ∈ headsOf (ofSource source)) {token : Token} (htoken : token ∈ tokensOf head) :
    token ∈ Token.ofSource source := by
  have htokens := (mem_tokensOf_of_ofTreesAfter [] _ h htoken).resolve_left (by simp [tokensOf])
  rwa [Tree.tokensOf_ofTokens] at htokens

end Statement

/-! ## Pieces -/

namespace Piece

theorem mem_of_annotationTail (pieces : List Piece) {piece : Piece}
    (h : piece ∈ (annotationTail pieces).2) : piece ∈ pieces := by
  fun_induction annotationTail pieces with
  | case1 => exact absurd h (by simp)
  | case2 other => exact absurd h (by simp)
  | case3 other => simpa using h
  | case4 other next rest => exact List.mem_cons_of_mem _ h
  | case5 other next rest hparens hnext tokens after hafter ih =>
    exact List.mem_cons_of_mem _ (List.mem_cons_of_mem _ (ih (by simpa [hafter] using h)))
  | case6 other next rest => simpa using h

theorem mem_joinMark {mark piece : Piece} {rest : List Piece} (h : piece ∈ joinMark mark rest) :
    piece.isAnnotation = true ∨ piece ∈ mark :: rest := by
  unfold joinMark at h
  split at h
  · exact Or.inr h
  · next name more =>
    split at h
    · rcases List.mem_cons.mp h with rfl | h
      · exact Or.inl rfl
      · exact Or.inr (List.mem_cons_of_mem _ (List.mem_cons_of_mem _ (mem_of_annotationTail _ h)))
    · exact Or.inr h

/-- Joining makes annotations and leaves all other pieces as they are. -/
theorem mem_joinAnnotations {piece : Piece} {pieces : List Piece}
    (h : piece ∈ joinAnnotations pieces) : piece.isAnnotation = true ∨ piece ∈ pieces := by
  induction pieces with
  | nil => exact absurd h (by simp [joinAnnotations])
  | cons first rest ih =>
    have hstep : joinAnnotations (first :: rest) =
        if first.isSymbol "@" then joinMark first (joinAnnotations rest)
        else first :: joinAnnotations rest := rfl
    have hrest : piece ∈ joinAnnotations rest → piece.isAnnotation = true ∨ piece ∈ first :: rest :=
      fun h => (ih h).imp id (List.mem_cons_of_mem _)
    rw [hstep] at h
    split at h
    · rcases mem_joinMark h with h | h
      · exact Or.inl h
      · exact (List.mem_cons.mp h).elim (fun e => Or.inr (by simp [e])) hrest
    · exact (List.mem_cons.mp h).elim (fun e => Or.inr (by simp [e])) hrest

theorem isWord_group (opening : Token) (inner : List Tree) (closing : Option Token) :
    (ofTree (.group opening inner closing)).isWord = false := by
  unfold isWord ofTree
  dsimp only
  by_cases hangle : opening.isSymbol '<' = true
  · rw [if_pos hangle]
  · by_cases hparens : opening.isSymbol '(' = true
    · rw [if_neg hangle, if_pos hparens]
    · by_cases hsquare : opening.isSymbol '[' = true
      · rw [if_neg hangle, if_neg hparens, if_pos hsquare]
      · rw [if_neg hangle, if_neg hparens, if_neg hsquare]

/-- Joining annotations leaves every word as the token that it was. -/
theorem exists_token_of_mem_joinAnnotations {piece : Piece} {trees : List Tree}
    (h : piece ∈ joinAnnotations (ofTreesApart trees)) (hword : piece.isWord = true) :
    ∃ token ∈ Tree.tokensOf trees, token.isWord = true ∧ piece.text = token.text := by
  have hplain : piece ∈ ofTreesApart trees := by
    refine (mem_joinAnnotations h).resolve_left fun hannotation => ?_
    unfold isWord at hword
    unfold isAnnotation at hannotation
    split at hword <;> simp_all
  rw [ofTreesApart_eq_map] at hplain
  obtain ⟨tree, htree, rfl⟩ := List.mem_map.mp hplain
  cases tree with
  | leaf token =>
    refine ⟨token, Tree.mem_tokensOf_of_mem htree (by simp [Tree.tokens]), ?_, ?_⟩
    · unfold isWord ofTree at hword
      unfold Token.isWord
      cases hkind : token.lexeme.kind <;> simp_all
    · rw [text, ofTree, Token.spell_singleton, Token.text]
  | group opening inner closing =>
    rw [isWord_group] at hword
    exact absurd hword (by simp)

/-- A piece that is a word is a token of the head. -/
theorem exists_token_of_isWord {piece : Piece} {trees : List Tree} (h : piece ∈ ofTrees trees)
    (hword : piece.isWord = true) :
    ∃ token ∈ Tree.tokensOf trees, token.isWord = true ∧ piece.text = token.text := by
  rw [← Tree.tokensOf_groupAngles]
  exact exists_token_of_mem_joinAnnotations h hword

end Piece

/-! ## Heads -/

namespace Head

theorem mem_of_leadingVariables {piece : Piece} {pieces : List Piece}
    (h : piece ∈ (leadingVariables pieces).2) : piece ∈ pieces := by
  unfold leadingVariables at h
  split at h
  · exact List.mem_cons_of_mem _ h
  · exact h

theorem mem_of_cutAtParens? {pieces before after : List Piece} {inner : List Tree}
    (h : cutAtParens? pieces = some (before, inner, after)) {piece : Piece}
    (hpiece : piece ∈ before) : piece ∈ pieces := by
  induction pieces generalizing before with
  | nil => exact absurd h (by simp [cutAtParens?])
  | cons first rest ih =>
    rw [cutAtParens?.eq_def] at h
    split at h
    · exact absurd h (by simp)
    · next heq =>
      obtain ⟨rfl, -, -⟩ := by simpa using h
      exact absurd hpiece (by simp)
    · next other rest' hshape heq =>
      obtain ⟨rfl, rfl⟩ := List.cons.inj heq
      obtain ⟨⟨more, inner', after'⟩, hrest, hcut⟩ := Option.map_eq_some_iff.mp h
      obtain ⟨rfl, rfl, rfl⟩ := by simpa using hcut
      rcases List.mem_cons.mp hpiece with rfl | hpiece
      · exact List.mem_cons_self ..
      · exact List.mem_cons_of_mem _ (ih hrest hpiece)

/-- What the head of a method or constructor is read from.  A constructor has no name and no type,
and the one of a record may leave its parameters out; a method has a word in front of the
parentheses and a type in front of the word. -/
theorem cases_of_methodHead? {hasBlock : Bool} {comment : Option String} {modifiers : Modifiers}
    {pieces : List Piece} {head : MethodHead}
    (h : methodHead? hasBlock comment modifiers pieces = some head) :
    head.typeVariables = (leadingVariables pieces).1 ∧
      (head.name = none ∧ head.result = .verbatim "" ∧ head.parameters = [] ∨
        ∃ before inner after, cutAtParens? (leadingVariables pieces).2 = some (before, inner, after) ∧
          head.parameters = ParameterExpr.listOfTrees inner ∧
          (head.name = none ∧ head.result = .verbatim "" ∨
            ∃ name ∈ before, name.isWord = true ∧ head.name = some name.text ∧
              ∃ type dimensions, TypeExpr.ofPieces? before.dropLast = some type ∧
                head.result = type.withDimensions dimensions)) := by
  unfold methodHead? at h
  dsimp only at h
  split at h
  · split at h
    · split at h
      · obtain rfl := Option.some.inj h
        exact ⟨rfl, Or.inl ⟨rfl, rfl, rfl⟩⟩
      · exact absurd h (by simp)
    · exact absurd h (by simp)
  · next before inner after hcut =>
    split at h
    · exact absurd h (by simp)
    · next name hlast =>
      split at h
      · exact absurd h (by simp)
      · next hword =>
        split at h
        · split at h
          · obtain rfl := Option.some.inj h
            exact ⟨rfl, Or.inr ⟨before, inner, after, hcut, rfl, Or.inl ⟨rfl, rfl⟩⟩⟩
          · exact absurd h (by simp)
        · obtain ⟨type, htype, rfl⟩ := Option.map_eq_some_iff.mp h
          refine ⟨rfl, Or.inr ⟨before, inner, after, hcut, rfl, Or.inr ?_⟩⟩
          exact ⟨name, List.mem_of_getLast? hlast, by simpa using hword, rfl, type, _, htype, rfl⟩

/-- What the head of a type declaration is read from. -/
theorem cases_of_typeHead? {comment : Option String} {modifiers : Modifiers} {pieces : List Piece}
    {head : TypeHead} (h : typeHead? comment modifiers pieces = some head) :
    ∃ keyword name rest, pieces = keyword :: name :: rest ∧ name.isWord = true ∧
      head.name = name.text ∧ head.typeVariables = (leadingVariables rest).1 := by
  unfold typeHead? at h
  split at h
  · next keyword name rest =>
    split at h
    · split at h
      · next hword =>
        obtain rfl := Option.some.inj h
        exact ⟨keyword, name, rest, rfl, hword, rfl, rfl⟩
      · exact absurd h (by simp)
    · exact absurd h (by simp)
  · exact absurd h (by simp)

section Trees

variable {hasBlock : Bool} {trees : List Tree}

/-- The head of a method is read behind the modifiers. -/
theorem exists_methodHead?_of_ofTrees {head : MethodHead}
    (h : ofTrees hasBlock trees = .method head) :
    ∃ comment modifiers row, row ⊆ Piece.ofTrees trees ∧
      methodHead? hasBlock comment modifiers row = some head := by
  have hrest : (Modifiers.split (Piece.ofTrees trees)).2 ⊆ Piece.ofTrees trees :=
    (List.dropWhile_suffix _).subset
  unfold ofTrees at h
  dsimp only at h
  split at h
  · exact absurd h (by simp)
  · split at h
    · next found hfound =>
      obtain rfl : found = head := by simpa using h
      exact ⟨_, _, _, hrest, hfound⟩
    · exact absurd h (by simp)

/-- The head of a type declaration is read behind the modifiers. -/
theorem exists_typeHead?_of_ofTrees {head : TypeHead} (h : ofTrees hasBlock trees = .type head) :
    ∃ comment modifiers row, row ⊆ Piece.ofTrees trees ∧
      typeHead? comment modifiers row = some head := by
  have hrest : (Modifiers.split (Piece.ofTrees trees)).2 ⊆ Piece.ofTrees trees :=
    (List.dropWhile_suffix _).subset
  unfold ofTrees at h
  dsimp only at h
  split at h
  · next found hfound =>
    obtain rfl : found = head := by simpa using h
    split at hfound
    · exact ⟨_, _, _, hrest, hfound⟩
    · exact absurd hfound (by simp)
  · split at h <;> exact absurd h (by simp)

/-- A method has the name that a word of its head spells. -/
theorem exists_token_of_ofTrees {head : MethodHead} {name : String}
    (h : ofTrees hasBlock trees = .method head) (hname : head.name = some name) :
    ∃ token ∈ Tree.tokensOf trees, token.isWord = true ∧ name = token.text := by
  obtain ⟨comment, modifiers, row, hrow, hhead⟩ := exists_methodHead?_of_ofTrees h
  obtain ⟨-, hcases⟩ := cases_of_methodHead? hhead
  rcases hcases with ⟨hnone, -⟩ | ⟨before, inner, after, hcut, -, hcases⟩
  · exact absurd hname (by simp [hnone])
  · rcases hcases with ⟨hnone, -⟩ | ⟨word, hmem, hword, hsome, -⟩
    · exact absurd hname (by simp [hnone])
    · obtain rfl := Option.some.inj (hname.symm.trans hsome)
      exact Piece.exists_token_of_isWord
        (hrow (mem_of_leadingVariables (mem_of_cutAtParens? hcut hmem))) hword

/-- A type declaration has the name that a word of its head spells. -/
theorem exists_token_of_type {head : TypeHead} (h : ofTrees hasBlock trees = .type head) :
    ∃ token ∈ Tree.tokensOf trees, token.isWord = true ∧ head.name = token.text := by
  obtain ⟨comment, modifiers, row, hrow, hhead⟩ := exists_typeHead?_of_ofTrees h
  obtain ⟨keyword, name, rest, rfl, hword, hname, -⟩ := cases_of_typeHead? hhead
  rw [hname]
  exact Piece.exists_token_of_isWord (hrow (List.mem_cons_of_mem _ (List.mem_cons_self ..))) hword

end Trees

end Head

/-! ## Outlines -/

namespace Outline

mutual

/-- The heads of all methods and constructors of an outline, nested ones included. -/
def methodHeads (outline : Outline) : List MethodHead :=
  match outline with
  | ⟨_, methods, nested⟩ => methods ++ methodHeadsOf nested
termination_by structural outline

/-- The heads of all methods and constructors of outlines. -/
def methodHeadsOf (outlines : List Outline) : List MethodHead :=
  match outlines with
  | [] => []
  | outline :: rest => methodHeads outline ++ methodHeadsOf rest
termination_by structural outlines

end

theorem methodHeadsOf_eq_flatMap (outlines : List Outline) :
    methodHeadsOf outlines = outlines.flatMap methodHeads := by
  induction outlines with
  | nil => rfl
  | cons outline rest ih => rw [methodHeadsOf, ih, List.flatMap_cons]

theorem exists_head_of_method? {statement : Statement} {head : MethodHead}
    (h : method? statement = some head) :
    ∃ trees ∈ statement.heads, ∃ hasBlock, Head.ofTrees hasBlock trees = .method head := by
  cases statement with
  | plain trees =>
    refine ⟨trees, by simp [Statement.heads], false, ?_⟩
    rw [method?] at h
    split at h
    · next heq => rw [heq, Option.some.inj h]
    · exact absurd h (by simp)
  | block trees body =>
    refine ⟨trees, by simp [Statement.heads], true, ?_⟩
    rw [method?] at h
    split at h
    · next heq => rw [heq, Option.some.inj h]
    · exact absurd h (by simp)

theorem exists_head_of_mem_members {kind : DeclarationKind} {body : List Statement}
    {head : MethodHead} (h : head ∈ (members kind body).filterMap method?) :
    ∃ trees ∈ Statement.headsOf body, ∃ hasBlock, Head.ofTrees hasBlock trees = .method head := by
  obtain ⟨statement, hstatement, hmethod⟩ := List.mem_filterMap.mp h
  have hbody : statement ∈ body := by
    unfold members at hstatement
    split at hstatement
    · exact (List.dropWhile_suffix endsInBlock).subset (List.mem_of_mem_tail hstatement)
    · exact hstatement
  obtain ⟨trees, htrees, hhead⟩ := exists_head_of_method? hmethod
  refine ⟨trees, ?_, hhead⟩
  obtain ⟨before, after, rfl⟩ := List.append_of_mem hbody
  clear h hstatement hbody
  induction before with
  | nil =>
    rw [List.nil_append, Statement.headsOf]
    exact List.mem_append_left _ htrees
  | cons other before ih =>
    rw [List.cons_append, Statement.headsOf]
    exact List.mem_append_right _ ih

mutual

/-- The methods of an outline are read from heads of the statement it is. -/
theorem exists_head_of_ofStatement? (statement : Statement) {outline : Outline}
    (h : ofStatement? statement = some outline) {head : MethodHead}
    (hhead : head ∈ outline.methodHeads) :
    ∃ trees ∈ statement.heads, ∃ hasBlock, Head.ofTrees hasBlock trees = .method head := by
  cases statement with
  | plain trees => exact absurd h (by simp [ofStatement?])
  | block trees body =>
    rw [ofStatement?] at h
    split at h
    · next typeHead heq =>
      obtain rfl := Option.some.inj h
      rw [methodHeads, List.mem_append] at hhead
      have hbody : ∃ trees ∈ Statement.headsOf body, ∃ hasBlock,
          Head.ofTrees hasBlock trees = .method head :=
        hhead.elim exists_head_of_mem_members (exists_head_of_ofStatements _ body)
      obtain ⟨found, hfound, hmethod⟩ := hbody
      exact ⟨found, by rw [Statement.heads]; exact List.mem_cons_of_mem _ hfound, hmethod⟩
    · exact absurd h (by simp)
termination_by structural statement

theorem exists_head_of_ofStatements (constants : Bool) (statements : List Statement)
    {head : MethodHead} (hhead : head ∈ methodHeadsOf (ofStatements constants statements)) :
    ∃ trees ∈ Statement.headsOf statements, ∃ hasBlock,
      Head.ofTrees hasBlock trees = .method head := by
  cases statements with
  | nil => exact absurd hhead (by simp [ofStatements, methodHeadsOf])
  | cons statement rest =>
    have hfirst := fun (outline : Outline) h (hmem : head ∈ outline.methodHeads) =>
      exists_head_of_ofStatement? statement h hmem
    have hrest := fun constants (h : head ∈ methodHeadsOf (ofStatements constants rest)) =>
      exists_head_of_ofStatements constants rest h
    have hmore : (∃ trees ∈ Statement.headsOf rest, ∃ hasBlock,
        Head.ofTrees hasBlock trees = .method head) →
        ∃ trees ∈ Statement.headsOf (statement :: rest), ∃ hasBlock,
          Head.ofTrees hasBlock trees = .method head := by
      rintro ⟨trees, htrees, hmethod⟩
      exact ⟨trees, by rw [Statement.headsOf]; exact List.mem_append_right _ htrees, hmethod⟩
    rw [ofStatements] at hhead
    split at hhead
    · exact hmore (hrest _ hhead)
    · rw [methodHeadsOf_eq_flatMap, List.flatMap_append, List.mem_append,
        ← methodHeadsOf_eq_flatMap, ← methodHeadsOf_eq_flatMap] at hhead
      rcases hhead with hhead | hhead
      · rw [methodHeadsOf_eq_flatMap] at hhead
        obtain ⟨outline, houtline, hhead⟩ := List.mem_flatMap.mp hhead
        obtain ⟨trees, htrees, hmethod⟩ :=
          hfirst outline (Option.mem_toList.mp houtline) hhead
        exact ⟨trees, by rw [Statement.headsOf]; exact List.mem_append_left _ htrees, hmethod⟩
      · exact hmore (hrest _ hhead)
termination_by structural statements

end

end Outline

end Source

/-! ## Declarations -/

namespace Declaration

mutual

/-- The methods and constructors of a declaration, nested declarations included. -/
def allMethods (declaration : Declaration) : List Method :=
  match declaration with
  | ⟨_, _, _, nested, _, _, methods, _, _⟩ => methods ++ allMethodsOf nested
termination_by structural declaration

/-- The methods and constructors of declarations. -/
def allMethodsOf (declarations : List Declaration) : List Method :=
  match declarations with
  | [] => []
  | declaration :: rest => allMethods declaration ++ allMethodsOf rest
termination_by structural declarations

end

theorem allMethods_eq (declaration : Declaration) :
    declaration.allMethods = declaration.methods ++ allMethodsOf declaration.nested := by
  cases declaration
  rfl

theorem allMethodsOf_eq_flatMap (declarations : List Declaration) :
    allMethodsOf declarations = declarations.flatMap allMethods := by
  induction declarations with
  | nil => rfl
  | cons declaration rest ih => rw [allMethodsOf, ih, List.flatMap_cons]

theorem mem_allMethods_of_nested? {declaration inner : Declaration} {name : String}
    (h : declaration.nested? name = some inner) {method : Method}
    (hmethod : method ∈ inner.allMethods) : method ∈ declaration.allMethods := by
  rw [allMethods_eq, allMethodsOf_eq_flatMap]
  exact List.mem_append_right _
    (List.mem_flatMap.mpr ⟨inner, List.mem_of_find?_eq_some h, hmethod⟩)

theorem mem_allMethods_of_descend? {declaration target : Declaration} {names : List String}
    (h : declaration.descend? names = some target) {method : Method}
    (hmethod : method ∈ target.allMethods) : method ∈ declaration.allMethods := by
  induction names generalizing declaration with
  | nil =>
    obtain rfl := Option.some.inj h
    exact hmethod
  | cons name names ih =>
    obtain ⟨inner, hinner, hrest⟩ := Option.bind_eq_some_iff.mp h
    exact mem_allMethods_of_nested? hinner (ih hrest)

/-- A path leads to methods of the declaration. -/
theorem mem_allMethods_of_find? {declaration target : Declaration} {path : String}
    (h : declaration.find? path = some target) {method : Method}
    (hmethod : method ∈ target.methods) : method ∈ declaration.allMethods := by
  have hall : method ∈ target.allMethods := by
    rw [allMethods_eq]
    exact List.mem_append_left _ hmethod
  unfold find? at h
  split at h
  · exact absurd h (by simp)
  · exact mem_allMethods_of_nested? h hall
  · split at h
    · exact mem_allMethods_of_descend? h hall
    · exact mem_allMethods_of_descend? h hall

end Declaration

namespace Source

namespace Outline

mutual

/-- Looking up the names of an outline makes a method of each head. -/
theorem exists_head_of_declare (context : Context) (owner : Option String) (outline : Outline)
    {method : Method} (h : method ∈ (declare context owner outline).allMethods) :
    ∃ head ∈ outline.methodHeads, ∃ context owner, method = head.method context owner := by
  cases outline with
  | mk head methods nested =>
    rw [Declaration.allMethods_eq, List.mem_append] at h
    unfold declare at h
    dsimp only at h
    rw [methodHeads]
    rcases h with h | h
    · obtain ⟨methodHead, hmem, rfl⟩ := List.mem_map.mp h
      exact ⟨methodHead, List.mem_append_left _ hmem, _, _, rfl⟩
    · obtain ⟨methodHead, hmem, hmethod⟩ := exists_head_of_declareAll _ _ nested h
      exact ⟨methodHead, List.mem_append_right _ hmem, hmethod⟩
termination_by structural outline

theorem exists_head_of_declareAll (context : Context) (owner : Option String)
    (outlines : List Outline) {method : Method}
    (h : method ∈ Declaration.allMethodsOf (declareAll context owner outlines)) :
    ∃ head ∈ methodHeadsOf outlines, ∃ context owner, method = head.method context owner := by
  cases outlines with
  | nil => exact absurd h (by simp [declareAll, Declaration.allMethodsOf])
  | cons outline rest =>
    have hfirst := fun (h : method ∈ (declare context owner outline).allMethods) =>
      exists_head_of_declare context owner outline h
    have hrest := fun (h : method ∈ Declaration.allMethodsOf (declareAll context owner rest)) =>
      exists_head_of_declareAll context owner rest h
    rw [declareAll, Declaration.allMethodsOf, List.mem_append] at h
    rw [methodHeadsOf]
    rcases h with h | h
    · obtain ⟨head, hmem, hmethod⟩ := hfirst h
      exact ⟨head, List.mem_append_left _ hmem, hmethod⟩
    · obtain ⟨head, hmem, hmethod⟩ := hrest h
      exact ⟨head, List.mem_append_right _ hmem, hmethod⟩
termination_by structural outlines

end

end Outline

/-! ## Files -/

theorem SourceFile.mem_declarations_of_main? {file : SourceFile} {outline : Outline}
    (h : file.main? = some outline) : outline ∈ file.declarations := by
  unfold main? at h
  rcases Option.or_eq_some_iff.mp h with hpublic | ⟨-, hfirst⟩
  · exact List.mem_of_find?_eq_some hpublic
  · exact List.mem_of_mem_head? hfirst

theorem root_eq_ok_iff {file : SourceFile} {root : Declaration} :
    file.root = .ok root ↔
      ∃ outline, file.main? = some outline ∧
        root = outline.declare { imports := file.importScope } none := by
  unfold SourceFile.root
  split
  · next outline houtline => simp [houtline, eq_comm]
  · next hnone => simp [hnone]

/-- What is read off the declaration that a source text is about shows that there is one. -/
theorem exists_parse_eq_of_map {α : Type} {source : String} {f : Declaration → α} {value : α}
    (h : (parse source).map f = .ok value) : ∃ root, parse source = .ok root ∧ f root = value := by
  cases hparse : parse source with
  | error fault =>
    rw [hparse] at h
    exact absurd h (by simp [Except.map])
  | ok root =>
    rw [hparse] at h
    exact ⟨root, rfl, Except.ok.inj h⟩

/-- Every method that a source text declares, constructors apart, is named by a word. -/
theorem isWordPart_name_of_parse {source : String} {root : Declaration}
    (h : parse source = .ok root) {method : Method} (hmethod : method ∈ root.allMethods)
    (hconstructor : method.isConstructor = false) :
    ∀ c ∈ method.name.toList, Lexeme.isWordPart c = true := by
  obtain ⟨outline, hmain, rfl⟩ := root_eq_ok_iff.mp h
  obtain ⟨head, hhead, context, owner, rfl⟩ := Outline.exists_head_of_declare _ _ _ hmethod
  have hheads : head ∈ Outline.methodHeadsOf
      (Outline.ofStatements false (Statement.ofSource source.toList)) := by
    rw [Outline.methodHeadsOf_eq_flatMap]
    exact List.mem_flatMap.mpr ⟨outline, SourceFile.mem_declarations_of_main? hmain, hhead⟩
  obtain ⟨trees, htrees, hasBlock, hread⟩ :=
    Outline.exists_head_of_ofStatements false _ hheads
  cases hname : head.name with
  | none => exact absurd hconstructor (by simp [MethodHead.method, hname])
  | some name =>
    obtain ⟨token, htoken, hword, rfl⟩ := Head.exists_token_of_ofTrees hread hname
    have hsource := Statement.mem_ofSource_of_mem_heads htrees htoken
    have htext := Token.isWordPart_of_mem_ofSource hsource hword
    simpa [MethodHead.method, hname] using htext

end Source

end JavaSignatures
