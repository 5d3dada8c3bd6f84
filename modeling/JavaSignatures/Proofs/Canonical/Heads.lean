import JavaSignatures.Proofs.Canonical.Types
import JavaSignatures.Source.Head
import Mathlib.Data.List.TakeWhile

set_option autoImplicit false

/-!
# Canonical source text: heads

The heads of methods, constructors and type declarations are read as what was written
(`ofTrees_method`, `ofTrees_head`).  A head begins with its modifiers, then come the type variables
of a method or the keyword of a type declaration.  No identifier can be taken for one of the words
that a reader of heads looks for (`Identifier.not_mem_headWords`).
-/

namespace JavaSignatures.Source.Canonical

open JavaSignatures.Character
open Lexeme (space)
open JavaSignatures.Source.Tree (IsTypePart IsHeadPart loosenAll)

/-! ## Words that are no names -/

/-- The words that a reader of heads looks for. -/
def headWords : List String :=
  Modifiers.keywords ++ ["class", "interface", "enum", "record", "this"]

theorem Identifier.not_mem_headWords (identifier : Identifier) :
    identifier.text ∉ headWords := by
  have hsubset : headWords ⊆ reservedWords := by decide
  intro hmem
  have hvalid := identifier.valid
  unfold isIdentifier at hvalid
  cases htext : identifier.text.toList with
  | nil => simp [htext] at hvalid
  | cons c rest =>
    rw [htext] at hvalid
    simp only [Bool.and_eq_true, Bool.not_eq_true', List.contains_eq_mem,
      decide_eq_false_iff_not] at hvalid
    exact hvalid.2 (hsubset hmem)

/-- The piece is no word that a reader of heads looks for. -/
def IsNoHeadWord (piece : Piece) : Prop :=
  piece.isAnnotation = false ∧ (piece.isWord = true → piece.text ∉ headWords)

theorem IsNoHeadWord.not_isModifier {piece : Piece} (h : IsNoHeadWord piece) :
    Modifiers.isModifier piece = false := by
  unfold Modifiers.isModifier
  rw [h.1, Bool.false_or, Bool.and_eq_false_iff]
  by_cases hword : piece.isWord = true
  · have hkeyword : piece.text ∉ Modifiers.keywords := fun hmem =>
      h.2 hword (List.mem_append_left _ hmem)
    exact Or.inr (by simpa using hkeyword)
  · exact Or.inl (by simpa using hword)

theorem IsNoHeadWord.kind? {piece : Piece} (h : IsNoHeadWord piece) : Head.kind? piece = none := by
  unfold Head.kind?
  split
  · rfl
  · next hword =>
    have htext := h.2 (by simpa using hword)
    split
    · next hclass => exact absurd (by rw [hclass]; decide) htext
    · next hinterface => exact absurd (by rw [hinterface]; decide) htext
    · next henum => exact absurd (by rw [henum]; decide) htext
    · next hrecord => exact absurd (by rw [hrecord]; decide) htext
    · rfl

theorem isNoHeadWord_identifier (gap : List Lexeme) (identifier : Identifier) :
    IsNoHeadWord (wordPiece gap identifier.spell) := by
  refine ⟨rfl, fun _ => ?_⟩
  rw [text_identifierPiece]
  exact identifier.not_mem_headWords

theorem isNoHeadWord_keyword (gap : List Lexeme) {word : String} (h : word ∉ headWords) :
    IsNoHeadWord (wordPiece gap word.toList) := by
  refine ⟨rfl, fun _ => ?_⟩
  rw [text_keywordPiece]
  exact h

/-- The first piece of a type is a word, with the gap in front of it, and no word of a head. -/
theorem JavaType.exists_first (type : JavaType) (gap : List Lexeme) :
    ∃ word rest, pieces (type.trees gap) = wordPiece gap word :: rest ∧
      IsNoHeadWord (wordPiece gap word) := by
  obtain ⟨rest, hpieces⟩ := type.exists_pieces_eq_cons gap
  refine ⟨type.firstWord, rest, hpieces, ?_⟩
  cases type with
  | primitive kind dimensions => exact isNoHeadWord_keyword gap (by cases kind <;> decide)
  | named name arguments dimensions => exact isNoHeadWord_identifier gap name.first

/-! ## Parameters -/

/-- The parameter as the reader of heads has it. -/
def JavaParameter.expr (varargs : Bool) (parameter : JavaParameter) : ParameterExpr :=
  { name := parameter.name.text, type := parameter.type.expr, varargs := varargs }

/-- Brackets and annotations, what can stand behind the name of a parameter, are none here. -/
theorem ofSingle?_type (type : JavaType) (gap : List Lexeme) (name : Identifier) :
    ParameterExpr.ofSingle? (pieces (type.trees gap) ++ [wordPiece [space] name.spell]) =
      some { name := name.text, type := type.expr } := by
  have hthis : (wordPiece [space] name.spell).isKeyword "this" = false := by
    rw [Identifier.spell, isKeyword_wordPiece, beq_eq_false_iff_ne]
    intro h
    apply name.not_mem_headWords
    rw [h]
    decide
  unfold ParameterExpr.ofSingle?
  rw [List.reverse_append, List.reverse_singleton, List.singleton_append]
  simp only [List.takeWhile_cons, List.dropWhile_cons, isBrackets_wordPiece,
    isAnnotation_wordPiece, Bool.or_false, Bool.false_eq_true, if_false, List.countP_nil,
    isWord_wordPiece, hthis, Bool.not_false, Bool.and_self, if_true, List.reverse_reverse,
    type.ofPieces?, Option.map_some]
  rw [text_identifierPiece]
  rfl

/-- The type in front of an ellipsis and the name behind it. -/
theorem ofSpread?_type (type : JavaType) (gap : List Lexeme) (name : Identifier) :
    ParameterExpr.ofSpread? false (pieces (type.trees gap)) [wordPiece [space] name.spell] =
      some { name := name.text, type := type.expr, varargs := true } := by
  unfold ParameterExpr.ofSpread?
  simp [isAnnotation_wordPiece, isWord_wordPiece, type.ofPieces?, text_identifierPiece]

section Ellipsis

variable {row : List Piece} (hrow : ∀ piece ∈ row, piece.isSymbol "..." = false)

include hrow in
theorem takeWhile_ellipsis (rest : List Piece) :
    (row ++ ellipsisPiece [] :: rest).takeWhile (fun piece => !piece.isSymbol "...") = row := by
  have hellipsis : (ellipsisPiece []).isSymbol "..." = true := by decide
  have hall : ∀ piece ∈ row, (!piece.isSymbol "...") = true := by
    intro piece hpiece
    rw [hrow piece hpiece]
    rfl
  rw [List.takeWhile_append_of_pos hall, List.takeWhile_cons_of_neg (by simp [hellipsis]),
    List.append_nil]

include hrow in
theorem dropWhile_ellipsis (rest : List Piece) :
    (row ++ ellipsisPiece [] :: rest).dropWhile (fun piece => !piece.isSymbol "...") =
      ellipsisPiece [] :: rest := by
  have hellipsis : (ellipsisPiece []).isSymbol "..." = true := by decide
  have hall : ∀ piece ∈ row, (!piece.isSymbol "...") = true := by
    intro piece hpiece
    rw [hrow piece hpiece]
    rfl
  rw [List.dropWhile_append_of_pos hall, List.dropWhile_cons_of_neg (by simp [hellipsis])]

end Ellipsis

/-- The pieces of a parameter are read as the parameter. -/
theorem JavaParameter.ofPieces? (varargs : Bool) (parameter : JavaParameter)
    (gap : List Lexeme) :
    ParameterExpr.ofPieces? (pieces (parameter.trees varargs gap)) =
      some (parameter.expr varargs) := by
  obtain ⟨word, more, hpieces, hfirst⟩ := parameter.type.exists_first gap
  have hdots : ∀ piece ∈ pieces (parameter.type.trees gap), piece.isSymbol "..." = false :=
    fun piece hpiece =>
      not_isSymbol_of_inType (parameter.type.inType gap piece hpiece) (by decide)
  have hmodifiers : ∀ rest, (pieces (parameter.type.trees gap) ++ rest).dropWhile
      Modifiers.isModifier = pieces (parameter.type.trees gap) ++ rest := by
    intro rest
    rw [hpieces, List.cons_append, List.dropWhile_cons_of_neg (by simp [hfirst.not_isModifier])]
  unfold trees expr
  rw [pieces_append, pieces_append]
  cases varargs with
  | false =>
    have hall : ∀ piece ∈ pieces (parameter.type.trees gap) ++
        [wordPiece [space] parameter.name.spell], (!piece.isSymbol "...") = true := by
      rw [List.forall_mem_append, List.forall_mem_singleton, isSymbol_wordPiece]
      exact ⟨fun piece hpiece => by rw [hdots piece hpiece]; rfl, rfl⟩
    have hrest := List.dropWhile_eq_nil_iff.mpr hall
    unfold ParameterExpr.ofPieces?
    simp only [Bool.false_eq_true, if_false, pieces, List.map_nil, List.nil_append, List.map_cons,
      ofTree_word] at hrest hmodifiers ⊢
    rw [hmodifiers, hrest]
    exact ofSingle?_type parameter.type gap parameter.name
  | true =>
    have hdrop := dropWhile_ellipsis hdots [wordPiece [space] parameter.name.spell]
    have htake := takeWhile_ellipsis hdots [wordPiece [space] parameter.name.spell]
    unfold ParameterExpr.ofPieces?
    simp only [if_true, pieces, List.map_nil, List.map_cons, ofTree_word, ofTree_ellipsis,
      List.cons_append, List.nil_append] at hdrop htake hmodifiers ⊢
    simp only [hmodifiers, hdrop, htake, Nat.lt_irrefl, decide_false]
    exact ofSpread?_type parameter.type gap parameter.name

/-- The pieces of a parameter hold no comma. -/
theorem JavaParameter.not_isSymbol_comma (varargs : Bool) (parameter : JavaParameter)
    (gap : List Lexeme) :
    ∀ piece ∈ pieces (parameter.trees varargs gap), piece.isSymbol "," = false := by
  have hellipsis : (ellipsisPiece []).isSymbol "," = false := by decide
  unfold trees
  rw [pieces_append, pieces_append, List.forall_mem_append, List.forall_mem_append]
  refine ⟨fun piece hpiece =>
    not_isSymbol_of_inType (parameter.type.inType gap piece hpiece) (by decide), ?_, ?_⟩
  · cases varargs with
    | false => simp [pieces]
    | true => simpa [pieces, ofTree_ellipsis] using hellipsis
  · intro piece hpiece
    obtain rfl := List.mem_singleton.mp hpiece
    rfl

/-- The parameters between parentheses are read one by one. -/
theorem JavaMethod.listOfTrees_parameters (method : JavaMethod) :
    ParameterExpr.listOfTrees (loosenAll method.parameterTrees) =
      method.allParameters.map fun (varargs, parameter) => parameter.expr varargs := by
  have hpieces : Piece.ofTrees (loosenAll method.parameterTrees) =
      pieces method.parameterTrees :=
    pieces_of_loosenAll fun tree htree =>
      IsHeadPart.part (method.isTypePart_parameters tree htree)
  unfold ParameterExpr.listOfTrees
  rw [hpieces]
  exact filterMap_parts_commas rfl (fun item _ => item.2.ofPieces? item.1)
    fun item _ => item.2.not_isSymbol_comma item.1

/-! ## Modifiers and comments -/

/-- The pieces of words in front of a declaration. -/
def wordPieces : List String → List Lexeme → List Piece
  | [], _ => []
  | word :: words, gap => wordPiece gap word.toList :: wordPieces words [space]

/-- The gap in front of what follows words. -/
def gapBehind (words : List String) (gap : List Lexeme) : List Lexeme :=
  if words.isEmpty then gap else [space]

theorem pieces_words (words : List String) (trees : List Lexeme → List Tree)
    (gap : List Lexeme) :
    pieces (wordTrees words trees gap) =
      wordPieces words gap ++ pieces (trees (gapBehind words gap)) := by
  induction words generalizing gap with
  | nil => rfl
  | cons word words ih =>
    simp only [wordTrees, pieces_cons, ofTree_word, wordPieces, ih [space], gapBehind,
      List.isEmpty_cons, Bool.false_eq_true, if_false, List.cons_append]
    cases words <;> rfl

theorem wordTrees_append (first second : List String) (trees : List Lexeme → List Tree) :
    wordTrees (first ++ second) trees = wordTrees first (wordTrees second trees) := by
  induction first with
  | nil => rfl
  | cons word words ih => simp [wordTrees, ih]

theorem comments_words (words : List String) :
    (wordPieces words [space]).flatMap Piece.comments = [] := by
  induction words with
  | nil => rfl
  | cons word words ih =>
    rw [wordPieces, List.flatMap_cons, ih]
    rfl

/-- Modifiers are split off up to the first piece that is none. -/
theorem split_words {words : List String} (hwords : ∀ word ∈ words, word ∈ Modifiers.keywords)
    {first : Piece} (hfirst : Modifiers.isModifier first = false) (rest : List Piece)
    (gap : List Lexeme) :
    Modifiers.split (wordPieces words gap ++ first :: rest) = (⟨words, []⟩, first :: rest) := by
  have hall : ∀ gap, ∀ piece ∈ wordPieces words gap, Modifiers.isModifier piece = true := by
    induction words with
    | nil => simp [wordPieces]
    | cons word words ih =>
      intro gap
      rw [wordPieces, List.forall_mem_cons]
      refine ⟨?_, ih (fun other hother => hwords other (List.mem_cons_of_mem _ hother)) [space]⟩
      simp [Modifiers.isModifier, text_keywordPiece, isWord_wordPiece, hwords word (by simp)]
  have htexts : ∀ gap, ((wordPieces words gap).filter Piece.isWord).map Piece.text = words := by
    clear hall hwords
    induction words with
    | nil => simp [wordPieces]
    | cons word words ih =>
      intro gap
      rw [wordPieces, List.filter_cons_of_pos (isWord_wordPiece gap word.toList), List.map_cons,
        ih [space], text_keywordPiece]
  have hcomments : (wordPieces words gap).tail.flatMap Piece.comments = [] := by
    cases words with
    | nil => rfl
    | cons word words => exact comments_words words
  unfold Modifiers.split
  rw [List.takeWhile_append_of_pos (hall gap), List.dropWhile_append_of_pos (hall gap),
    List.takeWhile_cons_of_neg (by simp [hfirst]), List.dropWhile_cons_of_neg (by simp [hfirst]),
    List.append_nil, Modifiers.ofPieces, htexts gap, hcomments]

/-- The row begins with the gap. -/
def LeadsWith (gap : List Lexeme) (row : List Piece) : Prop :=
  ∃ first rest token more, row = first :: rest ∧ first.tokens = token :: more ∧ token.gap = gap

theorem leadsWith_words (words : List String) {trees : List Lexeme → List Tree}
    (h : ∀ gap, LeadsWith gap (pieces (trees gap))) (gap : List Lexeme) :
    LeadsWith gap (pieces (wordTrees words trees gap)) := by
  cases words with
  | nil => exact h gap
  | cons word words => exact ⟨wordPiece gap word.toList, _, _, _, rfl, rfl, rfl⟩

/-- The comment in front of a declaration documents it. -/
theorem docComment_eq (comment : Option DocText) (words : List String) {gap : List Lexeme}
    (hgap : gap.filter Lexeme.isComment = []) {row : List Piece}
    (hrow : LeadsWith (commentGap comment gap) row) :
    Head.docComment ((row.head?.map Piece.comments).getD []) ⟨words, []⟩ =
      comment.map fun comment => String.ofList comment.spell := by
  obtain ⟨first, rest, token, more, rfl, htokens, htoken⟩ := hrow
  have hcomments : first.comments = ((commentGap comment gap).filter Lexeme.isComment).map
      fun lexeme => String.ofList lexeme.text := by
    rw [Piece.comments, htokens, ← htoken]
    rfl
  rw [List.head?_cons, Option.map_some, Option.getD_some, hcomments]
  cases comment with
  | none =>
    simp only [commentGap, hgap]
    rfl
  | some comment =>
    have hfilter : (gap ++ [Lexeme.docComment comment.body.toList, space]).filter
        Lexeme.isComment = [Lexeme.docComment comment.body.toList] := by
      rw [List.filter_append, hgap]
      rfl
    have hdoc : Head.isDocComment (String.ofList comment.spell) = true := by
      simp [Head.isDocComment, DocText.spell, List.isPrefixOf]
    simp only [commentGap, hfilter]
    change (some (String.ofList comment.spell)).filter Head.isDocComment = _
    rw [Option.filter_some, if_pos hdoc, Option.map_some]

/-- The modifiers in front of a declaration are split off. -/
theorem split_front (comment : Option DocText) {words : List String}
    (hwords : ∀ word ∈ words, word ∈ Modifiers.keywords) {trees : List Lexeme → List Tree}
    (htrees : ∀ gap, ∃ first more, pieces (trees gap) = first :: more ∧
      Modifiers.isModifier first = false) (gap : List Lexeme) :
    ∃ behind, Modifiers.split (pieces (frontTrees comment words trees gap)) =
      (⟨words, []⟩, pieces (trees behind)) := by
  obtain ⟨first, more, hpieces, hfirst⟩ := htrees (gapBehind words (commentGap comment gap))
  refine ⟨gapBehind words (commentGap comment gap), ?_⟩
  rw [frontTrees, pieces_words, hpieces]
  exact split_words hwords hfirst more _

/-- The comment in front of a declaration is found in front of its modifiers. -/
theorem docComment_front (comment : Option DocText) (words : List String)
    {trees : List Lexeme → List Tree} (htrees : ∀ gap, LeadsWith gap (pieces (trees gap)))
    {gap : List Lexeme} (hgap : gap.filter Lexeme.isComment = []) :
    Head.docComment
      (((pieces (frontTrees comment words trees gap)).head?.map Piece.comments).getD [])
      ⟨words, []⟩ = comment.map fun comment => String.ofList comment.spell :=
  docComment_eq comment words hgap (leadsWith_words words htrees _)

/-! ## Type variables in front -/

/-- Type variables in front of a row are read, and the row is left. -/
theorem leadingVariables_angles (gap : List Lexeme) (introduced : List JavaVariable)
    {row : List Piece} (hrow : Head.leadingVariables row = ([], row)) :
    Head.leadingVariables (pieces (angleTrees gap (introduced.map JavaVariable.trees)) ++ row) =
      (introduced.map JavaVariable.expr, row) := by
  cases introduced with
  | nil => exact hrow
  | cons first rest =>
    rw [pieces_angles gap (by simp) (isTypePart_variables (first :: rest)),
      List.singleton_append, anglePiece, listOfPieces_variables]
    rfl

/-- The type variables in front of trees, if there are any, and the gap they leave. -/
theorem exists_pieces_variables (introduced : List JavaVariable)
    (trees : List Lexeme → List Tree) (gap : List Lexeme) :
    ∃ behind, pieces (variableTrees introduced trees gap) =
      pieces (angleTrees gap (introduced.map JavaVariable.trees)) ++ pieces (trees behind) := by
  cases introduced with
  | nil => exact ⟨gap, rfl⟩
  | cons first rest => exact ⟨[space], pieces_append _ _⟩

/-! ## Heads of methods -/

/-- The result of a method as the reader of heads has it. -/
def JavaResult.expr : JavaResult → TypeExpr
  | .void => .name "void"
  | .value type => type.expr

theorem JavaResult.ofPieces? (result : JavaResult) (gap : List Lexeme) :
    TypeExpr.ofPieces? (pieces (result.trees gap)) = some result.expr := by
  cases result with
  | void =>
    have hvoid : Name.withoutBlanks "void".toList = "void" := by decide
    exact ofPieces?_keyword gap hvoid 0
  | value type => exact type.ofPieces? gap

theorem JavaResult.exists_first (result : JavaResult) (gap : List Lexeme) :
    ∃ word rest, pieces (result.trees gap) = wordPiece gap word :: rest ∧
      IsNoHeadWord (wordPiece gap word) := by
  cases result with
  | void => exact ⟨"void".toList, [], rfl, isNoHeadWord_keyword gap (by decide)⟩
  | value type => exact type.exists_first gap

namespace JavaMethod

/-- The head of a method as the reader of heads has it. -/
def expr (method : JavaMethod) : MethodHead :=
  { name := method.called.map fun called => called.2.text
    result := (method.called.map fun called => called.1.expr).getD (.verbatim "")
    typeVariables := method.typeVariables.map JavaVariable.expr
    parameters := method.allParameters.map fun (varargs, parameter) => parameter.expr varargs
    visibility := method.visibility
    comment := method.comment.map fun comment => String.ofList comment.spell }

/-- What is called begins with a word that is no word of a head. -/
theorem exists_first_called (owner : Identifier) (called : Option (JavaResult × Identifier))
    (gap : List Lexeme) :
    ∃ word rest, pieces (calledTrees owner called gap) = wordPiece gap word :: rest ∧
      IsNoHeadWord (wordPiece gap word) := by
  cases called with
  | none => exact ⟨_, [], rfl, isNoHeadWord_identifier gap owner⟩
  | some called =>
    obtain ⟨result, name⟩ := called
    obtain ⟨word, rest, hpieces, hfirst⟩ := result.exists_first gap
    refine ⟨word, rest ++ [wordPiece [space] name.spell], ?_, hfirst⟩
    rw [calledTrees, pieces_append, hpieces]
    rfl

theorem inType_called (owner : Identifier) (called : Option (JavaResult × Identifier))
    (gap : List Lexeme) :
    ∀ piece ∈ pieces (calledTrees owner called gap), inType piece = true := by
  cases called with
  | none =>
    intro piece hpiece
    obtain rfl := List.mem_singleton.mp hpiece
    rfl
  | some called =>
    obtain ⟨result, name⟩ := called
    rw [calledTrees, pieces_append, List.forall_mem_append]
    constructor
    · cases result with
      | void =>
        intro piece hpiece
        obtain rfl := List.mem_singleton.mp hpiece
        rfl
      | value type => exact type.inType gap
    · intro piece hpiece
      obtain rfl := List.mem_singleton.mp hpiece
      rfl

/-- The row is cut at the first parentheses. -/
theorem cutAtParens?_append {row : List Piece} (hrow : ∀ piece ∈ row, inType piece = true)
    (tokens : List Token) (inner : List Tree) (rest : List Piece) :
    Head.cutAtParens? (row ++ ⟨tokens, .parens inner⟩ :: rest) = some (row, inner, rest) := by
  induction row with
  | nil => rfl
  | cons piece row ih =>
    have hmore := ih fun other hother => hrow other (List.mem_cons_of_mem _ hother)
    have hpiece := hrow piece (by simp)
    obtain ⟨pieceTokens, shape⟩ := piece
    cases shape with
    | parens inner => exact absurd hpiece (by simp [inType])
    | _ => simp [Head.cutAtParens?, hmore]

/-- The row behind the modifiers is read as the head of the method. -/
theorem methodHead?_eq (owner : Identifier) (method : JavaMethod) (gap : List Lexeme)
    (comment : Option String) (modifiers : Modifiers) :
    Head.methodHead? true comment modifiers (pieces (method.row owner gap)) =
      some { method.expr with visibility := modifiers.visibility, comment := comment } := by
  obtain ⟨behind, hpieces⟩ := exists_pieces_variables method.typeVariables
    (fun gap => calledTrees owner method.called gap ++ [method.parens]) gap
  obtain ⟨word, more, hfirst, -⟩ := exists_first_called owner method.called behind
  have hparens : Piece.ofTree method.parens =
      ⟨Tree.tokens method.parens, .parens (loosenAll method.parameterTrees)⟩ := rfl
  have hleading : Head.leadingVariables
      (pieces (calledTrees owner method.called behind ++ [method.parens])) =
      ([], pieces (calledTrees owner method.called behind ++ [method.parens])) := by
    rw [pieces_append, hfirst]
    rfl
  have hcut : Head.cutAtParens?
      (pieces (calledTrees owner method.called behind ++ [method.parens])) =
      some (pieces (calledTrees owner method.called behind),
        loosenAll method.parameterTrees, []) := by
    rw [pieces_append, pieces_cons, hparens]
    exact cutAtParens?_append (inType_called owner method.called behind) _ _ _
  unfold Head.methodHead? row
  rw [hpieces, leadingVariables_angles gap method.typeVariables hleading]
  simp only [hcut, method.listOfTrees_parameters]
  unfold expr
  cases method.called with
  | none =>
    simp only [calledTrees, pieces, List.map_cons, List.map_nil, ofTree_word]
    simp [isWord_wordPiece]
  | some called =>
    obtain ⟨result, name⟩ := called
    have hresult : (pieces (result.trees behind)).isEmpty = false := by
      obtain ⟨word, rest, hpieces, -⟩ := result.exists_first behind
      rw [hpieces]
      rfl
    have hcalled : pieces (calledTrees owner (some (result, name)) behind) =
        pieces (result.trees behind) ++ [wordPiece [space] name.spell] := pieces_append _ _
    rw [hcalled]
    simp only [List.getLast?_concat, List.dropLast_concat, isWord_wordPiece, hresult,
      Bool.not_true, Bool.false_eq_true, if_false, result.ofPieces?, Option.map_some,
      List.takeWhile_nil, List.countP_nil, text_identifierPiece, Option.getD_some]
    rfl

/-- The row behind the modifiers begins with the gap, and with no word of a head. -/
theorem exists_first_row (owner : Identifier) (method : JavaMethod) (gap : List Lexeme) :
    ∃ first more, pieces (method.row owner gap) = first :: more ∧
      IsNoHeadWord first ∧ LeadsWith gap (first :: more) := by
  unfold row
  cases hvariables : method.typeVariables with
  | nil =>
    obtain ⟨word, more, hpieces, hfirst⟩ := exists_first_called owner method.called gap
    refine ⟨_, more ++ pieces [method.parens], ?_, hfirst, _, _, _, _, rfl, rfl, rfl⟩
    simp only [variableTrees, List.isEmpty_nil, if_true, pieces_append, hpieces]
    rfl
  | cons first rest =>
    have hangles := pieces_angles gap (by simp) (isTypePart_variables (first :: rest))
    refine ⟨anglePiece gap ((first :: rest).map JavaVariable.trees),
      pieces (calledTrees owner method.called [space] ++ [method.parens]), ?_,
      ⟨rfl, fun hword => absurd hword (by simp [anglePiece, Piece.isWord])⟩,
      _, _, _, _, rfl, rfl, rfl⟩
    simp only [variableTrees, List.isEmpty_cons, Bool.false_eq_true, if_false, pieces_append,
      hangles]
    rfl

end JavaMethod

theorem accessWords_modifiers (visibility : Visibility) :
    ∀ word ∈ accessWords visibility, word ∈ Modifiers.keywords := by
  cases visibility <;> simp [accessWords, Modifiers.keywords]

/-- No head of a type declaration begins with a word that is not one of a head. -/
theorem typeHead?_eq_none {first : Piece} (hfirst : IsNoHeadWord first) (rest : List Piece)
    (comment : Option String) (modifiers : Modifiers) :
    Head.typeHead? comment modifiers (first :: rest) = none := by
  cases rest with
  | nil => rfl
  | cons name rest =>
    simp only [Head.typeHead?, hfirst.kind?]

/-- The head of a method or a constructor is read as what was written. -/
theorem ofTrees_method (owner : Identifier) (method : JavaMethod) {gap : List Lexeme}
    (hgap : gap.filter Lexeme.isComment = []) :
    Head.ofTrees true (loosenAll (method.head owner gap)) = .method method.expr := by
  have hleads : ∀ gap, LeadsWith gap (pieces (method.row owner gap)) := by
    intro gap
    obtain ⟨first, more, hrow, -, hleads⟩ := method.exists_first_row owner gap
    rw [hrow]
    exact hleads
  -- the modifiers end in front of the type variables, the result or the name
  have hfirst : ∀ gap, ∃ first more, pieces (method.row owner gap) = first :: more ∧
      Modifiers.isModifier first = false := by
    intro gap
    obtain ⟨first, more, hrow, hfirst, -⟩ := method.exists_first_row owner gap
    exact ⟨first, more, hrow, hfirst.not_isModifier⟩
  obtain ⟨behind, hsplit⟩ :=
    split_front method.comment (accessWords_modifiers method.visibility) hfirst gap
  have hcomment := docComment_front method.comment (accessWords method.visibility) hleads hgap
  have hvisibility :
      Modifiers.visibility ⟨accessWords method.visibility, []⟩ = method.visibility := by
    cases method.visibility <;> rfl
  have hmethod := method.methodHead?_eq owner behind
    (method.comment.map fun comment => String.ofList comment.spell)
    ⟨accessWords method.visibility, []⟩
  have htype : ∀ comment modifiers,
      Head.typeHead? comment modifiers (pieces (method.row owner behind)) = none := by
    intro comment modifiers
    obtain ⟨first, more, hrow, hfirst, -⟩ := method.exists_first_row owner behind
    rw [hrow]
    exact typeHead?_eq_none hfirst more comment modifiers
  have hhead : pieces (method.head owner gap) = pieces (frontTrees method.comment
      (accessWords method.visibility) (method.row owner) gap) := rfl
  unfold Head.ofTrees
  rw [pieces_of_loosenAll (method.isHeadPart owner gap), hhead]
  simp only [hsplit, hcomment, if_true, htype, hmethod, hvisibility]
  rfl

/-! ## Heads of type declarations -/

/-- The head of a declaration as the reader of heads has it. -/
def JavaHead.expr (head : JavaHead) (isStatic : Bool) : TypeHead :=
  { kind := head.kind
    name := head.name.text
    typeVariables := head.typeVariables.map JavaVariable.expr
    visibility := head.visibility
    isStatic := isStatic
    comment := head.comment.map fun comment => String.ofList comment.spell }

namespace JavaHead

/-- The trees of a declaration behind its modifiers. -/
def row (head : JavaHead) : List Lexeme → List Tree :=
  wordTrees [kindWord head.kind] head.nameTrees

theorem modifierWords_keywords (head : JavaHead) (isStatic : Bool) :
    ∀ word ∈ head.modifierWords isStatic, word ∈ Modifiers.keywords := by
  intro word hword
  rcases List.mem_append.mp hword with hword | hword
  · exact accessWords_modifiers _ word hword
  · cases isStatic with
    | false => simp at hword
    | true =>
      obtain rfl := List.mem_singleton.mp hword
      decide

theorem visibility_modifierWords (head : JavaHead) (isStatic : Bool) :
    Modifiers.visibility ⟨head.modifierWords isStatic, []⟩ = head.visibility := by
  unfold modifierWords
  cases head.visibility <;> cases isStatic <;> rfl

theorem isStatic_modifierWords (head : JavaHead) (isStatic : Bool) :
    Modifiers.isStatic ⟨head.modifierWords isStatic, []⟩ = isStatic := by
  unfold modifierWords
  cases head.visibility <;> cases isStatic <;> decide

theorem kind?_kindWord (gap : List Lexeme) (kind : DeclarationKind) :
    Head.kind? (wordPiece gap (kindWord kind).toList) = some kind := by
  unfold Head.kind?
  rw [isWord_wordPiece, text_keywordPiece]
  cases kind <;> rfl

theorem not_isModifier_kindWord (gap : List Lexeme) (kind : DeclarationKind) :
    Modifiers.isModifier (wordPiece gap (kindWord kind).toList) = false := by
  unfold Modifiers.isModifier
  rw [isWord_wordPiece, isAnnotation_wordPiece, text_keywordPiece]
  cases kind <;> decide

/-- The row behind the modifiers is read as the head of the declaration. -/
theorem typeHead?_eq (head : JavaHead) (gap : List Lexeme) (comment : Option String)
    (modifiers : Modifiers) :
    Head.typeHead? comment modifiers (pieces (head.row gap)) =
      some
        { kind := head.kind
          name := head.name.text
          typeVariables := head.typeVariables.map JavaVariable.expr
          visibility := modifiers.visibility
          isStatic := modifiers.isStatic
          comment := comment } := by
  let parens : List Tree :=
    if head.kind == .recordKind then [.group (Token.mark [] '(') [] (some (Token.mark [] ')'))]
    else []
  have hparens : Head.leadingVariables (pieces parens) = ([], pieces parens) := by
    simp only [parens]
    split <;> rfl
  have hrow : pieces (head.row gap) = wordPiece gap (kindWord head.kind).toList ::
      wordPiece [space] head.name.spell ::
        (pieces (angleTrees [] (head.typeVariables.map JavaVariable.trees)) ++ pieces parens) := by
    rw [← pieces_append]
    rfl
  rw [hrow]
  simp only [Head.typeHead?, kind?_kindWord, isWord_wordPiece, if_true,
    leadingVariables_angles [] head.typeVariables hparens, text_identifierPiece]

end JavaHead

/-- The head of a type declaration is read as what was written. -/
theorem ofTrees_head (head : JavaHead) (isStatic : Bool) {gap : List Lexeme}
    (hgap : gap.filter Lexeme.isComment = []) :
    Head.ofTrees true (loosenAll (head.trees isStatic gap)) = .type (head.expr isStatic) := by
  have hhead : pieces (head.trees isStatic gap) =
      pieces (frontTrees head.comment (head.modifierWords isStatic) head.row gap) := by
    unfold frontTrees JavaHead.row
    rw [← wordTrees_append]
    rfl
  have hleads : ∀ gap, LeadsWith gap (pieces (head.row gap)) :=
    fun gap => ⟨_, _, _, _, rfl, rfl, rfl⟩
  -- the modifiers end in front of the keyword
  have hfirst : ∀ gap, ∃ first more, pieces (head.row gap) = first :: more ∧
      Modifiers.isModifier first = false :=
    fun gap => ⟨_, _, rfl, JavaHead.not_isModifier_kindWord gap head.kind⟩
  obtain ⟨behind, hsplit⟩ :=
    split_front head.comment (head.modifierWords_keywords isStatic) hfirst gap
  have hcomment := docComment_front head.comment (head.modifierWords isStatic) hleads hgap
  unfold Head.ofTrees
  rw [pieces_of_loosenAll (head.isHeadPart isStatic gap), hhead]
  simp only [hsplit, hcomment, if_true, JavaHead.typeHead?_eq, JavaHead.visibility_modifierWords,
    JavaHead.isStatic_modifierWords]
  rfl

end JavaSignatures.Source.Canonical
