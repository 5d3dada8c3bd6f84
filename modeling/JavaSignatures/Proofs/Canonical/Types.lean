import JavaSignatures.Proofs.Canonical.Trees
import JavaSignatures.Source.TypeExpr

set_option autoImplicit false

/-!
# Canonical source text: types and type variables

The pieces of a type and of a type variable are read as what was written (`JavaType.ofPieces?`,
`JavaVariable.ofPieces?`).  A list is cut at its separators first (`parts_rows`), which stand in no
part of it, since arguments are hidden in the one piece that their angle brackets make.
-/

namespace JavaSignatures.Source.Canonical

open JavaSignatures.Character
open Lexeme (space)
open JavaSignatures.Source.Tree (IsTypePart IsHeadPart loosenAll)

/-! ## Pieces -/

/-- The pieces of trees. -/
def pieces (trees : List Tree) : List Piece := trees.map Piece.ofTree

theorem pieces_append (first second : List Tree) :
    pieces (first ++ second) = pieces first ++ pieces second :=
  List.map_append

theorem pieces_cons (tree : Tree) (rest : List Tree) :
    pieces (tree :: rest) = Piece.ofTree tree :: pieces rest := rfl

/-- The piece of a word. -/
def wordPiece (gap : List Lexeme) (word : List Char) : Piece := ⟨[Token.word gap word], .word⟩

/-- The piece of a symbol. -/
def markPiece (gap : List Lexeme) (c : Char) : Piece := ⟨[Token.mark gap c], .symbol⟩

/-- The piece of an ellipsis. -/
def ellipsisPiece (gap : List Lexeme) : Piece := ⟨[Token.ellipsis gap], .symbol⟩

/-- The piece of a pair of brackets. -/
def bracketPiece : Piece := ⟨[Token.mark [] '[', Token.mark [] ']'], .brackets⟩

theorem ofTree_word (gap : List Lexeme) (word : List Char) :
    Piece.ofTree (.leaf (Token.word gap word)) = wordPiece gap word := rfl

theorem ofTree_mark (gap : List Lexeme) (c : Char) :
    Piece.ofTree (.leaf (Token.mark gap c)) = markPiece gap c := rfl

theorem ofTree_ellipsis (gap : List Lexeme) :
    Piece.ofTree (.leaf (Token.ellipsis gap)) = ellipsisPiece gap := rfl

theorem pieces_brackets (dimensions : Nat) :
    pieces (bracketTrees dimensions) = List.replicate dimensions bracketPiece := by
  rw [pieces, bracketTrees, List.map_replicate]
  rfl

theorem text_wordPiece (gap : List Lexeme) (word : List Char) :
    (wordPiece gap word).text = String.ofList word := by
  simp [wordPiece, Piece.text, Token.word]

theorem text_keywordPiece (gap : List Lexeme) (word : String) :
    (wordPiece gap word.toList).text = word := by
  rw [text_wordPiece, String.ofList_toList]

theorem text_identifierPiece (gap : List Lexeme) (identifier : Identifier) :
    (wordPiece gap identifier.spell).text = identifier.text :=
  text_keywordPiece gap identifier.text

theorem isWord_wordPiece (gap : List Lexeme) (word : List Char) :
    (wordPiece gap word).isWord = true := rfl

theorem isAnnotation_wordPiece (gap : List Lexeme) (word : List Char) :
    Piece.isAnnotation (wordPiece gap word) = false := rfl

theorem isBrackets_wordPiece (gap : List Lexeme) (word : List Char) :
    (wordPiece gap word).isBrackets = false := rfl

theorem isSymbol_wordPiece (gap : List Lexeme) (word : List Char) (symbol : String) :
    (wordPiece gap word).isSymbol symbol = false := rfl

theorem isKeyword_wordPiece (gap : List Lexeme) (word keyword : String) :
    (wordPiece gap word.toList).isKeyword keyword = (word == keyword) := by
  rw [Piece.isKeyword, text_keywordPiece, isWord_wordPiece, Bool.true_and]

theorem isSymbol_markPiece (gap : List Lexeme) (c : Char) (symbol : String) :
    (markPiece gap c).isSymbol symbol = (String.ofList [c] == symbol) := by
  simp [markPiece, Piece.isSymbol, Piece.text, Token.mark]

theorem isSymbol_ellipsisPiece (gap : List Lexeme) (symbol : String) :
    (ellipsisPiece gap).isSymbol symbol = ("..." == symbol) := by
  have htext : String.ofList ['.', '.', '.'] = "..." := by decide
  simp [ellipsisPiece, Piece.isSymbol, Piece.text, Token.ellipsis, htext]

/-- The piece of a type part begins no annotation. -/
theorem not_isSymbol_at {tree : Tree} (h : IsTypePart tree) :
    (Piece.ofTree tree).isSymbol "@" = false := by
  cases h with
  | plain hplain =>
    cases hplain with
    | word gap text => rfl
    | mark gap hc =>
      rw [ofTree_mark, isSymbol_markPiece]
      rcases hc with rfl | rfl | rfl <;> decide
    | ellipsis gap =>
      rw [ofTree_ellipsis, isSymbol_ellipsisPiece]
      decide
  | brackets gap behind => rfl
  | angles gap behind h => rfl

theorem not_isSymbol_at_of_isHeadPart {tree : Tree} (h : IsHeadPart tree) :
    (Piece.ofTree tree).isSymbol "@" = false := by
  cases h with
  | part h => exact not_isSymbol_at h
  | parens gap behind h => rfl

/-- Without annotations there is nothing to put together. -/
theorem joinAnnotations_eq_self {row : List Piece}
    (h : ∀ piece ∈ row, piece.isSymbol "@" = false) : Piece.joinAnnotations row = row := by
  unfold Piece.joinAnnotations
  induction row with
  | nil => rfl
  | cons piece rest ih =>
    rw [List.foldr_cons, ih fun other hother => h other (List.mem_cons_of_mem _ hother),
      h piece (by simp)]
    rfl

/-- The pieces between angle brackets. -/
theorem pieces_inside {trees : List Tree} (h : ∀ tree ∈ trees, IsTypePart tree) :
    Piece.joinAnnotations (Piece.ofTreesApart trees) = pieces trees := by
  rw [Piece.ofTreesApart_eq_map]
  refine joinAnnotations_eq_self fun piece hpiece => ?_
  obtain ⟨tree, htree, rfl⟩ := List.mem_map.mp hpiece
  exact not_isSymbol_at (h tree htree)

/-- The pieces of a head whose angle brackets were taken apart. -/
theorem pieces_of_loosenAll {trees : List Tree} (h : ∀ tree ∈ trees, IsHeadPart tree) :
    Piece.ofTrees (loosenAll trees) = pieces trees := by
  have hgroups : Tree.groupAngles (loosenAll trees) = trees :=
    (Tree.regroups_loosenAll fun tree htree => (h tree htree).regroups).groupFrom_eq
  rw [Piece.ofTrees, hgroups, Piece.ofTreesApart_eq_map]
  refine joinAnnotations_eq_self fun piece hpiece => ?_
  obtain ⟨tree, htree, rfl⟩ := List.mem_map.mp hpiece
  exact not_isSymbol_at_of_isHeadPart (h tree htree)

/-! ## Rows between separators -/

section Parts

variable (separator : Piece → Bool)

theorem parts_ne_nil (row : List Piece) : Piece.parts separator row ≠ [] := by
  cases row with
  | nil => simp [Piece.parts]
  | cons piece row =>
    rw [Piece.parts]
    split
    · simp
    · split <;> simp

/-- A row is cut at a separator, whatever stands in front of it. -/
theorem parts_append {mark : Piece} (hmark : separator mark = true) (row rest : List Piece) :
    Piece.parts separator (row ++ mark :: rest) =
      Piece.parts separator row ++ Piece.parts separator rest := by
  induction row with
  | nil => simp [Piece.parts, hmark]
  | cons piece row ih =>
    rw [List.cons_append, Piece.parts, Piece.parts, ih]
    split
    · rfl
    · cases hparts : Piece.parts separator row with
      | nil => exact absurd hparts (parts_ne_nil separator row)
      | cons part more => rfl

theorem parts_eq_singleton {row : List Piece} (hrow : ∀ piece ∈ row, separator piece = false) :
    Piece.parts separator row = [row] := by
  induction row with
  | nil => rfl
  | cons piece row ih =>
    have hpiece : separator piece = false := hrow piece (by simp)
    have hmore := ih fun other hother => hrow other (List.mem_cons_of_mem _ hother)
    simp [Piece.parts, hpiece, hmore]

theorem parts_append_cons {row : List Piece} (hrow : ∀ piece ∈ row, separator piece = false)
    {mark : Piece} (hmark : separator mark = true) (rest : List Piece) :
    Piece.parts separator (row ++ mark :: rest) = row :: Piece.parts separator rest := by
  rw [parts_append separator hmark, parts_eq_singleton separator hrow]
  rfl

/-- Rows with a separator between them are cut into the rows again. -/
theorem parts_rows {first : List Piece} {rest : List (List Piece)}
    (hrows : ∀ row ∈ first :: rest, ∀ piece ∈ row, separator piece = false)
    {mark : Piece} (hmark : separator mark = true) :
    Piece.parts separator (first ++ rest.flatMap fun row => mark :: row) = first :: rest := by
  induction rest generalizing first with
  | nil =>
    rw [List.flatMap_nil, List.append_nil]
    exact parts_eq_singleton separator (hrows first (by simp))
  | cons next rest ih =>
    have hmore := ih fun row hrow => hrows row (List.mem_cons_of_mem _ hrow)
    rw [List.flatMap_cons, List.cons_append,
      parts_append_cons separator (hrows first (by simp)) hmark, hmore]

end Parts

/-! ## Pieces of types -/

/-- The piece can stand in a type. -/
def inType (piece : Piece) : Bool :=
  match piece.shape with
  | .word | .angles .. | .brackets => true
  | .symbol => piece.text == "."
  | _ => false

theorem not_isSymbol_of_inType {piece : Piece} (h : inType piece = true) {symbol : String}
    (hsymbol : symbol ≠ ".") : piece.isSymbol symbol = false := by
  obtain ⟨tokens, shape⟩ := piece
  cases shape with
  | symbol =>
    have htext : Piece.text ⟨tokens, .symbol⟩ = "." := by simpa [inType] using h
    simp only [Piece.isSymbol, htext, Bool.true_and, beq_eq_false_iff_ne]
    exact hsymbol.symm
  | _ => rfl

/-! ## Names -/

/-- The pieces of a name behind its first part. -/
def tailPieces (rest : List Identifier) : List Piece :=
  rest.flatMap fun part => [markPiece [] '.', wordPiece [] part.spell]

theorem pieces_name (name : DottedName) (gap : List Lexeme) :
    pieces (name.trees gap) = wordPiece gap name.first.spell :: tailPieces name.rest := by
  rw [DottedName.trees, pieces_cons, ofTree_word, pieces, List.map_flatMap]
  rfl

/-- A name is spelled as it is written, whatever gap is in front of it. -/
theorem spell_name (name : DottedName) (gap : List Lexeme) :
    Piece.spell (pieces (name.trees gap)) = name.spell := by
  have htail : ((tailPieces name.rest).flatMap Piece.tokens).flatMap Token.full =
      name.rest.flatMap fun part => '.' :: part.spell := by
    rw [tailPieces, List.flatMap_assoc, List.flatMap_assoc]
    simp [markPiece, wordPiece, Token.mark, Token.word, Token.full]
  rw [pieces_name, Piece.spell, List.flatMap_cons]
  simp only [wordPiece, List.singleton_append, Token.spell, htail]
  rfl

/-- No part of a name is white space. -/
theorem withoutBlanks_name (name : DottedName) : Name.withoutBlanks name.spell = name.text := by
  have hidentifier : ∀ (identifier : Identifier), ∀ c ∈ identifier.spell, isBlank c = false := by
    intro identifier c hc
    rw [Bool.eq_false_iff]
    intro hblank
    have hfalse := not_isIdentifierPart_of_isBlank hblank
    obtain ⟨d, more, hspell, hd, hmore⟩ := identifier.isWord
    rw [hspell] at hc
    rcases List.mem_cons.mp hc with rfl | hc
    · rw [isIdentifierPart_of_isIdentifierStart hd] at hfalse
      exact absurd hfalse (by simp)
    · rw [hmore c hc] at hfalse
      exact absurd hfalse (by simp)
  have hname : ∀ c ∈ name.spell, isBlank c = false := by
    intro c hc
    rcases List.mem_append.mp hc with hc | hc
    · exact hidentifier name.first c hc
    · obtain ⟨part, -, hc⟩ := List.mem_flatMap.mp hc
      rcases List.mem_cons.mp hc with rfl | hc
      · decide
      · exact hidentifier part c hc
  unfold Name.withoutBlanks DottedName.text
  rw [List.filter_eq_self.mpr fun c hc => by rw [hname c hc]; rfl]

theorem isNameRow_cons_of_not_isWord {piece : Piece} (h : piece.isWord = false)
    (row : List Piece) : TypeExpr.isNameRow (piece :: row) = TypeExpr.isNameRow row := by
  cases row with
  | nil => rfl
  | cons next rest => simp [TypeExpr.isNameRow, h]

/-- Between the words of a name stand periods, also when it is read from its end. -/
theorem isNameRow_reverse_name (name : DottedName) (gap : List Lexeme) :
    TypeExpr.isNameRow (pieces (name.trees gap)).reverse = true := by
  have hdot : (markPiece [] '.').isWord = false := rfl
  rw [pieces_name, List.reverse_cons, tailPieces, List.reverse_flatMap]
  induction name.rest.reverse with
  | nil => rfl
  | cons part parts ih =>
    have hword : ∀ row, TypeExpr.isNameRow (wordPiece [] part.spell :: markPiece [] '.' :: row) =
        TypeExpr.isNameRow (markPiece [] '.' :: row) := by
      intro row
      simp [TypeExpr.isNameRow, hdot]
    simp only [List.flatMap_cons, Function.comp_apply, List.reverse_cons, List.reverse_nil,
      List.nil_append, List.cons_append]
    rw [hword, isNameRow_cons_of_not_isWord hdot]
    exact ih

/-! ## Types -/

namespace JavaType

mutual

/-- The type as the reader of heads has it. -/
def expr (type : JavaType) : TypeExpr :=
  match type with
  | .primitive kind dimensions => (TypeExpr.name kind.keyword).withDimensions dimensions
  | .named name arguments dimensions =>
    (if arguments.isEmpty then TypeExpr.name name.text
      else TypeExpr.applied (.name name.text) (exprs arguments)).withDimensions dimensions
termination_by structural type

/-- The types as the reader of heads has them. -/
def exprs (types : List JavaType) : List TypeExpr :=
  match types with
  | [] => []
  | type :: rest => expr type :: exprs rest
termination_by structural types

end

theorem exprs_eq_map (types : List JavaType) : exprs types = types.map expr := by
  induction types with
  | nil => rfl
  | cons type rest ih => simp [exprs, ih]

end JavaType

/-- A row of name parts with pairs of brackets behind it is the type that the row names. -/
theorem ofPieces?_row (first : Piece) (rest : List Piece) (hword : first.isWord = true)
    (hparts : ∀ piece ∈ first :: rest, piece.isNamePart = true ∧ piece.isAnnotation = false)
    (hnames : TypeExpr.isNameRow (first :: rest).reverse = true) (dimensions : Nat) :
    TypeExpr.ofPieces? (first :: rest ++ List.replicate dimensions bracketPiece) =
      some ((TypeExpr.ofNameRow (first :: rest)).withDimensions dimensions) := by
  have hfirst : first.isAnnotation = false := (hparts first (by simp)).2
  have hquestion : first.isSymbol "?" = false := by
    obtain ⟨tokens, shape⟩ := first
    cases shape with
    | word => rfl
    | _ => exact absurd hword (by simp [Piece.isWord])
  have hbrackets : (List.replicate dimensions bracketPiece).takeWhile Piece.isNamePart = [] := by
    cases dimensions with
    | zero => rfl
    | succ dimensions => rfl
  have hrow : (first :: rest ++ List.replicate dimensions bracketPiece).takeWhile
      Piece.isNamePart = first :: rest := by
    rw [List.takeWhile_append_of_pos fun piece hpiece => (hparts piece hpiece).1, hbrackets,
      List.append_nil]
  have hnamed : (first :: rest).reverse.dropWhile Piece.isAnnotation = (first :: rest).reverse := by
    cases hreverse : (first :: rest).reverse with
    | nil => rfl
    | cons last before =>
      have hlast : last ∈ first :: rest := by
        rw [← List.mem_reverse, hreverse]
        simp
      simp [(hparts last hlast).2]
  have hsuffix : (first :: rest ++ List.replicate dimensions bracketPiece).drop
      (first :: rest).reverse.length = List.replicate dimensions bracketPiece := by
    rw [List.length_reverse, List.drop_left]
  have hcount : (List.replicate dimensions bracketPiece).countP Piece.isBrackets = dimensions := by
    rw [List.countP_replicate]
    rfl
  have hall : (List.replicate dimensions bracketPiece).all
      (fun piece => piece.isBrackets || piece.isAnnotation) = true := by
    rw [List.all_eq_true]
    intro piece hpiece
    rw [(List.mem_replicate.mp hpiece).2]
    rfl
  have hdrop : (first :: rest ++ List.replicate dimensions bracketPiece).dropWhile
      Piece.isAnnotation = first :: (rest ++ List.replicate dimensions bracketPiece) := by
    simp [hfirst]
  unfold TypeExpr.ofPieces?
  rw [hdrop]
  simp only [hquestion, Bool.false_eq_true, if_false]
  rw [← List.cons_append, hrow, hnamed, hsuffix, hcount, hword, hnames, hall]
  simp

theorem ofNameRow_word (gap : List Lexeme) (word : List Char) :
    TypeExpr.ofNameRow [wordPiece gap word] = .name (Name.withoutBlanks word) := by
  simp [TypeExpr.ofNameRow, wordPiece, Piece.spell, Token.spell, Token.word]

/-- The pieces of a name are parts of names. -/
theorem isNamePart_name (name : DottedName) (gap : List Lexeme) :
    ∀ piece ∈ pieces (name.trees gap),
      piece.isNamePart = true ∧ piece.isAnnotation = false ∧ inType piece = true := by
  intro piece hpiece
  rw [pieces_name] at hpiece
  rcases List.mem_cons.mp hpiece with rfl | hpiece
  · exact ⟨rfl, rfl, rfl⟩
  · obtain ⟨part, -, hpiece⟩ := List.mem_flatMap.mp hpiece
    simp only [List.mem_cons, List.not_mem_nil, or_false] at hpiece
    rcases hpiece with rfl | rfl
    · have hdot : (markPiece [] '.').isSymbol "." = true := by decide
      refine ⟨hdot, rfl, ?_⟩
      unfold inType
      decide
    · exact ⟨rfl, rfl, rfl⟩

theorem ofNameRow_name (name : DottedName) (gap : List Lexeme) :
    TypeExpr.ofNameRow (pieces (name.trees gap)) = .name name.text := by
  have hlast : ∀ piece ∈ (pieces (name.trees gap)).getLast?,
      ∀ types introduced, piece.shape ≠ .angles types introduced := by
    intro piece hpiece types introduced hshape
    have hmem := List.mem_of_getLast? hpiece
    rw [pieces_name] at hmem
    rcases List.mem_cons.mp hmem with rfl | hmem
    · exact absurd hshape (by simp [wordPiece])
    · obtain ⟨part, -, hmem⟩ := List.mem_flatMap.mp hmem
      simp only [List.mem_cons, List.not_mem_nil, or_false] at hmem
      rcases hmem with rfl | rfl
      · exact absurd hshape (by simp [markPiece])
      · exact absurd hshape (by simp [wordPiece])
  unfold TypeExpr.ofNameRow
  split
  · next tokens types introduced hget =>
    exact absurd rfl (hlast _ (Option.mem_def.mpr hget) types introduced)
  · rw [spell_name, withoutBlanks_name]

theorem filterMap_eq_map_of_forall {α β : Type} {items : List α} {read? : α → Option β}
    {value : α → β} (h : ∀ item ∈ items, read? item = some (value item)) :
    items.filterMap read? = items.map value := by
  induction items with
  | nil => rfl
  | cons item rest ih =>
    rw [List.filterMap_cons_some (h item (by simp)),
      ih fun other hother => h other (List.mem_cons_of_mem _ hother), List.map_cons]

/-- What is read part by part between commas. -/
theorem filterMap_parts_commas {α β : Type} {items : List α}
    {trees : α → List Lexeme → List Tree} {read? : List Piece → Option β} {value : α → β}
    (hempty : read? [] = none)
    (hread : ∀ item ∈ items, ∀ gap, read? (pieces (trees item gap)) = some (value item))
    (hcomma : ∀ item ∈ items, ∀ gap, ∀ piece ∈ pieces (trees item gap),
      piece.isSymbol "," = false) :
    (Piece.parts (Piece.isSymbol · ",") (pieces (commaTrees (items.map trees)))).filterMap read? =
      items.map value := by
  cases items with
  | nil => simp [commaTrees, pieces, Piece.parts, hempty]
  | cons first rest =>
    have hmark : (markPiece [] ',').isSymbol "," = true := by decide
    have hrows : pieces (commaTrees ((first :: rest).map trees)) =
        pieces (trees first []) ++ (rest.map fun item => pieces (trees item [space])).flatMap
          fun row => markPiece [] ',' :: row := by
      rw [List.map_cons, commaTrees, pieces_append, List.flatMap_map, List.flatMap_map]
      unfold pieces
      rw [List.map_flatMap]
      rfl
    rw [hrows, parts_rows (Piece.isSymbol · ",") ?_ hmark]
    · have hfirst := hread first (by simp) []
      have hrest : (rest.map fun item => pieces (trees item [space])).filterMap read? =
          rest.map value := by
        rw [List.filterMap_map]
        exact filterMap_eq_map_of_forall fun item hitem =>
          hread item (List.mem_cons_of_mem _ hitem) [space]
      rw [List.filterMap_cons_some hfirst, hrest, List.map_cons]
    · intro row hrow
      rcases List.mem_cons.mp hrow with rfl | hrow
      · exact hcomma first (by simp) []
      · obtain ⟨item, hitem, rfl⟩ := List.mem_map.mp hrow
        exact hcomma item (List.mem_cons_of_mem _ hitem) [space]

/-- The piece of a list in angle brackets. -/
def anglePiece (gap : List Lexeme) (items : List (List Lexeme → List Tree)) : Piece where
  tokens := Tree.tokens
    (.group (Token.mark gap '<') (commaTrees items) (some (Token.mark [] '>')))
  shape := .angles (TypeExpr.listOfPieces (pieces (commaTrees items)))
    (VariableExpr.listOfPieces (pieces (commaTrees items)))

theorem pieces_angles (gap : List Lexeme) {items : List (List Lexeme → List Tree)}
    (hne : items ≠ []) (h : ∀ trees ∈ items, ∀ gap, ∀ tree ∈ trees gap, IsTypePart tree) :
    pieces (angleTrees gap items) = [anglePiece gap items] := by
  have hitems : items.isEmpty = false := by simpa using hne
  have hinside := pieces_inside (isTypePart_commas h)
  simp only [angleTrees, hitems, Bool.false_eq_true, if_false, pieces, List.map_cons, List.map_nil]
  simp only [Piece.ofTree, Token.isSymbol_mark, beq_self_eq_true, if_true, hinside]
  rfl

theorem JavaType.inType (type : JavaType) (gap : List Lexeme) :
    ∀ piece ∈ pieces (type.trees gap), Canonical.inType piece = true := by
  have hbrackets : ∀ dimensions, ∀ piece ∈ pieces (bracketTrees dimensions),
      Canonical.inType piece = true := by
    intro dimensions piece hpiece
    rw [pieces_brackets] at hpiece
    rw [(List.mem_replicate.mp hpiece).2]
    rfl
  cases type with
  | primitive kind dimensions =>
    simp only [trees, pieces_cons, List.forall_mem_cons]
    exact ⟨rfl, hbrackets dimensions⟩
  | named name arguments dimensions =>
    simp only [trees, pieces_append, List.forall_mem_append]
    refine ⟨fun piece hpiece => (isNamePart_name name gap piece hpiece).2.2, ?_,
      hbrackets dimensions⟩
    by_cases hne : treesAll arguments = []
    · simp [hne, angleTrees, pieces]
    · rw [pieces_angles [] hne (isTypePart_of_mem arguments), List.forall_mem_singleton]
      rfl

/-- A name with its arguments. -/
theorem ofPieces?_applied (name : DottedName) (gap : List Lexeme) {arguments : List JavaType}
    (harguments : ∀ type ∈ arguments, ∀ gap,
      TypeExpr.ofPieces? (pieces (type.trees gap)) = some type.expr) (dimensions : Nat) :
    TypeExpr.ofPieces? (pieces (name.trees gap) ++
      (anglePiece [] (JavaType.treesAll arguments) :: List.replicate dimensions bracketPiece)) =
      some ((TypeExpr.applied (.name name.text) (JavaType.exprs arguments)).withDimensions
        dimensions) := by
  have hlist : TypeExpr.listOfPieces (pieces (commaTrees (JavaType.treesAll arguments))) =
      JavaType.exprs arguments := by
    rw [JavaType.treesAll_eq_map, JavaType.exprs_eq_map]
    exact filterMap_parts_commas rfl harguments fun type _ gap piece hpiece =>
      not_isSymbol_of_inType (type.inType gap piece hpiece) (by decide)
  have hrow : TypeExpr.ofNameRow
      (pieces (name.trees gap) ++ [anglePiece [] (JavaType.treesAll arguments)]) =
        .applied (.name name.text) (JavaType.exprs arguments) := by
    have hcomments : Piece.comments
        ⟨(anglePiece [] (JavaType.treesAll arguments)).tokens, .other⟩ = [] := rfl
    unfold TypeExpr.ofNameRow
    rw [List.getLast?_concat, List.dropLast_concat, spell_name, withoutBlanks_name]
    simp only [anglePiece] at hcomments ⊢
    rw [hcomments, hlist]
    rfl
  have hnames : TypeExpr.isNameRow
      (pieces (name.trees gap) ++ [anglePiece [] (JavaType.treesAll arguments)]).reverse =
        true := by
    rw [List.reverse_append, List.reverse_singleton, List.singleton_append,
      isNameRow_cons_of_not_isWord rfl]
    exact isNameRow_reverse_name name gap
  have hparts : ∀ piece ∈
      pieces (name.trees gap) ++ [anglePiece [] (JavaType.treesAll arguments)],
      piece.isNamePart = true ∧ piece.isAnnotation = false := by
    rw [List.forall_mem_append, List.forall_mem_singleton]
    refine ⟨fun piece hpiece => ?_, rfl, rfl⟩
    obtain ⟨hpart, hplain, -⟩ := isNamePart_name name gap piece hpiece
    exact ⟨hpart, hplain⟩
  rw [pieces_name, List.cons_append] at hnames hparts hrow
  rw [List.append_cons, pieces_name, List.cons_append,
    ofPieces?_row _ _ (isWord_wordPiece _ _) hparts hnames, hrow]

/-- A name without arguments. -/
theorem ofPieces?_name (name : DottedName) (gap : List Lexeme) (dimensions : Nat) :
    TypeExpr.ofPieces? (pieces (name.trees gap) ++ List.replicate dimensions bracketPiece) =
      some ((TypeExpr.name name.text).withDimensions dimensions) := by
  have hnames := isNameRow_reverse_name name gap
  have hrow := ofNameRow_name name gap
  have hparts : ∀ piece ∈ pieces (name.trees gap),
      piece.isNamePart = true ∧ piece.isAnnotation = false := by
    intro piece hpiece
    obtain ⟨hpart, hplain, -⟩ := isNamePart_name name gap piece hpiece
    exact ⟨hpart, hplain⟩
  rw [pieces_name] at hnames hparts hrow ⊢
  rw [ofPieces?_row _ _ (isWord_wordPiece _ _) hparts hnames, hrow]

/-- A keyword in the place of a name. -/
theorem ofPieces?_keyword (gap : List Lexeme) {keyword : String}
    (hkeyword : Name.withoutBlanks keyword.toList = keyword) (dimensions : Nat) :
    TypeExpr.ofPieces?
      (wordPiece gap keyword.toList :: List.replicate dimensions bracketPiece) =
        some ((TypeExpr.name keyword).withDimensions dimensions) := by
  have hparts : ∀ piece ∈ [wordPiece gap keyword.toList],
      piece.isNamePart = true ∧ piece.isAnnotation = false := by
    rw [List.forall_mem_singleton]
    exact ⟨rfl, rfl⟩
  have hrow := ofPieces?_row _ [] (isWord_wordPiece gap keyword.toList) hparts rfl dimensions
  rw [ofNameRow_word, hkeyword] at hrow
  exact hrow

mutual

/-- The pieces of a type are read as the type. -/
theorem JavaType.ofPieces? (type : JavaType) (gap : List Lexeme) :
    TypeExpr.ofPieces? (pieces (type.trees gap)) = some type.expr := by
  cases type with
  | primitive kind dimensions =>
    have hkeyword : Name.withoutBlanks kind.keyword.toList = kind.keyword := by
      cases kind <;> decide
    simp only [trees, expr, pieces_cons, pieces_brackets, ofTree_word]
    exact ofPieces?_keyword gap hkeyword dimensions
  | named name arguments dimensions =>
    have harguments := ofPieces?_of_mem arguments
    cases arguments with
    | nil =>
      simp only [trees, expr, treesAll, angleTrees, List.isEmpty_nil, if_true, List.nil_append,
        pieces_append, pieces_brackets]
      exact ofPieces?_name name gap dimensions
    | cons first rest =>
      have hangles := pieces_angles [] (by simp [treesAll]) (isTypePart_of_mem (first :: rest))
      simp only [trees, expr, pieces_append, hangles, pieces_brackets, List.isEmpty_cons,
        Bool.false_eq_true, if_false, List.singleton_append]
      exact ofPieces?_applied name gap harguments dimensions
termination_by structural type

theorem JavaType.ofPieces?_of_mem (types : List JavaType) :
    ∀ type ∈ types, ∀ gap, TypeExpr.ofPieces? (pieces (type.trees gap)) = some type.expr := by
  cases types with
  | nil => simp
  | cons type rest =>
    have htype := ofPieces? type
    have hrest := ofPieces?_of_mem rest
    intro other hother
    rcases List.mem_cons.mp hother with rfl | hother
    · exact htype
    · exact hrest other hother
termination_by structural types

end

/-! ## Type variables -/

/-- The type variable as the reader of heads has it. -/
def JavaVariable.expr (introduced : JavaVariable) : VariableExpr :=
  { name := introduced.name.text, bounds := introduced.bounds.map JavaType.expr }

/-- The word that a type begins with. -/
def JavaType.firstWord : JavaType → List Char
  | .primitive kind _ => kind.keyword.toList
  | .named name _ _ => name.first.spell

/-- The first piece of a type is a word, with the gap in front of it. -/
theorem JavaType.exists_pieces_eq_cons (type : JavaType) (gap : List Lexeme) :
    ∃ rest, pieces (type.trees gap) = wordPiece gap type.firstWord :: rest := by
  cases type with
  | primitive kind dimensions =>
    simp only [trees, pieces_cons]
    exact ⟨_, rfl⟩
  | named name arguments dimensions =>
    simp only [trees, pieces_append, pieces_name]
    exact ⟨_, rfl⟩

/-- The pieces of bounds behind the keyword. -/
def boundPieces (first : JavaType) (rest : List JavaType) : List Piece :=
  pieces (first.trees [space]) ++ (rest.map fun bound =>
    pieces (bound.trees [space])).flatMap fun row => markPiece [space] '&' :: row

theorem not_isSymbol_bound (bound : JavaType) :
    ∀ piece ∈ pieces (bound.trees [space]), piece.isSymbol "&" = false :=
  fun piece hpiece => not_isSymbol_of_inType (bound.inType [space] piece hpiece) (by decide)

theorem parts_boundPieces (first : JavaType) (rest : List JavaType) :
    Piece.parts (Piece.isSymbol · "&") (boundPieces first rest) =
      (first :: rest).map fun bound => pieces (bound.trees [space]) := by
  have hmark : (markPiece [space] '&').isSymbol "&" = true := by decide
  refine parts_rows (Piece.isSymbol · "&") (fun row hrow => ?_) hmark
  rcases List.mem_cons.mp hrow with rfl | hrow
  · exact not_isSymbol_bound first
  · obtain ⟨bound, -, rfl⟩ := List.mem_map.mp hrow
    exact not_isSymbol_bound bound

theorem filter_boundPieces (first : JavaType) (rest : List JavaType) :
    (boundPieces first rest).filter (Piece.isSymbol · "&") =
      rest.map fun _ => markPiece [space] '&' := by
  have hmark : (markPiece [space] '&').isSymbol "&" = true := by decide
  have hrow : ∀ bound : JavaType,
      (pieces (bound.trees [space])).filter (Piece.isSymbol · "&") = [] := by
    intro bound
    rw [List.filter_eq_nil_iff]
    intro piece hpiece
    rw [not_isSymbol_bound bound piece hpiece]
    simp
  unfold boundPieces
  rw [List.filter_append, hrow, List.nil_append]
  induction rest with
  | nil => rfl
  | cons next rest ih =>
    rw [List.map_cons, List.flatMap_cons, List.filter_append, ih,
      List.filter_cons_of_pos (by exact hmark), hrow, List.map_cons]
    rfl

/-- What one part of a row of bounds is read as: the comments in front of it and its type. -/
def boundPart (row : List Piece) : List TypeExpr :=
  match row with
  | [] => []
  | first :: _ => first.comments.map .verbatim ++ (TypeExpr.ofPieces? row).toList

theorem boundPart_type (bound : JavaType) :
    boundPart (pieces (bound.trees [space])) = [bound.expr] := by
  have htype := bound.ofPieces? [space]
  obtain ⟨more, hpieces⟩ := bound.exists_pieces_eq_cons [space]
  rw [hpieces] at htype ⊢
  simp only [boundPart, htype]
  rfl

theorem boundsOfPieces_eq_parts (row : List Piece) :
    TypeExpr.boundsOfPieces row =
      match (Piece.parts (Piece.isSymbol · "&") row).map boundPart with
      | [] => []
      | first :: more =>
        first ++ (List.zipWith (· ++ ·) ((row.filter (Piece.isSymbol · "&")).map fun piece =>
          piece.comments.map TypeExpr.verbatim) more).flatten := rfl

/-- Bounds are read one by one; no comment stands between them. -/
theorem boundsOfPieces_eq (first : JavaType) (rest : List JavaType) :
    TypeExpr.boundsOfPieces (boundPieces first rest) = (first :: rest).map JavaType.expr := by
  have hcomments : (markPiece [space] '&').comments = [] := rfl
  have hflatten : (List.zipWith (· ++ ·) (rest.map fun _ => ([] : List TypeExpr))
      (rest.map fun bound => [bound.expr])).flatten = rest.map JavaType.expr := by
    induction rest with
    | nil => rfl
    | cons bound rest ih =>
      rw [List.map_cons, List.map_cons, List.zipWith_cons_cons, List.flatten_cons, ih]
      rfl
  rw [boundsOfPieces_eq_parts, parts_boundPieces, filter_boundPieces]
  simp only [List.map_map, List.map_cons, Function.comp_def, boundPart_type, hcomments,
    List.map_nil]
  rw [hflatten]
  rfl

/-- The pieces of a type variable are read as the type variable. -/
theorem JavaVariable.ofPieces? (introduced : JavaVariable) (gap : List Lexeme) :
    VariableExpr.ofPieces? (pieces (introduced.trees gap)) = some introduced.expr := by
  unfold expr trees
  rw [pieces_cons, ofTree_word]
  cases introduced.bounds with
  | nil =>
    simp [VariableExpr.ofPieces?, boundTrees, pieces, isAnnotation_wordPiece, isWord_wordPiece,
      text_identifierPiece]
  | cons first rest =>
    have hbounds : pieces (boundTrees (first :: rest)) =
        wordPiece [space] "extends".toList :: boundPieces first rest := by
      rw [boundTrees, pieces_cons, pieces_append, boundPieces, List.flatMap_map]
      unfold pieces
      rw [List.map_flatMap]
      rfl
    rw [hbounds]
    simp only [VariableExpr.ofPieces?, List.dropWhile_cons, isAnnotation_wordPiece,
      Bool.false_eq_true, if_false, isWord_wordPiece, if_true, text_identifierPiece,
      isKeyword_wordPiece, beq_self_eq_true, boundsOfPieces_eq]

/-- The pieces of a type variable hold no comma. -/
theorem JavaVariable.not_isSymbol_comma (introduced : JavaVariable) (gap : List Lexeme) :
    ∀ piece ∈ pieces (introduced.trees gap), piece.isSymbol "," = false := by
  have htype : ∀ (bound : JavaType), ∀ piece ∈ pieces (bound.trees [space]),
      piece.isSymbol "," = false := fun bound piece hpiece =>
    not_isSymbol_of_inType (bound.inType [space] piece hpiece) (by decide)
  unfold trees
  rw [pieces_cons, List.forall_mem_cons]
  refine ⟨rfl, ?_⟩
  cases introduced.bounds with
  | nil => simp [boundTrees, pieces]
  | cons first rest =>
    rw [boundTrees, pieces_cons, pieces_append, List.forall_mem_cons, List.forall_mem_append]
    refine ⟨rfl, htype first, fun piece hpiece => ?_⟩
    obtain ⟨tree, htree, rfl⟩ := List.mem_map.mp hpiece
    obtain ⟨bound, -, htree⟩ := List.mem_flatMap.mp htree
    rcases List.mem_cons.mp htree with rfl | htree
    · rw [ofTree_mark, isSymbol_markPiece]
      decide
    · exact htype bound _ (List.mem_map_of_mem htree)

/-- The piece of a list of type variables introduces them. -/
theorem listOfPieces_variables (introduced : List JavaVariable) :
    VariableExpr.listOfPieces (pieces (commaTrees (introduced.map JavaVariable.trees))) =
      introduced.map JavaVariable.expr :=
  filterMap_parts_commas rfl (fun one _ => one.ofPieces?) fun one _ => one.not_isSymbol_comma

end JavaSignatures.Source.Canonical
