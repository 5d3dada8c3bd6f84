import JavaSignatures.Proofs.Grammar.Parts
import Mathlib.Data.List.Chain

set_option autoImplicit false

/-!
# Grammar: types

A type is a name, primitive types included, and a row of pairs of brackets.  The name has parts with
periods between them, each with its own annotations and arguments, and there can be annotations in
front of each pair of brackets.  A type is read as its name with the number of its pairs of brackets
(`TypeName.ofPieces?_append`).  The text between angle brackets is left open.
-/

namespace JavaSignatures.Source

open Canonical (wordPiece markPiece IsNoHeadWord headWords)

namespace TypeExpr

/-! ## Rows of names from their end -/

theorem isNameRow_iff_isChain (row : List Piece) :
    isNameRow row = true ↔
      row.IsChain fun first second => (first.isWord && second.isWord) = false := by
  induction row with
  | nil => simp [isNameRow]
  | cons piece row ih =>
    cases row with
    | nil => simp [isNameRow]
    | cons next row =>
      rw [List.isChain_cons_cons, isNameRow, Bool.and_eq_true, ih, Bool.not_eq_true']

/-- A row of names is one from its end too. -/
theorem isNameRow_reverse (row : List Piece) : isNameRow row.reverse = isNameRow row := by
  rw [Bool.eq_iff_iff, isNameRow_iff_isChain, isNameRow_iff_isChain, List.isChain_reverse]
  simp only [Bool.and_comm]

/-- Behind a word the row goes on with something else, if it goes on. -/
theorem isNameRow_cons_of_head {row : List Piece} (h : ∀ next ∈ row.head?, next.isWord = false)
    (piece : Piece) : isNameRow (piece :: row) = isNameRow row := by
  cases row with
  | nil => rfl
  | cons next row =>
    rw [isNameRow, h next rfl, Bool.and_false, Bool.not_false, Bool.true_and]

theorem isNameRow_append_of_not_isWord {front : List Piece}
    (h : ∀ piece ∈ front, piece.isWord = false) (row : List Piece) :
    isNameRow (front ++ row) = isNameRow row := by
  induction front with
  | nil => rfl
  | cons piece front ih =>
    obtain ⟨hpiece, hmore⟩ := List.forall_mem_cons.mp h
    rw [List.cons_append, Canonical.isNameRow_cons_of_not_isWord hpiece, ih hmore]

/-- The name that a row gives a type has no dimensions of its own. -/
theorem dimensions_ofNameRow (context : Context) (row : List Piece) :
    (context.typeRef (ofNameRow row)).dimensions = 0 := by
  unfold ofNameRow
  split
  · dsimp only
    split <;> simp [Context.typeRef, TypeRef.simple]
  · simp [Context.typeRef, TypeRef.simple]

end TypeExpr

namespace Grammar

/-! ## Pieces of types -/

/-- The piece can stand in a type. -/
def isTypePiece (piece : Piece) : Bool := piece.isNamePart || piece.isBrackets

theorem not_isSymbol_of_isTypePiece {piece : Piece} (h : isTypePiece piece = true) {symbol : String}
    (hsymbol : symbol ≠ ".") : piece.isSymbol symbol = false := by
  obtain ⟨tokens, shape⟩ := piece
  cases shape with
  | symbol =>
    have htext : Piece.text ⟨tokens, .symbol⟩ = "." := by
      simpa [isTypePiece, Piece.isNamePart, Piece.isBrackets, Piece.isSymbol] using h
    rw [Piece.isSymbol, htext, Bool.and_eq_false_iff]
    exact Or.inr (beq_eq_false_iff_ne.mpr hsymbol.symm)
  | _ => rfl

theorem shape_ne_parens_of_isTypePiece {piece : Piece} (h : isTypePiece piece = true)
    (inner : List Tree) : piece.shape ≠ .parens inner := by
  intro hshape
  simp [isTypePiece, Piece.isNamePart, Piece.isBrackets, Piece.isSymbol, hshape] at h

theorem isTypePiece_of_isAnnotation_eq_true {piece : Piece} (h : piece.isAnnotation = true) :
    isTypePiece piece = true := by
  obtain ⟨tokens, shape⟩ := piece
  cases shape <;> first | rfl | exact absurd h (by simp [Piece.isAnnotation])

/-! ## Names of types -/

/-- A part of the name of a type behind a period. -/
structure Segment where
  /-- in front of the period -/
  gap : List Lexeme := []
  annotations : List Annotation := []
  word : Word
  arguments : Option (Enclosure .arguments) := none

/-- The trees of the arguments of a type. -/
def argumentTrees (arguments : Option (Enclosure .arguments)) : List Tree :=
  arguments.toList.flatMap Enclosure.angles

/-- The pieces of the arguments of a type. -/
def argumentPieces (arguments : Option (Enclosure .arguments)) : List Piece :=
  arguments.toList.map Enclosure.anglePiece

theorem reads_arguments (arguments : Option (Enclosure .arguments)) :
    Reads (argumentTrees arguments) (argumentPieces arguments) := by
  cases arguments with
  | none => exact .nil
  | some enclosure =>
    have hangles := enclosure.reads_angles
    rwa [argumentTrees, Option.toList_some, List.flatMap_singleton]

/-- No piece of arguments is a word or an annotation. -/
theorem of_mem_argumentPieces {arguments : Option (Enclosure .arguments)} :
    ∀ piece ∈ argumentPieces arguments,
      piece.isNamePart = true ∧ piece.isWord = false ∧ piece.isAnnotation = false := by
  intro piece hpiece
  obtain ⟨enclosure, -, rfl⟩ := List.mem_map.mp hpiece
  exact ⟨rfl, rfl, rfl⟩

namespace Segment

/-- The trees of a part of a name, with its period. -/
def trees (segment : Segment) : List Tree :=
  [.leaf (Token.mark segment.gap '.')] ++ (annotationTrees segment.annotations ++
    ([segment.word.tree] ++ argumentTrees segment.arguments))

/-- The pieces of a part of a name, with its period. -/
def pieces (segment : Segment) : List Piece :=
  [markPiece segment.gap '.'] ++ (annotationPieces segment.annotations ++
    ([segment.word.piece] ++ argumentPieces segment.arguments))

variable (segment : Segment)

theorem reads : Reads segment.trees segment.pieces := by
  have hword := segment.word.reads.append (reads_arguments segment.arguments)
  have hnamed := (reads_annotations segment.annotations).append hword
    (segment.word.detached _) (by simp)
  exact (reads_mark segment.gap (Or.inl rfl)).append hnamed

theorem isNamePart_of_mem : ∀ piece ∈ segment.pieces, piece.isNamePart = true := by
  have hperiod : (markPiece segment.gap '.').isSymbol "." = true := by
    rw [Canonical.isSymbol_markPiece]
    decide
  simp only [pieces, List.forall_mem_append, List.forall_mem_singleton]
  refine ⟨hperiod, fun piece hpiece => ?_, rfl, fun piece hpiece => ?_⟩
  · obtain ⟨note, -, rfl⟩ := List.mem_map.mp hpiece
    rfl
  · exact (of_mem_argumentPieces piece hpiece).1

/-- The part ends with its word or its arguments. -/
theorem exists_eq_concat :
    ∃ front last, segment.pieces = front ++ [last] ∧ last.isAnnotation = false := by
  unfold pieces argumentPieces
  cases segment.arguments with
  | none =>
    refine ⟨[markPiece segment.gap '.'] ++ annotationPieces segment.annotations,
      segment.word.piece, ?_, rfl⟩
    simp
  | some enclosure =>
    refine ⟨[markPiece segment.gap '.'] ++ (annotationPieces segment.annotations ++
      [segment.word.piece]), enclosure.anglePiece, ?_, rfl⟩
    simp

/-- What is behind the word of a part is no word, so a row of parts is a row of names. -/
theorem isNameRow_arguments_append (arguments : Option (Enclosure .arguments))
    (segments : List Segment) (piece : Piece) :
    TypeExpr.isNameRow (piece :: (argumentPieces arguments ++ segments.flatMap Segment.pieces)) =
      TypeExpr.isNameRow (segments.flatMap Segment.pieces) := by
  have hwords : ∀ next ∈ argumentPieces arguments, next.isWord = false :=
    fun next hnext => (of_mem_argumentPieces next hnext).2.1
  rw [TypeExpr.isNameRow_cons_of_head, TypeExpr.isNameRow_append_of_not_isWord hwords]
  intro next hnext
  cases arguments with
  | none =>
    cases segments with
    | nil => exact absurd hnext (by simp [argumentPieces])
    | cons segment segments =>
      obtain rfl := Option.some.inj hnext
      rfl
  | some enclosure =>
    obtain rfl := Option.some.inj hnext
    rfl

theorem isNameRow_flatMap (segments : List Segment) :
    TypeExpr.isNameRow (segments.flatMap Segment.pieces) = true := by
  induction segments with
  | nil => rfl
  | cons segment segments ih =>
    have hnotes : ∀ piece ∈ annotationPieces segment.annotations, piece.isWord = false := by
      intro piece hpiece
      obtain ⟨note, -, rfl⟩ := List.mem_map.mp hpiece
      rfl
    have hperiod : (markPiece segment.gap '.').isWord = false := rfl
    simp only [List.flatMap_cons, pieces, List.cons_append, List.nil_append, List.append_assoc]
    rw [Canonical.isNameRow_cons_of_not_isWord hperiod,
      TypeExpr.isNameRow_append_of_not_isWord hnotes, isNameRow_arguments_append, ih]

end Segment

/-- What the name of a type does not begin with. -/
def noTypeWords : List String := headWords ++ ["package", "import"]

namespace Word

variable {word : Word} (h : word.name ∉ noTypeWords)

include h

theorem isNoHeadWord : IsNoHeadWord word.piece := by
  refine ⟨rfl, fun _ hmem => h ?_⟩
  rw [text_piece] at hmem
  exact List.mem_append_left _ hmem

theorem not_isKeyword {keyword : String} (hkeyword : keyword ∈ noTypeWords) :
    word.piece.isKeyword keyword = false := by
  rw [Piece.isKeyword, text_piece, Bool.and_eq_false_iff, beq_eq_false_iff_ne]
  exact Or.inr fun heq => h (heq ▸ hkeyword)

end Word

/-- The name of a type; annotations in front of it do not belong to it. -/
structure TypeName where
  word : Word
  arguments : Option (Enclosure .arguments) := none
  more : List Segment := []
  hword : word.name ∉ noTypeWords

namespace TypeName

/-- The trees of the name of a type. -/
def trees (name : TypeName) : List Tree :=
  [name.word.tree] ++ (argumentTrees name.arguments ++ name.more.flatMap Segment.trees)

/-- The pieces of the name of a type behind its first word. -/
def morePieces (name : TypeName) : List Piece :=
  argumentPieces name.arguments ++ name.more.flatMap Segment.pieces

/-- The pieces of the name of a type. -/
def pieces (name : TypeName) : List Piece := name.word.piece :: name.morePieces

/-- What the name of a type is read as. -/
def expr (name : TypeName) : TypeExpr := TypeExpr.ofNameRow name.pieces

variable (name : TypeName)

theorem reads : Reads name.trees name.pieces :=
  name.word.reads.append ((reads_arguments name.arguments).append
    (.flatMap fun segment _ => segment.reads))

theorem isNamePart_of_mem : ∀ piece ∈ name.pieces, piece.isNamePart = true := by
  rw [pieces, morePieces, List.forall_mem_cons, List.forall_mem_append]
  refine ⟨rfl, fun piece hpiece => (of_mem_argumentPieces piece hpiece).1, fun piece hpiece => ?_⟩
  obtain ⟨segment, -, hsegment⟩ := List.mem_flatMap.mp hpiece
  exact segment.isNamePart_of_mem piece hsegment

theorem isNameRow_pieces : TypeExpr.isNameRow name.pieces = true := by
  rw [pieces, morePieces, Segment.isNameRow_arguments_append, Segment.isNameRow_flatMap]

/-- The name ends with a word or with arguments. -/
theorem exists_eq_concat :
    ∃ front last, name.pieces = front ++ [last] ∧ last.isAnnotation = false := by
  unfold pieces morePieces
  obtain hnil | ⟨segments, segment, hmore⟩ := name.more.eq_nil_or_concat
  · rw [hnil]
    cases name.arguments with
    | none => exact ⟨[], name.word.piece, rfl, rfl⟩
    | some enclosure => exact ⟨[name.word.piece], enclosure.anglePiece, rfl, rfl⟩
  · obtain ⟨front, last, hpieces, hlast⟩ := segment.exists_eq_concat
    refine ⟨name.word.piece :: (argumentPieces name.arguments ++
      (segments.flatMap Segment.pieces ++ front)), last, ?_, hlast⟩
    rw [hmore, List.concat_eq_append, List.flatMap_append, List.flatMap_singleton, hpieces]
    simp

/-- The name of a type with brackets and annotations behind it is read as the name with the number
of pairs of brackets, whatever annotations are in front of it. -/
theorem ofPieces?_append {front suffix : List Piece}
    (hfront : ∀ piece ∈ front, piece.isAnnotation = true)
    (hsuffix : ∀ piece ∈ suffix, (piece.isBrackets || piece.isAnnotation) = true) :
    TypeExpr.ofPieces? (front ++ (name.pieces ++ suffix)) =
      some (name.expr.withDimensions (suffix.countP Piece.isBrackets)) := by
  obtain ⟨before, last, hpieces, hlast⟩ := name.exists_eq_concat
  -- behind the name the run of its parts goes on with annotations alone
  have hrun : (name.pieces ++ suffix).takeWhile Piece.isNamePart =
      name.pieces ++ suffix.takeWhile Piece.isNamePart :=
    List.takeWhile_append_of_pos name.isNamePart_of_mem
  have hnotes : ∀ piece ∈ (suffix.takeWhile Piece.isNamePart).reverse,
      piece.isAnnotation = true := by
    intro piece hpiece
    rw [List.mem_reverse] at hpiece
    have hpart : piece.isNamePart = true := List.mem_takeWhile_imp hpiece
    have hbehind := hsuffix piece ((List.takeWhile_prefix _).subset hpiece)
    obtain ⟨tokens, shape⟩ := piece
    cases shape <;>
      simp_all [Piece.isBrackets, Piece.isAnnotation, Piece.isNamePart, Piece.isSymbol]
  have hnamed : ((name.pieces ++ suffix).takeWhile Piece.isNamePart).reverse.dropWhile
      Piece.isAnnotation = name.pieces.reverse := by
    rw [hrun, List.reverse_append, List.dropWhile_append_of_pos hnotes, hpieces,
      List.reverse_append, List.reverse_singleton, List.singleton_append,
      List.dropWhile_cons_of_neg (by simp [hlast])]
  have hdrop : (front ++ (name.pieces ++ suffix)).dropWhile Piece.isAnnotation =
      name.word.piece :: (name.morePieces ++ suffix) := by
    rw [List.dropWhile_append_of_pos hfront]
    rfl
  have hall : suffix.all (fun piece => piece.isBrackets || piece.isAnnotation) = true :=
    List.all_eq_true.mpr hsuffix
  have hrest : name.word.piece :: (name.morePieces ++ suffix) = name.pieces ++ suffix := rfl
  have hword : name.word.piece.isWord = true := rfl
  have hquestion : name.word.piece.isSymbol "?" = false := rfl
  unfold TypeExpr.ofPieces?
  rw [hdrop]
  simp only [hquestion, Bool.false_eq_true, if_false]
  rw [hrest, hnamed, List.length_reverse, List.drop_left, List.reverse_reverse,
    TypeExpr.isNameRow_reverse, name.isNameRow_pieces, hall, hword]
  rfl

end TypeName

/-! ## Types -/

/-- A pair of brackets with the annotations in front of it. -/
structure Dimension where
  annotations : List Annotation := []
  brackets : Enclosure .inside := {}

namespace Dimension

/-- The trees of a pair of brackets. -/
def trees (dimension : Dimension) : List Tree :=
  annotationTrees dimension.annotations ++ [dimension.brackets.group ('[', ']')]

/-- The pieces of a pair of brackets. -/
def pieces (dimension : Dimension) : List Piece :=
  annotationPieces dimension.annotations ++ [Piece.ofTree (dimension.brackets.group ('[', ']'))]

theorem reads (dimension : Dimension) : Reads dimension.trees dimension.pieces := by
  have hpair : ('[', ']') ∈ Brackets.nesting := by decide
  have hbrackets : Reads [dimension.brackets.group ('[', ']')]
      [Piece.ofTree (dimension.brackets.group ('[', ']'))] :=
    .single (.group _ _ hpair (by decide) dimension.brackets.row (.nil _)) (.group _ _ _ _) rfl
  exact (reads_annotations _).append hbrackets (Piece.detached_cons rfl _) (by simp)

end Dimension

/-- The trees of pairs of brackets. -/
def dimensionTrees (dimensions : List Dimension) : List Tree := dimensions.flatMap Dimension.trees

/-- The pieces of pairs of brackets. -/
def dimensionPieces (dimensions : List Dimension) : List Piece :=
  dimensions.flatMap Dimension.pieces

section Dimensions

variable (dimensions : List Dimension)

theorem reads_dimensions : Reads (dimensionTrees dimensions) (dimensionPieces dimensions) :=
  .flatMap fun dimension _ => dimension.reads

/-- Pairs of brackets are brackets and annotations. -/
theorem of_mem_dimensionPieces :
    ∀ piece ∈ dimensionPieces dimensions, (piece.isBrackets || piece.isAnnotation) = true := by
  intro piece hpiece
  obtain ⟨dimension, -, hpiece⟩ := List.mem_flatMap.mp hpiece
  rcases List.mem_append.mp hpiece with hnote | hbrackets
  · rw [isAnnotation_of_mem piece hnote, Bool.or_true]
  · obtain rfl := List.mem_singleton.mp hbrackets
    rfl

/-- There are as many pairs of brackets among the pieces as are written. -/
theorem countP_dimensionPieces :
    (dimensionPieces dimensions).countP Piece.isBrackets = dimensions.length := by
  induction dimensions with
  | nil => rfl
  | cons dimension dimensions ih =>
    have hnotes : (annotationPieces dimension.annotations).countP Piece.isBrackets = 0 := by
      rw [List.countP_eq_zero]
      intro piece hpiece
      obtain ⟨note, -, rfl⟩ := List.mem_map.mp hpiece
      exact Bool.false_ne_true
    have hpair : [Piece.ofTree (dimension.brackets.group ('[', ']'))].countP Piece.isBrackets =
        1 := rfl
    rw [dimensionPieces, List.flatMap_cons, List.countP_append, Dimension.pieces,
      List.countP_append, hnotes, hpair, ← dimensionPieces, ih, List.length_cons]
    omega

end Dimensions

/-- A type: its name and its pairs of brackets. -/
structure TypeSyntax where
  name : TypeName
  dimensions : List Dimension := []

namespace TypeSyntax

/-- The trees of a type. -/
def trees (type : TypeSyntax) : List Tree := type.name.trees ++ dimensionTrees type.dimensions

/-- The pieces of a type. -/
def pieces (type : TypeSyntax) : List Piece := type.name.pieces ++ dimensionPieces type.dimensions

/-- What a type is read as. -/
def expr (type : TypeSyntax) : TypeExpr := type.name.expr.withDimensions type.dimensions.length

variable (type : TypeSyntax)

theorem reads : Reads type.trees type.pieces :=
  type.name.reads.append (reads_dimensions type.dimensions)

theorem isTypePiece_of_mem : ∀ piece ∈ type.pieces, isTypePiece piece = true := by
  rw [pieces, List.forall_mem_append]
  refine ⟨fun piece hpiece => ?_, fun piece hpiece => ?_⟩
  · rw [isTypePiece, type.name.isNamePart_of_mem piece hpiece, Bool.true_or]
  · rcases Bool.or_eq_true_iff.mp (of_mem_dimensionPieces _ piece hpiece) with hpair | hnote
    · rw [isTypePiece, hpair, Bool.or_true]
    · exact isTypePiece_of_isAnnotation_eq_true hnote

/-- A type is read with the annotations in front of it and behind it. -/
theorem ofPieces?_eq {front behind : List Piece}
    (hfront : ∀ piece ∈ front, piece.isAnnotation = true)
    (hbehind : ∀ piece ∈ behind, piece.isAnnotation = true) :
    TypeExpr.ofPieces? (front ++ (type.pieces ++ behind)) = some type.expr := by
  have hcount : behind.countP Piece.isBrackets = 0 := by
    rw [List.countP_eq_zero]
    intro piece hpiece hpair
    have hnote := hbehind piece hpiece
    obtain ⟨tokens, shape⟩ := piece
    cases shape <;> simp_all [Piece.isBrackets, Piece.isAnnotation]
  have hsuffix : ∀ piece ∈ dimensionPieces type.dimensions ++ behind,
      (piece.isBrackets || piece.isAnnotation) = true := by
    rw [List.forall_mem_append]
    refine ⟨of_mem_dimensionPieces _, fun piece hpiece => ?_⟩
    rw [hbehind piece hpiece, Bool.or_true]
  rw [pieces, List.append_assoc, type.name.ofPieces?_append hfront hsuffix, List.countP_append,
    countP_dimensionPieces, hcount]
  rfl

theorem ofPieces?_pieces : TypeExpr.ofPieces? type.pieces = some type.expr := by
  have hplain := type.ofPieces?_eq (List.forall_mem_nil _) (List.forall_mem_nil _)
  rwa [List.nil_append, List.append_nil] at hplain

end TypeSyntax

end Grammar

end JavaSignatures.Source
