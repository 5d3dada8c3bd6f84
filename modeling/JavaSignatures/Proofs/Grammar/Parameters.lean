import JavaSignatures.Proofs.Grammar.Types
import JavaSignatures.Proofs.Bodies.Parameters

set_option autoImplicit false

/-!
# Grammar: modifiers and parameters

A parameter is a type and a name behind modifiers.  Brackets can stand behind the name as well, and
dots in front of the name of a parameter that takes any number of arguments.  The parameters in
parentheses are read one by one (`Parameters.listOfTrees_eq`).
-/

namespace JavaSignatures.Source

open Canonical (wordPiece markPiece ellipsisPiece)

/-- Angle brackets are tokens like others where brackets of other kinds are around them. -/
theorem TreeRow.inside {place : Position} {trees : List Tree} (h : TreeRow place trees) :
    TreeRow .inside trees := by
  have hmarks : ∀ c ∈ bracketMarks ++ Position.inside.barred, c ∈ bracketMarks := by decide
  have hangle : ∀ (gap : List Lexeme) {c : Char}, c = '<' ∨ c = '>' →
      ∀ d ∈ bracketMarks ++ Position.inside.barred, (Token.mark gap c).isSymbol d = false := by
    intro gap c hc d hd
    rw [Token.isSymbol_mark]
    rcases hc with rfl | rfl <;> revert d <;> decide
  induction h with
  | nil => exact .nil _
  | leaf hsymbol h ih =>
    exact .leaf (fun c hc => hsymbol c (List.mem_append_left _ (hmarks c hc))) ih
  | group gap behind hpair hplace hinner h ihinner ih =>
    exact .group gap behind hpair (by simp [Position.barred]) hinner ih
  | angles gap behind hplace hinner h ihinner ih =>
    exact .leaf (hangle gap (Or.inl rfl))
      (ihinner.append (.leaf (hangle behind (Or.inr rfl)) ih))

namespace Grammar

open Piece (Detached)

/-! ## Modifiers -/

/-- A modifier of a declaration or a parameter. -/
inductive Modifier where
  | keyword (word : Word) (hword : word.name ∈ Modifiers.keywords)
  | note (inner : Annotation)

namespace Modifier

/-- The trees of a modifier. -/
def trees : Modifier → List Tree
  | .keyword word _ => [word.tree]
  | .note inner => inner.trees

/-- The piece that a modifier is. -/
def piece : Modifier → Piece
  | .keyword word _ => word.piece
  | .note inner => inner.piece

/-- The keyword that a modifier is. -/
def word? : Modifier → Option String
  | .keyword word _ => some word.name
  | .note _ => none

variable (modifier : Modifier)

theorem reads : ReadsOpen modifier.trees [modifier.piece] := by
  cases modifier with
  | keyword word hword => exact word.reads.isOpen
  | note inner => exact inner.reads

theorem detached (rest : List Piece) : Detached (modifier.piece :: rest) := by
  cases modifier with
  | keyword word hword => exact word.detached rest
  | note inner => exact inner.detached rest

theorem isModifier_piece : Modifiers.isModifier modifier.piece = true := by
  cases modifier with
  | note inner => rfl
  | keyword word hword =>
    have htext : Modifiers.keywords.contains word.piece.text = true := by
      rw [Word.text_piece, List.contains_iff_mem]
      exact hword
    have hword : word.piece.isWord = true := rfl
    rw [piece, Modifiers.isModifier, htext, hword, Bool.and_true, Bool.or_true]

theorem isTypePiece_piece : isTypePiece modifier.piece = true := by
  cases modifier <;> rfl

end Modifier

/-- The trees of modifiers. -/
def modifierTrees (modifiers : List Modifier) : List Tree := modifiers.flatMap Modifier.trees

/-- The pieces of modifiers. -/
def modifierPieces (modifiers : List Modifier) : List Piece := modifiers.map Modifier.piece

/-- What the modifiers are read as. -/
def modifiersOf (modifiers : List Modifier) : Modifiers :=
  Modifiers.ofPieces (modifierPieces modifiers)

section Modifiers

variable (modifiers : List Modifier)

theorem detached_modifierPieces : Detached (modifierPieces modifiers) := by
  cases modifiers with
  | nil => exact Piece.detached_nil
  | cons modifier modifiers => exact modifier.detached _

theorem reads_modifiers : ReadsOpen (modifierTrees modifiers) (modifierPieces modifiers) := by
  induction modifiers with
  | nil => exact Reads.nil.isOpen
  | cons modifier modifiers ih =>
    exact modifier.reads.append_isOpen ih (detached_modifierPieces modifiers)

/-- Modifiers close in front of a part that is detached and not empty. -/
theorem reads_modifiers_append {trees : List Tree} {piece : Piece} {rest : List Piece}
    (h : Reads trees (piece :: rest)) (hpiece : piece.continues = false) :
    Reads (modifierTrees modifiers ++ trees) (modifierPieces modifiers ++ piece :: rest) :=
  (reads_modifiers modifiers).append h (Piece.detached_cons hpiece rest) (List.cons_ne_nil _ _)

theorem isModifier_of_mem :
    ∀ piece ∈ modifierPieces modifiers, Modifiers.isModifier piece = true := by
  intro piece hpiece
  obtain ⟨modifier, -, rfl⟩ := List.mem_map.mp hpiece
  exact modifier.isModifier_piece

/-- The modifiers are split off in front of what is none. -/
theorem split_modifierPieces {row : List Piece}
    (hrow : ∀ piece ∈ row.head?, Modifiers.isModifier piece = false) :
    Modifiers.split (modifierPieces modifiers ++ row) = (modifiersOf modifiers, row) := by
  have htake : row.takeWhile Modifiers.isModifier = [] := by
    cases row with
    | nil => rfl
    | cons piece row => exact List.takeWhile_cons_of_neg (by simp [hrow piece rfl])
  have hdrop : row.dropWhile Modifiers.isModifier = row := by
    cases row with
    | nil => rfl
    | cons piece row => exact List.dropWhile_cons_of_neg (by simp [hrow piece rfl])
  rw [Modifiers.split, List.takeWhile_append_of_pos (isModifier_of_mem modifiers),
    List.dropWhile_append_of_pos (isModifier_of_mem modifiers), htake, hdrop, List.append_nil]
  rfl

/-- The words of the modifiers are their keywords in order. -/
theorem words_modifiersOf : (modifiersOf modifiers).words = modifiers.filterMap Modifier.word? := by
  change ((modifierPieces modifiers).filter Piece.isWord).map Piece.text = _
  induction modifiers with
  | nil => rfl
  | cons modifier modifiers ih =>
    cases modifier with
    | note inner => exact ih
    | keyword word hword =>
      have hpiece : (Modifier.keyword word hword).piece.isWord = true := rfl
      rw [modifierPieces, List.map_cons, List.filter_cons_of_pos hpiece, List.map_cons,
        ← modifierPieces, ih]
      exact congrArg (· :: _) word.text_piece

end Modifiers

/-! ## Parameters -/

/-- A parameter in the parentheses of a method or a constructor. -/
inductive ParameterSyntax where
  | single (modifiers : List Modifier) (type : TypeSyntax) (name : Word)
    (dimensions : List Dimension) (hname : name.name ≠ "this")
  /-- a parameter of any number of arguments -/
  | spread (modifiers : List Modifier) (type : TypeSyntax) (before : List Annotation)
    (gap : List Lexeme) (behind : List Annotation) (name : Word)
  /-- the receiver, which is `this` behind the names of any declarations around it -/
  | receiver (modifiers : List Modifier) (type : TypeSyntax)
    (owners : List (Word × List Lexeme)) (gap : List Lexeme)

/-- The comment that is taken for the type of a parameter of any number of arguments: the first one
between the modifiers, if there are any, and the type. -/
def hiddenComment? (modifiers : List Modifier) (type : TypeSyntax) : Option String :=
  if modifiers.isEmpty then none else type.name.word.token.comments.head?

namespace ParameterSyntax

/-- The word that stands for the receiver. -/
def this (gap : List Lexeme) : Word := ⟨gap, "this".toList⟩

/-- The modifiers of a parameter. -/
def modifiers : ParameterSyntax → List Modifier
  | .single modifiers .. => modifiers
  | .spread modifiers .. => modifiers
  | .receiver modifiers .. => modifiers

/-- The type of a parameter in front of any dots. -/
def type : ParameterSyntax → TypeSyntax
  | .single _ type .. => type
  | .spread _ type .. => type
  | .receiver _ type .. => type

/-- The trees behind the type of a parameter. -/
def behindTrees : ParameterSyntax → List Tree
  | .single _ _ name dimensions _ => [name.tree] ++ dimensionTrees dimensions
  | .spread _ _ before gap behind name =>
    annotationTrees before ++
      ([.leaf (Token.ellipsis gap)] ++ (annotationTrees behind ++ [name.tree]))
  | .receiver _ _ owners gap =>
    owners.flatMap (fun (word, gap) => [word.tree] ++ [.leaf (Token.mark gap '.')]) ++
      [(this gap).tree]

/-- The pieces behind the type of a parameter. -/
def behindPieces : ParameterSyntax → List Piece
  | .single _ _ name dimensions _ => [name.piece] ++ dimensionPieces dimensions
  | .spread _ _ before gap behind name =>
    annotationPieces before ++ ([ellipsisPiece gap] ++ (annotationPieces behind ++ [name.piece]))
  | .receiver _ _ owners gap =>
    owners.flatMap (fun (word, gap) => [word.piece] ++ [markPiece gap '.']) ++ [(this gap).piece]

/-- The trees of a parameter. -/
def trees (parameter : ParameterSyntax) : List Tree :=
  modifierTrees parameter.modifiers ++ (parameter.type.trees ++ parameter.behindTrees)

/-- The pieces of a parameter. -/
def pieces (parameter : ParameterSyntax) : List Piece :=
  modifierPieces parameter.modifiers ++ (parameter.type.pieces ++ parameter.behindPieces)

/-- What a parameter is read as.  The receiver is none. -/
def expr? : ParameterSyntax → Option ParameterExpr
  | .single _ type name dimensions _ =>
    some { name := name.name, type := type.expr.withDimensions dimensions.length }
  | .spread modifiers type _ _ _ name =>
    some
      { name := name.name
        type := ((hiddenComment? modifiers type).map TypeExpr.verbatim).getD type.expr
        varargs := true }
  | .receiver .. => none

variable (parameter : ParameterSyntax)

theorem reads_behind : Reads parameter.behindTrees parameter.behindPieces := by
  cases parameter with
  | single modifiers type name dimensions hname =>
    exact name.reads.append (reads_dimensions dimensions)
  | spread modifiers type before gap behind name =>
    have hname := (reads_annotations behind).append name.reads (name.detached []) (by simp)
    have hdots := (reads_ellipsis gap).append hname
    have hcontinues : (ellipsisPiece gap).continues = false := by
      have hperiod : (ellipsisPiece gap).isSymbol "." = false := by
        rw [Canonical.isSymbol_ellipsisPiece]
        decide
      exact hperiod
    exact (reads_annotations before).append hdots (Piece.detached_cons hcontinues _) (by simp)
  | receiver modifiers type owners gap =>
    exact Reads.append (.flatMap fun owner _ => owner.1.reads.append (reads_mark _ (Or.inl rfl)))
      (this gap).reads

theorem reads : Reads parameter.trees parameter.pieces :=
  reads_modifiers_append _ (parameter.type.reads.append parameter.reads_behind) rfl

/-- The parameter takes any number of arguments. -/
def isVarargs : ParameterSyntax → Bool
  | .spread .. => true
  | _ => false

/-- What is in a parameter can be in a type, the dots apart. -/
theorem isTypePiece_or_of_mem : ∀ piece ∈ parameter.pieces, isTypePiece piece = true ∨
    parameter.isVarargs = true ∧ ∃ gap, piece = ellipsisPiece gap := by
  have hnotes : ∀ notes : List Annotation, ∀ piece ∈ annotationPieces notes,
      isTypePiece piece = true :=
    fun notes piece hpiece => isTypePiece_of_isAnnotation_eq_true (isAnnotation_of_mem piece hpiece)
  have hperiod : ∀ gap, isTypePiece (markPiece gap '.') = true := by
    intro gap
    have hsymbol : (markPiece gap '.').isSymbol "." = true := by
      rw [Canonical.isSymbol_markPiece]
      decide
    exact Bool.or_eq_true_iff.mpr (Or.inl hsymbol)
  rw [pieces, List.forall_mem_append, List.forall_mem_append]
  refine ⟨fun piece hpiece => Or.inl ?_,
    fun piece hpiece => Or.inl (parameter.type.isTypePiece_of_mem piece hpiece), ?_⟩
  · obtain ⟨modifier, -, rfl⟩ := List.mem_map.mp hpiece
    exact modifier.isTypePiece_piece
  · cases parameter with
    | single modifiers type name dimensions hname =>
      rw [behindPieces, List.forall_mem_append, List.forall_mem_singleton]
      refine ⟨Or.inl rfl, fun piece hpiece => Or.inl ?_⟩
      rcases Bool.or_eq_true_iff.mp (of_mem_dimensionPieces _ piece hpiece) with hpair | hnote
      · rw [isTypePiece, hpair, Bool.or_true]
      · exact isTypePiece_of_isAnnotation_eq_true hnote
    | spread modifiers type before gap behind name =>
      simp only [behindPieces, List.forall_mem_append, List.forall_mem_singleton]
      exact ⟨fun piece hpiece => Or.inl (hnotes before piece hpiece), Or.inr ⟨rfl, gap, rfl⟩,
        fun piece hpiece => Or.inl (hnotes behind piece hpiece), Or.inl rfl⟩
    | receiver modifiers type owners gap =>
      rw [behindPieces, List.forall_mem_append, List.forall_mem_singleton]
      refine ⟨fun piece hpiece => Or.inl ?_, Or.inl rfl⟩
      obtain ⟨owner, -, hpiece⟩ := List.mem_flatMap.mp hpiece
      rcases List.mem_append.mp hpiece with hword | hmark
      · obtain rfl := List.mem_singleton.mp hword
        rfl
      · obtain rfl := List.mem_singleton.mp hmark
        exact hperiod _

/-- No piece of a parameter is a comma. -/
theorem not_isSymbol_comma : ∀ piece ∈ parameter.pieces, piece.isSymbol "," = false := by
  intro piece hpiece
  rcases parameter.isTypePiece_or_of_mem piece hpiece with htype | ⟨-, gap, rfl⟩
  · exact not_isSymbol_of_isTypePiece htype (by decide)
  · rw [Canonical.isSymbol_ellipsisPiece]
    decide

/-! ### Reading parameters -/

/-- The modifiers of a parameter end in front of its type. -/
theorem dropWhile_pieces : parameter.pieces.dropWhile Modifiers.isModifier =
    parameter.type.pieces ++ parameter.behindPieces := by
  have hfirst := (Word.isNoHeadWord parameter.type.name.hword).not_isModifier
  rw [pieces, List.dropWhile_append_of_pos (isModifier_of_mem _)]
  exact List.dropWhile_cons_of_neg (by rw [hfirst]; exact Bool.false_ne_true)

/-- Without dots a parameter is read as one of one argument. -/
theorem ofPieces?_of_not_isVarargs (h : parameter.isVarargs = false) :
    ParameterExpr.ofPieces? parameter.pieces =
      ParameterExpr.ofSingle? (parameter.type.pieces ++ parameter.behindPieces) := by
  have hdots : (parameter.type.pieces ++ parameter.behindPieces).dropWhile
      (fun piece => !piece.isSymbol "...") = [] := by
    rw [List.dropWhile_eq_nil_iff]
    intro piece hpiece
    rcases parameter.isTypePiece_or_of_mem piece (List.mem_append_right _ hpiece) with
      htype | ⟨hvarargs, -⟩
    · rw [not_isSymbol_of_isTypePiece htype (by decide)]
      rfl
    · rw [h] at hvarargs
      exact absurd hvarargs Bool.false_ne_true
  unfold ParameterExpr.ofPieces?
  dsimp only
  rw [dropWhile_pieces, hdots]

/-- The brackets behind a name count with those of the type. -/
theorem ofSingle?_eq (type : TypeSyntax) (name : Word) (dimensions : List Dimension)
    (hname : name.name ≠ "this") :
    ParameterExpr.ofSingle? (type.pieces ++ ([name.piece] ++ dimensionPieces dimensions)) =
      some { name := name.name, type := type.expr.withDimensions dimensions.length } := by
  have hthis : name.piece.isKeyword "this" = false := by
    rw [Piece.isKeyword, Word.text_piece, Bool.and_eq_false_iff, beq_eq_false_iff_ne]
    exact Or.inr hname
  have hword : name.piece.isWord = true := rfl
  have hbehind : ∀ piece ∈ (dimensionPieces dimensions).reverse,
      (piece.isBrackets || piece.isAnnotation) = true :=
    fun piece hpiece => of_mem_dimensionPieces dimensions piece (List.mem_reverse.mp hpiece)
  have hstop : (name.piece.isBrackets || name.piece.isAnnotation) = false := rfl
  have hreverse : (type.pieces ++ ([name.piece] ++ dimensionPieces dimensions)).reverse =
      (dimensionPieces dimensions).reverse ++ name.piece :: type.pieces.reverse := by
    simp
  unfold ParameterExpr.ofSingle?
  dsimp only
  rw [hreverse, takeWhile_run hbehind hstop, dropWhile_run hbehind hstop, List.countP_reverse,
    countP_dimensionPieces]
  dsimp only
  rw [hthis, hword, List.reverse_reverse, type.ofPieces?_pieces, Word.text_piece]
  rfl

/-- The receiver is no parameter. -/
theorem ofSingle?_this (row : List Piece) (gap : List Lexeme) :
    ParameterExpr.ofSingle? (row ++ [(this gap).piece]) = none := by
  have hthis : (this gap).piece.isKeyword "this" = true := by
    have hname : (this gap).name = "this" := String.ofList_toList
    rw [Piece.isKeyword, Word.text_piece, hname]
    rfl
  have hstop : ((this gap).piece.isBrackets || (this gap).piece.isAnnotation) = false := rfl
  unfold ParameterExpr.ofSingle?
  dsimp only
  rw [List.reverse_append, List.reverse_singleton, List.singleton_append,
    List.dropWhile_cons_of_neg (by rw [hstop]; exact Bool.false_ne_true)]
  dsimp only
  rw [hthis, Bool.not_true, Bool.and_false, if_neg Bool.false_ne_true]

/-- A comment between modifiers and type takes the place of the type. -/
theorem ofSpread?_eq (modifiers : List Modifier) (type : TypeSyntax)
    (before behind : List Annotation) (name : Word) :
    ParameterExpr.ofSpread? (!modifiers.isEmpty) (type.pieces ++ annotationPieces before)
        (annotationPieces behind ++ [name.piece]) =
      some
        { name := name.name
          type := ((hiddenComment? modifiers type).map TypeExpr.verbatim).getD type.expr
          varargs := true } := by
  have hname : (annotationPieces behind ++ [name.piece]).dropWhile Piece.isAnnotation =
      [name.piece] := dropWhile_run isAnnotation_of_mem rfl []
  have hcomment : (if (!modifiers.isEmpty) = true then
      ((type.pieces ++ annotationPieces before).head?.map Piece.comments).bind List.head?
      else none) = hiddenComment? modifiers type := by
    unfold hiddenComment?
    cases modifiers <;> rfl
  have htype : TypeExpr.ofPieces? (type.pieces ++ annotationPieces before) = some type.expr :=
    type.ofPieces?_eq (List.forall_mem_nil _) isAnnotation_of_mem
  have hword : name.piece.isWord = true := rfl
  unfold ParameterExpr.ofSpread?
  rw [hname, hcomment, htype]
  cases hiddenComment? modifiers type <;> simp [hword, Word.text_piece]

/-- With dots a parameter is read as one of any number of arguments. -/
theorem ofPieces?_of_dots {row front declarator : List Piece} {stop : Piece}
    (hrest : row.dropWhile Modifiers.isModifier = front ++ stop :: declarator)
    (hfront : ∀ piece ∈ front, piece.isSymbol "..." = false)
    (hstop : stop.isSymbol "..." = true) :
    ParameterExpr.ofPieces? row =
      ParameterExpr.ofSpread? ((front ++ stop :: declarator).length < row.length) front
        declarator := by
  have hnotDots : ∀ piece ∈ front, (!piece.isSymbol "...") = true := by
    intro piece hpiece
    rw [hfront piece hpiece]
    rfl
  have hdots : (!stop.isSymbol "...") = false := by rw [hstop, Bool.not_true]
  unfold ParameterExpr.ofPieces?
  dsimp only
  rw [hrest, dropWhile_run hnotDots hdots, takeWhile_run hnotDots hdots]

/-- A parameter is read as what was written. -/
theorem ofPieces?_eq : ParameterExpr.ofPieces? parameter.pieces = parameter.expr? := by
  cases parameter with
  | single modifiers type name dimensions hname =>
    rw [ofPieces?_of_not_isVarargs _ rfl]
    exact ofSingle?_eq type name dimensions hname
  | receiver modifiers type owners gap =>
    rw [ofPieces?_of_not_isVarargs _ rfl, behindPieces, ← List.append_assoc]
    exact ofSingle?_this _ gap
  | spread modifiers type before gap behind name =>
    have hrest := dropWhile_pieces (spread modifiers type before gap behind name)
    have hrow : type.pieces ++ (spread modifiers type before gap behind name).behindPieces =
        (type.pieces ++ annotationPieces before) ++
          ellipsisPiece gap :: (annotationPieces behind ++ [name.piece]) := by
      simp [behindPieces]
    have hfront : ∀ piece ∈ type.pieces ++ annotationPieces before,
        piece.isSymbol "..." = false := by
      intro piece hpiece
      refine not_isSymbol_of_isTypePiece ?_ (by decide)
      rcases List.mem_append.mp hpiece with htype | hnote
      · exact type.isTypePiece_of_mem piece htype
      · exact isTypePiece_of_isAnnotation_eq_true (isAnnotation_of_mem piece hnote)
    have hstop : (ellipsisPiece gap).isSymbol "..." = true := by
      rw [Canonical.isSymbol_ellipsisPiece]
      decide
    have hlength : (spread modifiers type before gap behind name).pieces.length =
        modifiers.length + (type.pieces ++
          (spread modifiers type before gap behind name).behindPieces).length := by
      rw [pieces, List.length_append, modifierPieces, List.length_map]
      rfl
    rw [ofPieces?_of_dots (hrest.trans hrow) hfront hstop, hlength, hrow]
    have hmore : decide (((type.pieces ++ annotationPieces before) ++
        ellipsisPiece gap :: (annotationPieces behind ++ [name.piece])).length <
          modifiers.length + ((type.pieces ++ annotationPieces before) ++
            ellipsisPiece gap :: (annotationPieces behind ++ [name.piece])).length) =
              !modifiers.isEmpty := by
      cases modifiers <;> simp
    rw [hmore]
    exact ofSpread?_eq modifiers type before behind name

end ParameterSyntax

/-! ## Parameters in parentheses -/

/-- The parameters of a method or a constructor, with a gap in front of each comma. -/
structure Parameters where
  before : List Lexeme := []
  items : Option (ParameterSyntax × List (List Lexeme × ParameterSyntax)) := none
  behind : List Lexeme := []

namespace Parameters

/-- The parameters in order. -/
def list (parameters : Parameters) : List ParameterSyntax :=
  match parameters.items with
  | none => []
  | some (first, more) => first :: more.map Prod.snd

/-- The trees between the parentheses. -/
def inner (parameters : Parameters) : List Tree :=
  match parameters.items with
  | none => []
  | some (first, more) =>
    first.trees ++ more.flatMap fun (gap, parameter) =>
      [.leaf (Token.mark gap ',')] ++ parameter.trees

/-- The pieces between the parentheses. -/
def pieces (parameters : Parameters) : List Piece :=
  match parameters.items with
  | none => []
  | some (first, more) =>
    first.pieces ++ more.flatMap fun (gap, parameter) => [markPiece gap ','] ++ parameter.pieces

variable (parameters : Parameters)

theorem reads : Reads parameters.inner parameters.pieces := by
  unfold inner pieces
  cases parameters.items with
  | none => exact .nil
  | some items =>
    exact items.1.reads.append (.flatMap fun parameter _ =>
      (reads_mark parameter.1 (Or.inr (Or.inl rfl))).append parameter.2.reads)

/-- The parameters with their parentheses. -/
def enclosure : Enclosure .inside where
  before := parameters.before
  inner := parameters.inner
  behind := parameters.behind
  row := parameters.reads.row.inside

/-- The parameters are read one by one. -/
theorem listOfTrees_eq : ParameterExpr.listOfTrees parameters.inner =
    parameters.list.filterMap ParameterSyntax.expr? := by
  unfold ParameterExpr.listOfTrees
  rw [parameters.reads.isOpen.ofTrees_eq, pieces, list]
  cases parameters.items with
  | none => rfl
  | some items =>
    obtain ⟨first, more⟩ := items
    dsimp only
    induction more generalizing first with
    | nil =>
      rw [List.flatMap_nil, List.append_nil,
        Canonical.parts_eq_singleton _ first.not_isSymbol_comma]
      rw [List.filterMap_cons, List.filterMap_cons, first.ofPieces?_eq]
      rfl
    | cons parameter more ih =>
      have hcomma : (markPiece parameter.1 ',').isSymbol "," = true := by
        rw [Canonical.isSymbol_markPiece]
        decide
      rw [List.flatMap_cons, List.append_assoc, List.singleton_append,
        Canonical.parts_append_cons _ first.not_isSymbol_comma hcomma, List.filterMap_cons,
        first.ofPieces?_eq, ih, List.map_cons, List.filterMap_cons (a := first)]

end Parameters

end Grammar

end JavaSignatures.Source
