import JavaSignatures.Proofs.Bodies.Members
import JavaSignatures.Proofs.Grammar.Heads

set_option autoImplicit false

/-!
# Grammar: heads of declarations

The head of a class, interface, enum or record is read as what was written
(`DeclarationSyntax.ofTrees_eq`).  The other members of a body, annotation types, fields and
initializers, are read as no declaration at all.  The components of a record and initial values are
left open.
-/

namespace JavaSignatures.Source

open Canonical (wordPiece markPiece IsNoHeadWord StaysInHead kindWord)

namespace Grammar

open Piece (Joins)

/-! ## Classes, interfaces, enums and records -/

/-- The head of a class, interface, enum or record. -/
structure DeclarationSyntax where
  modifiers : List Modifier := []
  /-- in front of the keyword -/
  gap : List Lexeme := []
  kind : DeclarationKind
  name : Word
  typeVariables : Option (Enclosure .arguments) := none
  /-- the components of a record -/
  components : Option (Enclosure .inside) := none
  clause : Option Clause := none

namespace DeclarationSyntax

variable (head : DeclarationSyntax)

/-- The keyword of the declaration. -/
def keyword : Word := ⟨head.gap, (kindWord head.kind).toList⟩

/-- The trees of the components. -/
def componentTrees : List Tree :=
  head.components.toList.map fun enclosure => enclosure.group ('(', ')')

/-- The trees of the head up to its clause. -/
def frontTrees : List Tree :=
  modifierTrees head.modifiers ++ ([head.keyword.tree] ++ ([head.name.tree] ++
    (argumentTrees head.typeVariables ++ head.componentTrees)))

/-- The trees of the head. -/
def trees : List Tree := head.frontTrees ++ clauseTrees head.clause

/-- The pieces of the head behind the type variables. -/
def behindVariables : List Piece :=
  head.components.toList.map Enclosure.parensPiece ++ clausePieces head.clause

/-- The pieces of the head behind its modifiers. -/
def row : List Piece :=
  head.keyword.piece :: head.name.piece ::
    (argumentPieces head.typeVariables ++ head.behindVariables)

/-- What the head is read as. -/
def expr : TypeHead where
  kind := head.kind
  name := head.name.name
  typeVariables := (head.typeVariables.map variablesOf).getD []
  visibility := (modifiersOf head.modifiers).visibility
  isStatic := (modifiersOf head.modifiers).isStatic
  comment := commentOf head.modifiers head.row

theorem reads_front : Reads head.frontTrees (modifierPieces head.modifiers ++
    head.keyword.piece :: head.name.piece :: (argumentPieces head.typeVariables ++
      head.components.toList.map Enclosure.parensPiece)) := by
  have hcomponents : Reads head.componentTrees
      (head.components.toList.map Enclosure.parensPiece) := by
    unfold componentTrees
    cases head.components with
    | none => exact .nil
    | some enclosure => exact enclosure.reads_parens
  have hbehind := (reads_arguments head.typeVariables).append hcomponents
  exact reads_modifiers_append _ (head.keyword.reads.append (head.name.reads.append hbehind)) rfl

theorem ofTrees_trees :
    Piece.ofTrees head.trees = modifierPieces head.modifiers ++ head.row := by
  rw [trees, head.reads_front.ofTrees_append, row, behindVariables, clausePieces]
  simp

theorem staysInHead : ∀ tree ∈ head.trees, StaysInHead tree :=
  List.forall_mem_append.mpr ⟨head.reads_front.row.staysInHead (by decide),
    (treeRow_clauseTrees head.clause).staysInHead fun _ hc => hc⟩

theorem nests : Tree.Nests head.trees :=
  head.reads_front.row.nests.append (treeRow_clauseTrees head.clause).nests

/-- Only the list behind the name holds type variables. -/
theorem leadingVariables_row :
    (Head.leadingVariables (argumentPieces head.typeVariables ++ head.behindVariables)).1 =
      (head.typeVariables.map variablesOf).getD [] := by
  cases head.typeVariables with
  | some list => rfl
  | none =>
    unfold behindVariables
    rw [clausePieces_eq]
    cases head.components with
    | some components => rfl
    | none => cases head.clause <;> rfl

/-- The head of a declaration is read as what was written. -/
theorem ofTrees_eq : Head.ofTrees true head.trees = .type head.expr := by
  have hrow : ∀ piece ∈ head.row.head?, Modifiers.isModifier piece = false := by
    intro piece hpiece
    obtain rfl := Option.some.inj hpiece
    exact Canonical.JavaHead.not_isModifier_kindWord head.gap head.kind
  have hkind : Head.kind? head.keyword.piece = some head.kind :=
    Canonical.JavaHead.kind?_kindWord head.gap head.kind
  have hword : head.name.piece.isWord = true := rfl
  have htype : ∀ comment modifiers, Head.typeHead? comment modifiers head.row =
      some
        { head.expr with
          visibility := modifiers.visibility
          isStatic := modifiers.isStatic
          comment := comment } := by
    intro comment modifiers
    rw [row, Head.typeHead?, hkind]
    dsimp only
    rw [hword, if_pos rfl, head.leadingVariables_row, Word.text_piece]
    rfl
  rw [ofTrees_of_pieces head.ofTrees_trees hrow, if_pos rfl, htype]
  rfl

end DeclarationSyntax

/-! ## Heads that declare nothing -/

theorem Word.name_toList (gap : List Lexeme) (text : String) :
    (⟨gap, text.toList⟩ : Word).name = text :=
  String.ofList_toList

/-- A head without parentheses outside of annotations is no head of a method, unless it is a single
word in front of a block. -/
theorem methodHead?_eq_none {row : List Piece}
    (hrow : ∀ piece ∈ row, ∀ inner, piece.shape ≠ .parens inner)
    (hvariables : Head.leadingVariables row = ([], row)) {hasBlock : Bool}
    (hblock : hasBlock = true → row.length ≠ 1) (comment : Option String) (modifiers : Modifiers) :
    Head.methodHead? hasBlock comment modifiers row = none := by
  unfold Head.methodHead?
  rw [hvariables]
  dsimp only
  rw [Head.cutAtParens?_eq_none hrow]
  dsimp only
  split
  · next name =>
    cases hasBlock with
    | false => rfl
    | true => exact absurd rfl (hblock rfl)
  · rfl

/-- Such a head declares nothing, if it begins with no word of a type declaration. -/
theorem ofTrees_eq_other {trees : List Tree} {modifiers : List Modifier} {first : Piece}
    {rest : List Piece}
    (hpieces : Piece.ofTrees trees = modifierPieces modifiers ++ first :: rest)
    (hfirst : IsNoHeadWord first)
    (hrow : ∀ piece ∈ first :: rest, ∀ inner, piece.shape ≠ .parens inner)
    (hvariables : Head.leadingVariables (first :: rest) = ([], first :: rest)) {hasBlock : Bool}
    (hblock : hasBlock = true → rest ≠ []) : Head.ofTrees hasBlock trees = .other := by
  have hlength : hasBlock = true → (first :: rest).length ≠ 1 := by
    intro h hone
    exact hblock h (List.length_eq_zero_iff.mp (Nat.succ_inj.mp hone))
  rw [ofTrees_of_isNoHeadWord hpieces hfirst, methodHead?_eq_none hrow hvariables hlength]

/-- Modifiers alone declare nothing. -/
theorem ofTrees_modifierTrees (modifiers : List Modifier) (hasBlock : Bool) :
    Head.ofTrees hasBlock (modifierTrees modifiers) = .other := by
  have hpieces : Piece.ofTrees (modifierTrees modifiers) = modifierPieces modifiers ++ [] := by
    rw [(reads_modifiers modifiers).ofTrees_eq, List.append_nil]
  rw [ofTrees_of_pieces hpieces (by simp)]
  cases hasBlock <;> rfl

theorem shape_word_ne_parens (word : Word) (inner : List Tree) :
    word.piece.shape ≠ .parens inner := by
  simp [Word.piece, wordPiece]

theorem shape_mark_ne_parens (gap : List Lexeme) (c : Char) (inner : List Tree) :
    (markPiece gap c).shape ≠ .parens inner := by
  simp [markPiece]

/-- The head of an annotation type. -/
structure AnnotationTypeSyntax where
  modifiers : List Modifier := []
  /-- in front of the sign -/
  gap : List Lexeme := []
  /-- in front of the keyword -/
  behind : List Lexeme := []
  name : Word

namespace AnnotationTypeSyntax

variable (head : AnnotationTypeSyntax)

/-- The keyword behind the sign. -/
def keyword : Word := ⟨head.behind, "interface".toList⟩

/-- The trees of the head. -/
def trees : List Tree :=
  modifierTrees head.modifiers ++
    [.leaf (Token.mark head.gap '@'), head.keyword.tree, head.name.tree]

/-- The pieces of the head behind its modifiers. -/
def row : List Piece := [markPiece head.gap '@', head.keyword.piece, head.name.piece]

/-- The sign of an annotation type is no annotation. -/
theorem reads : Reads head.trees (modifierPieces head.modifiers ++ head.row) := by
  have hmark : ∀ c ∈ bracketMarks ++ Position.fieldHead.barred, ('@' == c) = false := by decide
  have hsymbol : (markPiece head.gap '@').isSymbol "@" = true := by
    rw [Canonical.isSymbol_markPiece]
    decide
  have hkeyword : head.keyword.piece.isKeyword "interface" = true := by
    rw [Piece.isKeyword, Word.text_piece, keyword, Word.name_toList]
    rfl
  have hrow : TreeRow .fieldHead
      [.leaf (Token.mark head.gap '@'), head.keyword.tree, head.name.tree] :=
    .leaf (fun c hc => by rw [Token.isSymbol_mark]; exact hmark c hc)
      (head.keyword.reads.row.append head.name.reads.row)
  have hwords : ∀ token ∈ [head.keyword.token, head.name.token], token.IsPlain := by
    simp [Word.token, Token.IsPlain.word]
  have hgroups : Tree.Regroups Brackets.angles
      [.leaf (Token.mark head.gap '@'), head.keyword.tree, head.name.tree]
      [.leaf (Token.mark head.gap '@'), head.keyword.tree, head.name.tree] :=
    Tree.Regroups.append (.leaf rfl rfl) (regroups_of_isPlain hwords)
  have hplain : Reads [.leaf (Token.mark head.gap '@'), head.keyword.tree, head.name.tree]
      head.row := by
    refine ⟨hrow, _, hgroups, fun rest => ?_⟩
    have hbehind : Joins [head.keyword.piece, head.name.piece]
        [head.keyword.piece, head.name.piece] :=
      (Piece.joins_singleton rfl).append (Piece.joins_singleton rfl)
    have hnoName : (head.keyword.piece.isWord && !head.keyword.piece.isKeyword "interface") =
        false := by
      rw [hkeyword, Bool.not_true, Bool.and_false]
    change Piece.joinAnnotations (markPiece head.gap '@' ::
      ([head.keyword.piece, head.name.piece] ++ rest)) = _
    rw [Piece.joinAnnotations_cons, if_pos hsymbol, hbehind, List.cons_append, Piece.joinMark,
      hnoName, if_neg Bool.false_ne_true]
    rfl
  exact reads_modifiers_append _ hplain (Piece.continues_of_isSymbol_at hsymbol)

/-- An annotation type is read as no declaration. -/
theorem ofTrees_eq : Head.ofTrees true head.trees = .other := by
  have hmark : IsNoHeadWord (markPiece head.gap '@') :=
    ⟨rfl, fun h => absurd h Bool.false_ne_true⟩
  refine ofTrees_eq_other head.reads.isOpen.ofTrees_eq hmark ?_ rfl fun _ => by simp
  simp only [List.forall_mem_cons]
  exact ⟨shape_mark_ne_parens _ _, shape_word_ne_parens _, shape_word_ne_parens _, by simp⟩

theorem staysInHead : ∀ tree ∈ head.trees, StaysInHead tree :=
  head.reads.row.staysInHead (by decide)

theorem nests : Tree.Nests head.trees := head.reads.row.nests

end AnnotationTypeSyntax

/-- The head of a module. -/
structure ModuleSyntax where
  annotations : List Annotation := []
  /-- in front of `open` -/
  opening : Option (List Lexeme) := none
  /-- in front of `module` -/
  gap : List Lexeme := []
  name : Name

namespace ModuleSyntax

variable (head : ModuleSyntax)

/-- The words in front of the name of a module. -/
def keywords : Word × List Word :=
  match head.opening with
  | none => (⟨head.gap, "module".toList⟩, [])
  | some opening => (⟨opening, "open".toList⟩, [⟨head.gap, "module".toList⟩])

/-- The trees of the head. -/
def trees : List Tree :=
  modifierTrees (head.annotations.map .note) ++
    ([head.keywords.1.tree] ++ (head.keywords.2.flatMap (fun word => [word.tree]) ++
      head.name.trees))

/-- The pieces of the head behind its annotations and its first word. -/
def rest : List Piece := head.keywords.2.flatMap (fun word => [word.piece]) ++ head.name.pieces

theorem reads : Reads head.trees
    (modifierPieces (head.annotations.map .note) ++ head.keywords.1.piece :: head.rest) :=
  reads_modifiers_append _ (head.keywords.1.reads.append
    (Reads.append (.flatMap fun word _ => word.reads) head.name.reads)) rfl

/-- A module is read as no declaration. -/
theorem ofTrees_eq : Head.ofTrees true head.trees = .other := by
  have hfirst : head.keywords.1.name ∉ noTypeWords := by
    unfold keywords
    cases head.opening <;> (dsimp only; rw [Word.name_toList]; decide)
  refine ofTrees_eq_other head.reads.isOpen.ofTrees_eq (Word.isNoHeadWord hfirst) ?_ rfl
    fun _ => by simp [rest, Name.pieces]
  rw [List.forall_mem_cons]
  refine ⟨shape_word_ne_parens _, fun piece hpiece => ?_⟩
  rw [rest, Name.pieces, Name.morePieces, List.mem_append, List.mem_cons, List.mem_flatMap,
    List.mem_flatMap] at hpiece
  rcases hpiece with ⟨word, -, hword⟩ | rfl | ⟨part, -, hpart⟩
  · obtain rfl := List.mem_singleton.mp hword
    exact shape_word_ne_parens _
  · exact shape_word_ne_parens _
  · rcases List.mem_cons.mp hpart with rfl | hword
    · exact shape_mark_ne_parens _ _
    · obtain rfl := List.mem_singleton.mp hword
      exact shape_word_ne_parens _

theorem staysInHead : ∀ tree ∈ head.trees, StaysInHead tree :=
  head.reads.row.staysInHead (by decide)

theorem nests : Tree.Nests head.trees := head.reads.row.nests

end ModuleSyntax

/-! ## Fields -/

/-- A field among those that a statement declares. -/
structure Declarator where
  name : Word
  dimensions : List Dimension := []

namespace Declarator

variable (declarator : Declarator)

/-- The trees of a declarator. -/
def trees : List Tree := [declarator.name.tree] ++ dimensionTrees declarator.dimensions

/-- The pieces of a declarator. -/
def pieces : List Piece := [declarator.name.piece] ++ dimensionPieces declarator.dimensions

theorem reads : Reads declarator.trees declarator.pieces :=
  declarator.name.reads.append (reads_dimensions declarator.dimensions)

theorem isTypePiece_of_mem : ∀ piece ∈ declarator.pieces, isTypePiece piece = true := by
  rw [pieces, List.forall_mem_append, List.forall_mem_singleton]
  refine ⟨rfl, fun piece hpiece => ?_⟩
  rcases Bool.or_eq_true_iff.mp (of_mem_dimensionPieces _ piece hpiece) with hpair | hnote
  · rw [isTypePiece, hpair, Bool.or_true]
  · exact isTypePiece_of_isAnnotation_eq_true hnote

end Declarator

/-- An initial value; what is behind its first comma can declare more fields. -/
structure InitialValue where
  /-- in front of the equals sign -/
  gap : List Lexeme := []
  trees : List Tree
  row : TreeRow .value trees

/-- The fields that a statement declares, with a gap in front of each comma. -/
structure FieldSyntax where
  modifiers : List Modifier := []
  type : TypeSyntax
  first : Declarator
  more : List (List Lexeme × Declarator) := []
  value : Option InitialValue := none

namespace FieldSyntax

variable (field : FieldSyntax)

/-- The trees of the declarators without initial values. -/
def declaratorTrees : List Tree :=
  field.first.trees ++ field.more.flatMap fun (gap, declarator) =>
    [.leaf (Token.mark gap ',')] ++ declarator.trees

/-- The pieces of the declarators without initial values. -/
def declaratorPieces : List Piece :=
  field.first.pieces ++ field.more.flatMap fun (gap, declarator) =>
    [markPiece gap ','] ++ declarator.pieces

/-- The trees in front of the initial value. -/
def frontTrees : List Tree :=
  modifierTrees field.modifiers ++ (field.type.trees ++ field.declaratorTrees)

/-- The trees of the statement. -/
def trees : List Tree :=
  match field.value with
  | none => field.frontTrees
  | some value => field.frontTrees ++ .leaf (Token.mark value.gap '=') :: value.trees

/-- The pieces behind the first word of the type. -/
def rest : List Piece :=
  field.type.name.morePieces ++ (dimensionPieces field.type.dimensions ++ field.declaratorPieces)

theorem reads_front : Reads field.frontTrees
    (modifierPieces field.modifiers ++ field.type.name.word.piece :: field.rest) := by
  have hdeclarators : Reads field.declaratorTrees field.declaratorPieces :=
    field.first.reads.append (.flatMap fun declarator _ =>
      (reads_mark declarator.1 (Or.inr (Or.inl rfl))).append declarator.2.reads)
  have hrow : field.type.pieces ++ field.declaratorPieces =
      field.type.name.word.piece :: field.rest := by
    simp [rest, TypeSyntax.pieces, TypeName.pieces]
  have hreads := field.type.reads.append hdeclarators
  rw [hrow] at hreads
  exact reads_modifiers_append _ hreads rfl

theorem shape_ne_parens : ∀ piece ∈ field.type.name.word.piece :: field.rest,
    ∀ inner, piece.shape ≠ .parens inner := by
  have hrow : field.type.name.word.piece :: field.rest =
      field.type.pieces ++ field.declaratorPieces := by
    simp [rest, TypeSyntax.pieces, TypeName.pieces]
  rw [hrow, declaratorPieces, List.forall_mem_append, List.forall_mem_append]
  refine ⟨fun piece hpiece => ?_, fun piece hpiece => ?_, fun piece hpiece => ?_⟩
  · exact shape_ne_parens_of_isTypePiece (field.type.isTypePiece_of_mem piece hpiece)
  · exact shape_ne_parens_of_isTypePiece (field.first.isTypePiece_of_mem piece hpiece)
  · obtain ⟨declarator, -, hpiece⟩ := List.mem_flatMap.mp hpiece
    rcases List.mem_append.mp hpiece with hcomma | hpiece
    · obtain rfl := List.mem_singleton.mp hcomma
      exact shape_mark_ne_parens _ _
    · exact shape_ne_parens_of_isTypePiece (declarator.2.isTypePiece_of_mem piece hpiece)

/-- Behind its modifiers the statement begins with the first word of the type. -/
theorem exists_pieces : ∃ rest, Piece.ofTrees field.trees =
    modifierPieces field.modifiers ++ field.type.name.word.piece :: rest := by
  have hfront := field.reads_front.isOpen.ofTrees_eq
  unfold trees
  cases field.value with
  | none => exact ⟨_, hfront⟩
  | some value =>
    have hpieces := Piece.ofTrees_append_mark field.reads_front.row value.gap (c := '=')
      (by decide) value.trees
    rw [hfront, List.append_assoc, List.cons_append] at hpieces
    exact ⟨_, hpieces⟩

/-- Fields are read as no method. -/
theorem ofTrees_eq : Head.ofTrees false field.trees = .other := by
  have hfront := field.reads_front.isOpen.ofTrees_eq
  have hword := Word.isNoHeadWord field.type.name.hword
  unfold trees
  cases field.value with
  | none => exact ofTrees_eq_other hfront hword field.shape_ne_parens rfl (by simp)
  | some value =>
    have hquestion := Piece.not_isSymbol_question field.reads_front.row
    have hpieces := Piece.ofTrees_append_mark field.reads_front.row value.gap (c := '=')
      (by decide) value.trees
    rw [hfront] at hquestion hpieces
    rw [List.append_assoc, List.cons_append] at hpieces
    have hcut := Head.cutAtParens?_eq_none field.shape_ne_parens
    have hnone : ∀ comment modifiers, Head.methodHead? false comment modifiers
        (field.type.name.word.piece :: (field.rest ++
          markPiece value.gap '=' :: Piece.ofTrees value.trees)) = none :=
      fun comment modifiers => Head.methodHead?_of_not_parens
        (fun piece hpiece => hquestion piece (List.mem_append_right _ hpiece)) hcut _
    dsimp only
    rw [ofTrees_of_isNoHeadWord hpieces hword, hnone]

/-- Fields that end at a semicolon are one statement. -/
theorem ofTrees_append (gap : List Lexeme) (rest : List Tree) :
    Statement.ofTrees (field.trees ++ .leaf (Token.mark gap ';') :: rest) =
      .plain field.trees :: Statement.ofTrees rest := by
  have hfront : ∀ tree ∈ field.frontTrees, StaysInHead tree :=
    field.reads_front.row.staysInHead (by decide)
  unfold trees
  cases field.value with
  | none => exact Canonical.ofTrees_plain hfront gap rest
  | some value =>
    have hvalue := value.row.not_isEnd (by decide)
    have hfield := Statement.ofTrees_field hfront hvalue value.gap gap rest
    simpa using hfield

theorem nests : Tree.Nests field.trees := by
  unfold trees
  cases field.value with
  | none => exact field.reads_front.row.nests
  | some value =>
    have hsign : Tree.Nests [.leaf (Token.mark value.gap '=')] := .leaf rfl rfl
    exact field.reads_front.row.nests.append (.cons hsign value.row.nests)

end FieldSyntax

end Grammar

end JavaSignatures.Source
