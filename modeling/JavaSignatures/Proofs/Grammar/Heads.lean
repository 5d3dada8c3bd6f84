import JavaSignatures.Proofs.Grammar.Parameters

set_option autoImplicit false

/-!
# Grammar: heads of methods and constructors

The head of a method or a constructor is read as what was written (`Callable.ofTrees_eq`,
`MethodSyntax.ofTrees_eq`).  Its modifiers end in front of the type variables, the result or the
name, and a method is told from a constructor by its result.  The text of the clause behind the
parameters is left open.
-/

namespace JavaSignatures.Source

open Canonical (wordPiece IsNoHeadWord StaysInHead)

namespace Head

theorem cutAtParens?_eq_none {row : List Piece}
    (h : ∀ piece ∈ row, ∀ inner, piece.shape ≠ .parens inner) : cutAtParens? row = none := by
  induction row with
  | nil => rfl
  | cons piece row ih =>
    obtain ⟨hpiece, hmore⟩ := List.forall_mem_cons.mp h
    obtain ⟨tokens, shape⟩ := piece
    cases shape with
    | parens inner => exact absurd rfl (hpiece inner)
    | _ => rw [cutAtParens?, ih hmore, Option.map_none]; simp

/-- A row is cut at the first parentheses. -/
theorem cutAtParens?_run {row : List Piece}
    (h : ∀ piece ∈ row, ∀ inner, piece.shape ≠ .parens inner) (tokens : List Token)
    (inner : List Tree) (rest : List Piece) :
    cutAtParens? (row ++ ⟨tokens, .parens inner⟩ :: rest) = some (row, inner, rest) := by
  rw [cutAtParens?_append, cutAtParens?_eq_none h]
  simp [cutAtParens?]

end Head

namespace Grammar

open Piece (Detached)

theorem Reads.ofTrees_append {trees : List Tree} {pieces : List Piece} (h : Reads trees pieces)
    (rest : List Tree) : Piece.ofTrees (trees ++ rest) = pieces ++ Piece.ofTrees rest := by
  obtain ⟨grouped, hgrouped, hjoins⟩ := h.joins
  simp only [Piece.ofTrees, Tree.groupAngles, hgrouped.groupFrom_append,
    Piece.ofTreesApart_eq_map, List.map_append]
  exact hjoins _

/-! ## What is around the name in a head -/

/-- A part of a head behind its name, such as `throws` with the types behind it. -/
structure Clause where
  word : Word
  rest : List Tree := []
  row : TreeRow .head rest := by exact TreeRow.nil _

/-- The trees of a clause. -/
def clauseTrees : Option Clause → List Tree
  | none => []
  | some clause => clause.word.tree :: clause.rest

/-- The pieces of a clause. -/
def clausePieces (clause : Option Clause) : List Piece := Piece.ofTrees (clauseTrees clause)

theorem clausePieces_eq (clause : Option Clause) :
    clausePieces clause =
      clause.toList.flatMap fun clause => clause.word.piece :: Piece.ofTrees clause.rest := by
  cases clause with
  | none => rfl
  | some clause =>
    have hpieces := clause.word.reads.ofTrees_append clause.rest
    rw [Option.toList_some, List.flatMap_singleton]
    exact hpieces

theorem treeRow_clauseTrees (clause : Option Clause) : TreeRow .head (clauseTrees clause) := by
  cases clause with
  | none => exact .nil _
  | some clause => exact .leaf (fun _ _ => rfl) clause.row

/-- No brackets stand in front of a clause. -/
theorem takeWhile_clausePieces (clause : Option Clause) :
    (clausePieces clause).takeWhile (fun piece => piece.isBrackets || piece.isAnnotation) = [] := by
  rw [clausePieces_eq]
  cases clause <;> rfl

/-- The type variables that a list in angle brackets introduces. -/
def variablesOf (enclosure : Enclosure .arguments) : List VariableExpr :=
  (Head.leadingVariables [enclosure.anglePiece]).1

/-- The type variables that a method introduces, and the annotations behind them. -/
structure Introduced where
  list : Enclosure .arguments
  annotations : List Annotation := []

/-- The trees of type variables. -/
def introducedTrees : Option Introduced → List Tree
  | none => []
  | some introduced => introduced.list.angles ++ annotationTrees introduced.annotations

/-- The annotations behind type variables. -/
def introducedAnnotations : Option Introduced → List Annotation
  | none => []
  | some introduced => introduced.annotations

/-- The pieces of type variables. -/
def introducedPieces : Option Introduced → List Piece
  | none => []
  | some introduced =>
    introduced.list.anglePiece :: annotationPieces introduced.annotations

/-- The type variables in front of a head. -/
def introducedVariables : Option Introduced → List VariableExpr
  | none => []
  | some introduced => variablesOf introduced.list

section Introduced

variable (introduced : Option Introduced)

theorem reads_introduced :
    ReadsOpen (introducedTrees introduced) (introducedPieces introduced) := by
  cases introduced with
  | none => exact Reads.nil.isOpen
  | some introduced =>
    exact introduced.list.reads_angles.append_isOpen
      (reads_annotations introduced.annotations)

theorem detached_introducedPieces : Detached (introducedPieces introduced) := by
  cases introduced with
  | none => exact Piece.detached_nil
  | some introduced => exact introduced.list.detached_angles _

/-- In front of a word the type variables are taken off, and their annotations are left. -/
theorem leadingVariables_introduced (word : Word) (rest : List Piece) :
    Head.leadingVariables (introducedPieces introduced ++ word.piece :: rest) =
      (introducedVariables introduced,
        annotationPieces (introducedAnnotations introduced) ++ word.piece :: rest) := by
  cases introduced <;> rfl

/-- The pieces behind the modifiers begin with no word that a reader of heads looks for. -/
theorem exists_first {word : Word} (hword : word.name ∉ noTypeWords) (rest : List Piece) :
    ∃ first more, introducedPieces introduced ++ word.piece :: rest = first :: more ∧
      IsNoHeadWord first ∧ ∀ keyword ∈ noTypeWords, first.isKeyword keyword = false := by
  cases introduced with
  | none => exact ⟨_, _, rfl, Word.isNoHeadWord hword, fun _ => Word.not_isKeyword hword⟩
  | some introduced =>
    exact ⟨_, _, rfl, ⟨rfl, fun h => absurd h Bool.false_ne_true⟩, fun _ _ => rfl⟩

end Introduced

/-! ## Heads behind modifiers -/

/-- The comment that documents a head: one among its modifiers, or the one right before it. -/
def commentOf (modifiers : List Modifier) (row : List Piece) : Option String :=
  Head.docComment (((modifierPieces modifiers ++ row).head?.map Piece.comments).getD [])
    (modifiersOf modifiers)

/-- A head is read from what follows its modifiers. -/
theorem ofTrees_of_pieces {trees : List Tree} {modifiers : List Modifier} {row : List Piece}
    (hpieces : Piece.ofTrees trees = modifierPieces modifiers ++ row)
    (hrow : ∀ piece ∈ row.head?, Modifiers.isModifier piece = false) (hasBlock : Bool) :
    Head.ofTrees hasBlock trees =
      match if hasBlock then
          Head.typeHead? (commentOf modifiers row) (modifiersOf modifiers) row
        else none with
      | some head => .type head
      | none =>
        match Head.methodHead? hasBlock (commentOf modifiers row) (modifiersOf modifiers) row with
        | some head => .method head
        | none => .other := by
  unfold Head.ofTrees
  dsimp only
  rw [hpieces, split_modifierPieces modifiers hrow]
  rfl

/-- A head that begins with no word of a type declaration is the head of a method, if it is one. -/
theorem ofTrees_of_isNoHeadWord {trees : List Tree} {modifiers : List Modifier} {first : Piece}
    {rest : List Piece}
    (hpieces : Piece.ofTrees trees = modifierPieces modifiers ++ first :: rest)
    (hfirst : IsNoHeadWord first) (hasBlock : Bool) :
    Head.ofTrees hasBlock trees =
      match Head.methodHead? hasBlock (commentOf modifiers (first :: rest)) (modifiersOf modifiers)
        (first :: rest) with
      | some head => .method head
      | none => .other := by
  have hrow : ∀ piece ∈ (first :: rest).head?, Modifiers.isModifier piece = false := by
    intro piece hpiece
    obtain rfl := Option.some.inj hpiece
    exact hfirst.not_isModifier
  rw [ofTrees_of_pieces hpieces hrow, Canonical.typeHead?_eq_none hfirst]
  cases hasBlock <;> rfl

/-! ## Methods -/

/-- The head of a method. -/
structure MethodSyntax where
  modifiers : List Modifier := []
  introduced : Option Introduced := none
  result : TypeSyntax
  name : Word
  parameters : Parameters := {}
  /-- brackets behind the parameters belong to the result -/
  dimensions : List Dimension := []
  clause : Option Clause := none

namespace MethodSyntax

variable (method : MethodSyntax)

/-- The trees of the head of a method up to its clause. -/
def frontTrees : List Tree :=
  modifierTrees method.modifiers ++ (introducedTrees method.introduced ++ (method.result.trees ++
    ([method.name.tree] ++ ([method.parameters.enclosure.group ('(', ')')] ++
      dimensionTrees method.dimensions))))

/-- The trees of the head of a method. -/
def trees : List Tree := method.frontTrees ++ clauseTrees method.clause

/-- The pieces of the head of a method behind its modifiers, up to its clause. -/
def frontRow : List Piece :=
  introducedPieces method.introduced ++ (method.result.pieces ++ ([method.name.piece] ++
    ([method.parameters.enclosure.parensPiece] ++ dimensionPieces method.dimensions)))

/-- The pieces of the head of a method behind its modifiers. -/
def row : List Piece := method.frontRow ++ clausePieces method.clause

/-- What the head of a method is read as. -/
def expr : MethodHead where
  name := some method.name.name
  result := method.result.expr.withDimensions method.dimensions.length
  typeVariables := introducedVariables method.introduced
  parameters := method.parameters.list.filterMap ParameterSyntax.expr?
  visibility := (modifiersOf method.modifiers).visibility
  comment := commentOf method.modifiers method.row

theorem reads_front :
    Reads method.frontTrees (modifierPieces method.modifiers ++ method.frontRow) := by
  have hbehind := method.name.reads.append (method.parameters.enclosure.reads_parens.append
    (reads_dimensions method.dimensions))
  have hresult := method.result.reads.append hbehind
  have hrow : Reads _ method.frontRow :=
    (reads_introduced method.introduced).append hresult (method.result.name.word.detached _)
      (List.cons_ne_nil _ _)
  have hdetached : Detached method.frontRow :=
    (detached_introducedPieces method.introduced).append (method.result.name.word.detached _)
  have hne : method.frontRow ≠ [] := by simp [frontRow]
  exact (reads_modifiers method.modifiers).append hrow hdetached hne

theorem ofTrees_trees :
    Piece.ofTrees method.trees = modifierPieces method.modifiers ++ method.row := by
  rw [trees, method.reads_front.ofTrees_append, row, List.append_assoc]
  rfl

theorem staysInHead : ∀ tree ∈ method.trees, StaysInHead tree :=
  List.forall_mem_append.mpr ⟨method.reads_front.row.staysInHead (by decide),
    (treeRow_clauseTrees method.clause).staysInHead fun _ hc => hc⟩

theorem nests : Tree.Nests method.trees :=
  method.reads_front.row.nests.append (treeRow_clauseTrees method.clause).nests

/-- The pieces up to the parentheses hold none. -/
theorem shape_ne_parens : ∀ piece ∈ annotationPieces (introducedAnnotations method.introduced) ++
    (method.result.pieces ++ [method.name.piece]), ∀ inner, piece.shape ≠ .parens inner := by
  rw [List.forall_mem_append, List.forall_mem_append, List.forall_mem_singleton]
  refine ⟨fun piece hpiece => ?_, fun piece hpiece => ?_, fun inner h => ?_⟩
  · exact shape_ne_parens_of_isTypePiece
      (isTypePiece_of_isAnnotation_eq_true (isAnnotation_of_mem piece hpiece))
  · exact shape_ne_parens_of_isTypePiece (method.result.isTypePiece_of_mem piece hpiece)
  · exact absurd h (by simp [Word.piece, wordPiece])

/-- The pieces behind the first word of the result. -/
def behindFirst : List Piece :=
  method.result.name.morePieces ++ dimensionPieces method.result.dimensions ++
    ([method.name.piece] ++ ([method.parameters.enclosure.parensPiece] ++
      (dimensionPieces method.dimensions ++ clausePieces method.clause)))

theorem row_eq : method.row = introducedPieces method.introduced ++
    method.result.name.word.piece :: method.behindFirst := by
  simp [row, frontRow, behindFirst, TypeSyntax.pieces, TypeName.pieces]

/-- The pieces behind the type variables: the result with the name, the parameters, and what is
behind them. -/
theorem annotations_append_eq : annotationPieces (introducedAnnotations method.introduced) ++
    method.result.name.word.piece :: method.behindFirst =
      annotationPieces (introducedAnnotations method.introduced) ++
        (method.result.pieces ++ [method.name.piece]) ++
          ⟨Tree.tokens (method.parameters.enclosure.group ('(', ')')),
            .parens method.parameters.inner⟩ ::
              (dimensionPieces method.dimensions ++ clausePieces method.clause) := by
  have hparens : method.parameters.enclosure.parensPiece =
      ⟨Tree.tokens (method.parameters.enclosure.group ('(', ')')),
        .parens method.parameters.inner⟩ := rfl
  rw [behindFirst, hparens]
  simp [TypeSyntax.pieces, TypeName.pieces]

/-- The row behind the modifiers is read as the head of the method. -/
theorem methodHead?_row (hasBlock : Bool) (comment : Option String) (modifiers : Modifiers) :
    Head.methodHead? hasBlock comment modifiers method.row =
      some { method.expr with visibility := modifiers.visibility, comment := comment } := by
  have hbehind : (dimensionPieces method.dimensions ++ clausePieces method.clause).takeWhile
      (fun piece => piece.isBrackets || piece.isAnnotation) =
        dimensionPieces method.dimensions := by
    rw [List.takeWhile_append_of_pos (of_mem_dimensionPieces _), takeWhile_clausePieces,
      List.append_nil]
  have htype : TypeExpr.ofPieces? (annotationPieces (introducedAnnotations method.introduced) ++
      method.result.pieces) = some method.result.expr := by
    have hresult : TypeExpr.ofPieces?
        (annotationPieces (introducedAnnotations method.introduced) ++
          (method.result.pieces ++ [])) = some method.result.expr :=
      method.result.ofPieces?_eq isAnnotation_of_mem (by simp)
    rwa [List.append_nil] at hresult
  have hword : method.name.piece.isWord = true := rfl
  have hne : (annotationPieces (introducedAnnotations method.introduced) ++
      method.result.pieces).isEmpty = false := by
    simp [TypeSyntax.pieces, TypeName.pieces]
  unfold Head.methodHead?
  rw [method.row_eq, leadingVariables_introduced, method.annotations_append_eq]
  dsimp only
  rw [Head.cutAtParens?_run method.shape_ne_parens]
  dsimp only
  rw [← List.append_assoc, List.getLast?_concat, List.dropLast_concat]
  dsimp only
  rw [hword, hne, htype, hbehind, countP_dimensionPieces, method.parameters.listOfTrees_eq,
    Word.text_piece]
  rfl

/-- The head of a method is read as what was written. -/
theorem ofTrees_eq (hasBlock : Bool) :
    Head.ofTrees hasBlock method.trees = .method method.expr := by
  obtain ⟨first, more, hfirst, hword, -⟩ := exists_first method.introduced
    method.result.name.hword method.behindFirst
  rw [← method.row_eq] at hfirst
  have hpieces := method.ofTrees_trees
  rw [hfirst] at hpieces
  rw [ofTrees_of_isNoHeadWord hpieces hword, ← hfirst, method.methodHead?_row]
  rfl

end MethodSyntax

/-! ## Constructors -/

/-- The head of a constructor. -/
structure ConstructorSyntax where
  modifiers : List Modifier := []
  typeVariables : Option (Enclosure .arguments) := none
  name : Word
  parameters : Parameters := {}
  clause : Option Clause := none
  hname : name.name ∉ noTypeWords

/-- The head of the constructor of a record that leaves its parameters out. -/
structure CompactSyntax where
  modifiers : List Modifier := []
  name : Word
  hname : name.name ∉ noTypeWords

namespace ConstructorSyntax

variable (head : ConstructorSyntax)

/-- The type variables as those of a method. -/
def introduced : Option Introduced := head.typeVariables.map fun list => ⟨list, []⟩

/-- The trees of the head of a constructor up to its clause. -/
def frontTrees : List Tree :=
  modifierTrees head.modifiers ++ (argumentTrees head.typeVariables ++
    ([head.name.tree] ++ [head.parameters.enclosure.group ('(', ')')]))

/-- The trees of the head of a constructor. -/
def trees : List Tree := head.frontTrees ++ clauseTrees head.clause

/-- The pieces of the head of a constructor behind its modifiers. -/
def row : List Piece :=
  introducedPieces head.introduced ++
    head.name.piece :: head.parameters.enclosure.parensPiece :: clausePieces head.clause

/-- What the head of a constructor is read as. -/
def expr : MethodHead where
  name := none
  result := .verbatim ""
  typeVariables := introducedVariables head.introduced
  parameters := head.parameters.list.filterMap ParameterSyntax.expr?
  visibility := (modifiersOf head.modifiers).visibility
  comment := commentOf head.modifiers head.row

theorem reads_front : Reads head.frontTrees (modifierPieces head.modifiers ++
    (introducedPieces head.introduced ++
      [head.name.piece, head.parameters.enclosure.parensPiece])) := by
  have hname := head.name.reads.append head.parameters.enclosure.reads_parens
  have hrow := (reads_arguments head.typeVariables).append hname
  have hintroduced : argumentPieces head.typeVariables = introducedPieces head.introduced := by
    unfold introduced
    cases head.typeVariables <;> rfl
  rw [hintroduced] at hrow
  have hdetached : Detached (introducedPieces head.introduced ++
      [head.name.piece, head.parameters.enclosure.parensPiece]) :=
    (detached_introducedPieces head.introduced).append (head.name.detached _)
  exact (reads_modifiers head.modifiers).append hrow hdetached (by simp)

theorem ofTrees_trees :
    Piece.ofTrees head.trees = modifierPieces head.modifiers ++ head.row := by
  rw [trees, head.reads_front.ofTrees_append, row, clausePieces]
  simp

theorem staysInHead : ∀ tree ∈ head.trees, StaysInHead tree :=
  List.forall_mem_append.mpr ⟨head.reads_front.row.staysInHead (by decide),
    (treeRow_clauseTrees head.clause).staysInHead fun _ hc => hc⟩

theorem nests : Tree.Nests head.trees :=
  head.reads_front.row.nests.append (treeRow_clauseTrees head.clause).nests

/-- The row behind the modifiers is read as the head of the constructor. -/
theorem methodHead?_row (comment : Option String) (modifiers : Modifiers) :
    Head.methodHead? true comment modifiers head.row =
      some { head.expr with visibility := modifiers.visibility, comment := comment } := by
  have hnotes : annotationPieces (introducedAnnotations head.introduced) = [] := by
    unfold introduced
    cases head.typeVariables <;> rfl
  have hparens : head.parameters.enclosure.parensPiece =
      ⟨Tree.tokens (head.parameters.enclosure.group ('(', ')')),
        .parens head.parameters.inner⟩ := rfl
  have hname : ∀ piece ∈ [head.name.piece], ∀ inner, piece.shape ≠ .parens inner := by
    rw [List.forall_mem_singleton]
    exact fun inner h => absurd h (by simp [Word.piece, wordPiece])
  have hcut := Head.cutAtParens?_run hname
    (Tree.tokens (head.parameters.enclosure.group ('(', ')'))) head.parameters.inner
    (clausePieces head.clause)
  rw [List.singleton_append] at hcut
  have hword : head.name.piece.isWord = true := rfl
  unfold Head.methodHead?
  rw [row, leadingVariables_introduced, hnotes, List.nil_append, hparens]
  dsimp only
  rw [hcut]
  dsimp only [List.getLast?_singleton, List.dropLast_singleton]
  rw [hword, head.parameters.listOfTrees_eq]
  rfl

/-- The head of a constructor is read as what was written. -/
theorem ofTrees_eq : Head.ofTrees true head.trees = .method head.expr := by
  obtain ⟨first, more, hfirst, hword, -⟩ := exists_first head.introduced head.hname
    (head.parameters.enclosure.parensPiece :: clausePieces head.clause)
  rw [← row] at hfirst
  have hpieces := head.ofTrees_trees
  rw [hfirst] at hpieces
  rw [ofTrees_of_isNoHeadWord hpieces hword, ← hfirst, head.methodHead?_row]
  rfl

end ConstructorSyntax

namespace CompactSyntax

variable (head : CompactSyntax)

/-- The trees of the head. -/
def trees : List Tree := modifierTrees head.modifiers ++ [head.name.tree]

/-- What the head is read as. -/
def expr : MethodHead where
  name := none
  result := .verbatim ""
  visibility := (modifiersOf head.modifiers).visibility
  comment := commentOf head.modifiers [head.name.piece]

theorem reads : Reads head.trees (modifierPieces head.modifiers ++ [head.name.piece]) :=
  reads_modifiers_append _ head.name.reads rfl

/-- The head of a constructor without parameters is read as what was written. -/
theorem ofTrees_eq : Head.ofTrees true head.trees = .method head.expr := by
  rw [ofTrees_of_isNoHeadWord head.reads.isOpen.ofTrees_eq (Word.isNoHeadWord head.hname)]
  rfl

theorem staysInHead : ∀ tree ∈ head.trees, StaysInHead tree :=
  head.reads.row.staysInHead (by decide)

theorem nests : Tree.Nests head.trees := head.reads.row.nests

end CompactSyntax

/-- The head of a method or a constructor with a body. -/
inductive Callable where
  | method (head : MethodSyntax)
  | constructor (head : ConstructorSyntax)
  | compact (head : CompactSyntax)

namespace Callable

/-- The trees of the head. -/
def trees : Callable → List Tree
  | .method head => head.trees
  | .constructor head => head.trees
  | .compact head => head.trees

/-- What the head is read as. -/
def expr : Callable → MethodHead
  | .method head => head.expr
  | .constructor head => head.expr
  | .compact head => head.expr

variable (head : Callable)

theorem staysInHead : ∀ tree ∈ head.trees, StaysInHead tree := by
  cases head with
  | method head => exact head.staysInHead
  | constructor head => exact head.staysInHead
  | compact head => exact head.staysInHead

theorem nests : Tree.Nests head.trees := by
  cases head with
  | method head => exact head.nests
  | constructor head => exact head.nests
  | compact head => exact head.nests

/-- The head of a method or a constructor with a body is read as what was written. -/
theorem ofTrees_eq : Head.ofTrees true head.trees = .method head.expr := by
  cases head with
  | method head => exact head.ofTrees_eq true
  | constructor head => exact head.ofTrees_eq
  | compact head => exact head.ofTrees_eq

end Callable

end Grammar

end JavaSignatures.Source
