import JavaSignatures.Proofs.Bodies.Annotations

set_option autoImplicit false

/-!
# Grammar: parts of heads

A head is put together from small parts: words, annotations, brackets, lists in angle brackets and
parentheses, each with any white space and comments in front of its tokens.  `Reads` says which
pieces the trees of a part become, whatever stands behind them.  A part that can end with an
annotation is open (`ReadsOpen`): behind it must stand something that does not go on with the
annotation, as a period or parentheses would (`Piece.Detached`).  So the pieces of a head are those
of its parts one after the other.
-/

namespace JavaSignatures.Source

open Canonical (wordPiece markPiece ellipsisPiece isSymbol_markPiece)

/-! ## Pieces behind annotations -/

namespace Piece

/-- The piece could belong to an annotation in front of it. -/
def continues (piece : Piece) : Bool := piece.shape matches .parens _ || piece.isSymbol "."

/-- The row does not go on with an annotation in front of it. -/
def Detached (row : List Piece) : Prop := ∀ piece ∈ row.head?, piece.continues = false

theorem detached_nil : Detached [] := by simp [Detached]

theorem detached_cons {piece : Piece} (h : piece.continues = false) (rest : List Piece) :
    Detached (piece :: rest) := by
  rintro other hother
  obtain rfl := Option.some.inj hother
  exact h

theorem Detached.append {row rest : List Piece} (h : Detached row) (hrest : Detached rest) :
    Detached (row ++ rest) := by
  cases row with
  | nil => exact hrest
  | cons piece row => exact detached_cons (h piece rfl) _

theorem continues_of_isSymbol_at {piece : Piece} (h : piece.isSymbol "@" = true) :
    piece.continues = false := by
  have hshape := shape_of_isSymbol h
  have hperiod : piece.isSymbol "." = false := by
    unfold isSymbol at h ⊢
    rw [Bool.and_eq_true, beq_iff_eq] at h
    rw [h.2]
    simp
  rw [continues, hshape, hperiod]
  rfl

/-- Putting annotations together leaves a piece in front that no annotation goes on with. -/
theorem detached_joinAnnotations {row : List Piece} (h : Detached row) :
    Detached (joinAnnotations row) := by
  cases row with
  | nil => exact detached_nil
  | cons piece row =>
    rw [joinAnnotations_cons]
    split
    · next hmark =>
      have hpiece := continues_of_isSymbol_at hmark
      unfold joinMark
      split
      · exact detached_cons hpiece _
      · split
        · exact detached_cons rfl _
        · exact detached_cons hpiece _
    · exact detached_cons (h piece rfl) _

theorem detached_of_joinAnnotations {row : List Piece} (h : Detached (joinAnnotations row)) :
    Detached row := by
  cases row with
  | nil => exact detached_nil
  | cons piece row =>
    by_cases hmark : piece.isSymbol "@" = true
    · exact detached_cons (continues_of_isSymbol_at hmark) _
    · rw [joinAnnotations_cons, if_neg hmark] at h
      exact detached_cons (h piece rfl) _

/-- An annotation ends in front of a detached row. -/
theorem Detached.annotationTail {row : List Piece} (h : Detached row) :
    annotationTail row = ([], row) := by
  cases row with
  | nil => rfl
  | cons piece row =>
    have hpiece := h piece rfl
    rw [continues, Bool.or_eq_false_iff] at hpiece
    obtain ⟨hparens, hperiod⟩ := hpiece
    obtain ⟨tokens, shape⟩ := piece
    cases shape with
    | parens inner => exact absurd hparens (by simp)
    | _ => cases row <;> simp [Piece.annotationTail, hperiod]

theorem annotationTail_periodRow_append {row rest : List Piece} (hrow : isPeriodRow row = true)
    (hrest : Detached rest) : annotationTail (row ++ rest) = (row.flatMap Piece.tokens, rest) := by
  fun_induction isPeriodRow row with
  | case1 => exact hrest.annotationTail
  | case2 => exact absurd hrow (by simp)
  | case3 period word row ih =>
    rw [Bool.and_eq_true, Bool.and_eq_true] at hrow
    obtain ⟨⟨hperiod, hword⟩, hmore⟩ := hrow
    have hshape := shape_of_isSymbol hperiod
    simp [annotationTail, hshape, hperiod, hword, ih hmore]

/-- In front of a detached row an annotation without arguments is one piece. -/
theorem joinAnnotations_name {mark : Piece} (hmark : mark.isSymbol "@" = true)
    {name : List Piece} (hname : isAnnotationName name = true) {rest : List Piece}
    (hrest : Detached rest) :
    joinAnnotations (mark :: (name ++ rest)) =
      ⟨mark.tokens ++ name.flatMap Piece.tokens, .annotationMark⟩ :: joinAnnotations rest := by
  cases name with
  | nil => exact absurd hname (by simp [isAnnotationName])
  | cons first more =>
    rw [isAnnotationName, Bool.and_eq_true] at hname
    obtain ⟨hfirst, hmore⟩ := hname
    have hword : first.isWord = true := (Bool.and_eq_true_iff.mp hfirst).1
    have hnone : ∀ piece ∈ first :: more, piece.isSymbol "@" = false :=
      List.forall_mem_cons.mpr ⟨not_isSymbol_of_isWord hword _, not_isSymbol_of_isPeriodRow hmore⟩
    rw [joinAnnotations_cons, if_pos hmark, joinAnnotations_append_of_not_isSymbol hnone,
      List.cons_append, joinMark, if_pos hfirst,
      annotationTail_periodRow_append hmore (detached_joinAnnotations hrest)]
    simp

/-- The row is put together to the pieces, whatever is behind it. -/
def Joins (row pieces : List Piece) : Prop :=
  ∀ rest, joinAnnotations (row ++ rest) = pieces ++ joinAnnotations rest

/-- The row is put together to the pieces, whatever detached row is behind it. -/
def JoinsOpen (row pieces : List Piece) : Prop :=
  ∀ rest, Detached rest → joinAnnotations (row ++ rest) = pieces ++ joinAnnotations rest

section Joins

variable {row more pieces others : List Piece}

theorem Joins.isOpen (h : Joins row pieces) : JoinsOpen row pieces := fun rest _ => h rest

theorem JoinsOpen.joinAnnotations (h : JoinsOpen row pieces) : joinAnnotations row = pieces := by
  have hrow := h [] detached_nil
  rw [List.append_nil] at hrow
  rw [hrow]
  exact List.append_nil pieces

theorem JoinsOpen.detached (h : JoinsOpen row pieces) (hpieces : Detached pieces) :
    Detached row := by
  rw [← h.joinAnnotations] at hpieces
  exact detached_of_joinAnnotations hpieces

theorem Joins.append (h : Joins row pieces) (hmore : Joins more others) :
    Joins (row ++ more) (pieces ++ others) := by
  intro rest
  rw [List.append_assoc, h, hmore, List.append_assoc]

theorem Joins.append_isOpen (h : Joins row pieces) (hmore : JoinsOpen more others) :
    JoinsOpen (row ++ more) (pieces ++ others) := by
  intro rest hrest
  rw [List.append_assoc, h, hmore rest hrest, List.append_assoc]

theorem JoinsOpen.append_isOpen (h : JoinsOpen row pieces) (hmore : JoinsOpen more others)
    (hothers : Detached others) : JoinsOpen (row ++ more) (pieces ++ others) := by
  intro rest hrest
  rw [List.append_assoc, h _ ((hmore.detached hothers).append hrest), hmore rest hrest,
    List.append_assoc]

/-- A detached part that is not empty closes an open one. -/
theorem JoinsOpen.append (h : JoinsOpen row pieces) (hmore : Joins more others)
    (hothers : Detached others) (hne : more ≠ []) : Joins (row ++ more) (pieces ++ others) := by
  intro rest
  have hdetached := hmore.isOpen.detached hothers
  obtain ⟨first, behind, rfl⟩ := List.exists_cons_of_ne_nil hne
  have hrest : Detached (first :: behind ++ rest) := detached_cons (hdetached first rfl) _
  rw [List.append_assoc, h _ hrest, hmore, List.append_assoc]

/-- A piece that begins no annotation is put together with nothing. -/
theorem joins_singleton {piece : Piece} (h : piece.isSymbol "@" = false) :
    Joins [piece] [piece] := by
  intro rest
  rw [List.singleton_append, joinAnnotations_cons, h, if_neg Bool.false_ne_true]
  rfl

end Joins

end Piece

/-! ## Trees and their pieces -/

namespace Grammar

open JavaSignatures.Source.Tree (Regroups)
open Piece (Joins JoinsOpen Detached)

/-- The trees are a part of a head, and they are read as the pieces, whatever is behind them. -/
structure Reads (trees : List Tree) (pieces : List Piece) : Prop where
  row : TreeRow .fieldHead trees
  joins : ∃ grouped, Regroups Brackets.angles trees grouped ∧
    Joins (grouped.map Piece.ofTree) pieces

/-- The trees are a part of a head, and they are read as the pieces in front of what does not go on
with an annotation. -/
structure ReadsOpen (trees : List Tree) (pieces : List Piece) : Prop where
  row : TreeRow .fieldHead trees
  joins : ∃ grouped, Regroups Brackets.angles trees grouped ∧
    JoinsOpen (grouped.map Piece.ofTree) pieces

section Append

variable {trees more : List Tree} {pieces others : List Piece}

namespace Reads

theorem isOpen (h : Reads trees pieces) : ReadsOpen trees pieces := by
  obtain ⟨grouped, hgrouped, hjoins⟩ := h.joins
  exact ⟨h.row, grouped, hgrouped, hjoins.isOpen⟩

theorem nil : Reads [] [] where
  row := .nil _
  joins := ⟨[], .nil _, fun _ => rfl⟩

/-- Parts one after the other are read as their pieces one after the other. -/
theorem append (h : Reads trees pieces) (hmore : Reads more others) :
    Reads (trees ++ more) (pieces ++ others) := by
  obtain ⟨grouped, hgrouped, hjoins⟩ := h.joins
  obtain ⟨grouped', hgrouped', hjoins'⟩ := hmore.joins
  refine ⟨h.row.append hmore.row, grouped ++ grouped', hgrouped.append hgrouped', ?_⟩
  rw [List.map_append]
  exact hjoins.append hjoins'

theorem append_isOpen (h : Reads trees pieces) (hmore : ReadsOpen more others) :
    ReadsOpen (trees ++ more) (pieces ++ others) := by
  obtain ⟨grouped, hgrouped, hjoins⟩ := h.joins
  obtain ⟨grouped', hgrouped', hjoins'⟩ := hmore.joins
  refine ⟨h.row.append hmore.row, grouped ++ grouped', hgrouped.append hgrouped', ?_⟩
  rw [List.map_append]
  exact hjoins.append_isOpen hjoins'

theorem flatMap {α : Type} {items : List α} {treesOf : α → List Tree} {piecesOf : α → List Piece}
    (h : ∀ item ∈ items, Reads (treesOf item) (piecesOf item)) :
    Reads (items.flatMap treesOf) (items.flatMap piecesOf) := by
  induction items with
  | nil => exact .nil
  | cons item items ih =>
    obtain ⟨hitem, hmore⟩ := List.forall_mem_cons.mp h
    rw [List.flatMap_cons, List.flatMap_cons]
    exact hitem.append (ih hmore)

/-- A tree that is one piece by itself. -/
theorem single {tree : Tree} (hrow : TreeRow .fieldHead [tree])
    (hgroups : Regroups Brackets.angles [tree] [tree])
    (hpiece : (Piece.ofTree tree).isSymbol "@" = false) : Reads [tree] [Piece.ofTree tree] where
  row := hrow
  joins := ⟨[tree], hgroups, Piece.joins_singleton hpiece⟩

end Reads

namespace ReadsOpen

theorem append_isOpen (h : ReadsOpen trees pieces) (hmore : ReadsOpen more others)
    (hothers : Detached others) : ReadsOpen (trees ++ more) (pieces ++ others) := by
  obtain ⟨grouped, hgrouped, hjoins⟩ := h.joins
  obtain ⟨grouped', hgrouped', hjoins'⟩ := hmore.joins
  refine ⟨h.row.append hmore.row, grouped ++ grouped', hgrouped.append hgrouped', ?_⟩
  rw [List.map_append]
  exact hjoins.append_isOpen hjoins' hothers

/-- A detached part that is not empty closes an open one. -/
theorem append (h : ReadsOpen trees pieces) (hmore : Reads more others)
    (hothers : Detached others) (hne : others ≠ []) :
    Reads (trees ++ more) (pieces ++ others) := by
  obtain ⟨grouped, hgrouped, hjoins⟩ := h.joins
  obtain ⟨grouped', hgrouped', hjoins'⟩ := hmore.joins
  refine ⟨h.row.append hmore.row, grouped ++ grouped', hgrouped.append hgrouped', ?_⟩
  rw [List.map_append]
  refine hjoins.append hjoins' hothers fun hnil => hne ?_
  have hpieces := hjoins'.isOpen.joinAnnotations
  rw [hnil] at hpieces
  exact hpieces.symm

/-- What a part is read as does not depend on what is behind it. -/
theorem ofTrees_append (h : ReadsOpen trees pieces) {rest : List Tree}
    (hrest : Detached (Piece.apart rest)) :
    Piece.ofTrees (trees ++ rest) = pieces ++ Piece.ofTrees rest := by
  obtain ⟨grouped, hgrouped, hjoins⟩ := h.joins
  rw [Piece.apart, Piece.ofTreesApart_eq_map] at hrest
  simp only [Piece.ofTrees, Tree.groupAngles, hgrouped.groupFrom_append,
    Piece.ofTreesApart_eq_map, List.map_append]
  exact hjoins _ hrest

theorem ofTrees_eq (h : ReadsOpen trees pieces) : Piece.ofTrees trees = pieces := by
  have hall : Piece.ofTrees (trees ++ []) = pieces ++ Piece.ofTrees [] :=
    h.ofTrees_append Piece.detached_nil
  rw [List.append_nil] at hall
  rw [hall]
  exact List.append_nil pieces

end ReadsOpen

end Append

/-! ## Words and marks -/

/-- A word with what stands in front of it. -/
structure Word where
  gap : List Lexeme := []
  text : List Char
  deriving DecidableEq, Repr

namespace Word

variable (word : Word)

/-- A word behind a space. -/
def spaced (text : String) : Word := ⟨[Lexeme.space], text.toList⟩

/-- The word as a token. -/
def token : Token := Token.word word.gap word.text

/-- The word as a tree. -/
def tree : Tree := .leaf word.token

/-- The word as a piece. -/
def piece : Piece := wordPiece word.gap word.text

/-- The text of the word. -/
def name : String := String.ofList word.text

theorem text_piece : word.piece.text = word.name := Canonical.text_wordPiece _ _

theorem reads : Reads [word.tree] [word.piece] :=
  .single (.leaf (fun _ _ => rfl) (.nil _)) (.leaf rfl rfl) rfl

/-- A word does not go on with an annotation. -/
theorem detached (rest : List Piece) : Detached (word.piece :: rest) :=
  Piece.detached_cons rfl rest

end Word

/-- A mark in a head that stands for itself. -/
theorem reads_mark (gap : List Lexeme) {c : Char} (hc : c = '.' ∨ c = ',' ∨ c = '&') :
    Reads [.leaf (Token.mark gap c)] [markPiece gap c] := by
  have hrow : TreeRow .fieldHead [.leaf (Token.mark gap c)] := by
    refine .leaf (fun d hd => ?_) (.nil _)
    rw [Token.isSymbol_mark]
    rcases hc with rfl | rfl | rfl <;> revert d <;> decide
  refine .single hrow ?_ ?_
  · rcases hc with rfl | rfl | rfl <;> exact .leaf rfl rfl
  · rw [Canonical.ofTree_mark, isSymbol_markPiece]
    rcases hc with rfl | rfl | rfl <;> decide

theorem reads_ellipsis (gap : List Lexeme) :
    Reads [.leaf (Token.ellipsis gap)] [ellipsisPiece gap] := by
  have hrow : TreeRow .fieldHead [.leaf (Token.ellipsis gap)] :=
    .leaf (fun c _ => Token.isSymbol_ellipsis gap c) (.nil _)
  have hpiece : (ellipsisPiece gap).isSymbol "@" = false := by
    rw [Canonical.isSymbol_ellipsisPiece]
    decide
  exact .single hrow (.leaf rfl rfl) hpiece

/-! ## Brackets -/

/-- Text between brackets, with what stands in front of them. -/
structure Enclosure (place : Position) where
  before : List Lexeme := []
  inner : List Tree := []
  behind : List Lexeme := []
  row : TreeRow place inner := by exact TreeRow.nil _

namespace Enclosure

/-- The text in a pair of brackets of the kind that group a whole text. -/
def group (enclosure : Enclosure .inside) (pair : Char × Char) : Tree :=
  .group (Token.mark enclosure.before pair.1) enclosure.inner
    (some (Token.mark enclosure.behind pair.2))

/-- The text in angle brackets, which are tokens like others. -/
def angles (enclosure : Enclosure .arguments) : List Tree :=
  .leaf (Token.mark enclosure.before '<') ::
    (enclosure.inner ++ [.leaf (Token.mark enclosure.behind '>')])

/-- The piece that the text in angle brackets is. -/
def anglePiece (enclosure : Enclosure .arguments) : Piece :=
  Piece.ofTree (.group (Token.mark enclosure.before '<') (Tree.groupAngles enclosure.inner)
    (some (Token.mark enclosure.behind '>')))

/-- The piece that the text in parentheses is. -/
def parensPiece (enclosure : Enclosure .inside) : Piece := Piece.ofTree (enclosure.group ('(', ')'))

theorem reads_parens (enclosure : Enclosure .inside) :
    Reads [enclosure.group ('(', ')')] [enclosure.parensPiece] := by
  have hpair : ('(', ')') ∈ Brackets.nesting := by decide
  exact .single (.group _ _ hpair (by decide) enclosure.row (.nil _)) (.group _ _ _ _) rfl

theorem reads_angles (enclosure : Enclosure .arguments) :
    Reads enclosure.angles [enclosure.anglePiece] := by
  obtain ⟨grouped, hgrouped, -⟩ := enclosure.row.regroups rfl
  have hinner : Tree.groupAngles enclosure.inner = grouped := hgrouped.groupFrom_eq
  refine ⟨.angles _ _ rfl enclosure.row (.nil _), _, .enclosed ('<', '>') rfl rfl rfl hgrouped, ?_⟩
  rw [← hinner]
  exact Piece.joins_singleton rfl

/-- A list in angle brackets does not go on with an annotation. -/
theorem detached_angles (enclosure : Enclosure .arguments) (rest : List Piece) :
    Detached (enclosure.anglePiece :: rest) :=
  Piece.detached_cons rfl rest

end Enclosure

/-! ## Names and annotations -/

/-- A name, simple or dotted; each further word has a gap in front of its period. -/
structure Name where
  first : Word
  more : List (List Lexeme × Word) := []

namespace Name

/-- The tokens of a name. -/
def tokens (name : Name) : List Token :=
  name.first.token :: name.more.flatMap fun (gap, word) => [Token.mark gap '.', word.token]

/-- The trees of a name. -/
def trees (name : Name) : List Tree := name.tokens.map .leaf

/-- The pieces of a name behind its first word. -/
def morePieces (name : Name) : List Piece :=
  name.more.flatMap fun (gap, word) => [markPiece gap '.', word.piece]

/-- The pieces of a name. -/
def pieces (name : Name) : List Piece := name.first.piece :: name.morePieces

variable (name : Name)

theorem tokens_pieces : name.pieces.flatMap Piece.tokens = name.tokens := by
  rw [pieces, tokens, morePieces, List.flatMap_cons, List.flatMap_assoc]
  rfl

theorem map_ofTree_trees : name.trees.map Piece.ofTree = name.pieces := by
  rw [trees, tokens, pieces, morePieces, List.map_cons, List.map_cons, List.map_flatMap,
    List.map_flatMap]
  rfl

theorem isPeriodRow_morePieces : Piece.isPeriodRow name.morePieces = true := by
  unfold morePieces
  induction name.more with
  | nil => rfl
  | cons part more ih =>
    have hperiod : (markPiece part.1 '.').isSymbol "." = true := by
      rw [isSymbol_markPiece]
      decide
    rw [List.flatMap_cons]
    exact Bool.and_eq_true_iff.mpr ⟨Bool.and_eq_true_iff.mpr ⟨hperiod, rfl⟩, ih⟩

/-- What is in a name is no bracket. -/
theorem isPlain_of_mem_tokens : ∀ token ∈ name.tokens, token.IsPlain := by
  rw [tokens, List.forall_mem_cons]
  refine ⟨.word _ _, fun token htoken => ?_⟩
  obtain ⟨part, -, hpart⟩ := List.mem_flatMap.mp htoken
  rcases List.mem_cons.mp hpart with rfl | hword
  · exact .mark _ (Or.inl rfl)
  · obtain rfl := List.mem_singleton.mp hword
    exact .word _ _

end Name

/-- A row of tokens without brackets is a part of a head. -/
theorem treeRow_of_isPlain {tokens : List Token} (h : ∀ token ∈ tokens, token.IsPlain) :
    TreeRow .fieldHead (tokens.map .leaf) := by
  have hmarks : ∀ c ∈ bracketMarks ++ Position.fieldHead.barred,
      ¬(c = '.' ∨ c = ',' ∨ c = '&') := by decide
  induction tokens with
  | nil => exact .nil _
  | cons token tokens ih =>
    obtain ⟨htoken, hmore⟩ := List.forall_mem_cons.mp h
    exact .leaf (fun c hc => htoken.not_isSymbol (hmarks c hc)) (ih hmore)

theorem regroups_of_isPlain {tokens : List Token} (h : ∀ token ∈ tokens, token.IsPlain) :
    Regroups Brackets.angles (tokens.map .leaf) (tokens.map .leaf) := by
  induction tokens with
  | nil => exact .nil _
  | cons token tokens ih =>
    obtain ⟨htoken, hmore⟩ := List.forall_mem_cons.mp h
    exact Regroups.append (.leaf htoken.opened?_angles htoken.closed?_angles) (ih hmore)

theorem Name.reads (name : Name) : Reads name.trees name.pieces := by
  refine ⟨treeRow_of_isPlain name.isPlain_of_mem_tokens, name.trees,
    regroups_of_isPlain name.isPlain_of_mem_tokens, fun rest => ?_⟩
  have hfirst := Piece.not_isSymbol_of_isPeriodRow name.isPeriodRow_morePieces
  rw [name.map_ofTree_trees]
  exact Piece.joinAnnotations_append_of_not_isSymbol
    (List.forall_mem_cons.mpr ⟨rfl, hfirst⟩) rest

/-- An annotation, with or without arguments. -/
structure Annotation where
  gap : List Lexeme := []
  name : Name
  arguments : Option (Enclosure .inside) := none
  /-- a type of annotations would be declared -/
  hname : name.first.name ≠ "interface"

namespace Annotation

variable (note : Annotation)

/-- The trees of an annotation. -/
def trees : List Tree :=
  .leaf (Token.mark note.gap '@') :: (note.name.trees ++
    note.arguments.toList.map fun enclosure => enclosure.group ('(', ')'))

/-- The piece that an annotation is. -/
def piece : Piece where
  tokens := Tree.tokensOf note.trees
  shape := .annotationMark

theorem isAnnotationName : Piece.isAnnotationName note.name.pieces = true := by
  have hkeyword : note.name.first.piece.isKeyword "interface" = false := by
    rw [Piece.isKeyword, Word.text_piece, Bool.and_eq_false_iff, beq_eq_false_iff_ne]
    exact Or.inr note.hname
  rw [Name.pieces, Piece.isAnnotationName, hkeyword, note.name.isPeriodRow_morePieces]
  rfl

theorem reads : ReadsOpen note.trees [note.piece] := by
  have hmark : ∀ c ∈ bracketMarks ++ Position.fieldHead.barred, ('@' == c) = false := by decide
  have hsymbol : (markPiece note.gap '@').isSymbol "@" = true := by
    rw [isSymbol_markPiece]
    decide
  have hsign : Regroups Brackets.angles [.leaf (Token.mark note.gap '@')]
      [.leaf (Token.mark note.gap '@')] := .leaf rfl rfl
  have hname := regroups_of_isPlain note.name.isPlain_of_mem_tokens
  have htokens : Tree.tokensOf note.name.trees = note.name.tokens := Tree.tokensOf_map_leaf _
  have hrow : ∀ {rest}, TreeRow .fieldHead rest →
      TreeRow .fieldHead (.leaf (Token.mark note.gap '@') :: (note.name.trees ++ rest)) :=
    fun hrest => .leaf (fun c hc => by rw [Token.isSymbol_mark]; exact hmark c hc)
      (note.name.reads.row.append hrest)
  unfold piece trees
  cases note.arguments with
  | none =>
    refine ⟨hrow (.nil _), _, (hsign.append hname).append (.nil _), fun rest hrest => ?_⟩
    have hjoined := Piece.joinAnnotations_name hsymbol note.isAnnotationName hrest
    rw [note.name.tokens_pieces] at hjoined
    simp only [List.append_nil, List.map_cons, List.map_nil, List.cons_append, List.nil_append,
      Option.toList_none, Canonical.ofTree_mark]
    rw [← Name.trees, note.name.map_ofTree_trees, hjoined]
    simp [markPiece, Tree.tokensOf, Tree.tokens, htokens]
  | some enclosure =>
    have hparens := enclosure.reads_parens
    have hgroup : Regroups Brackets.angles [enclosure.group ('(', ')')]
        [enclosure.group ('(', ')')] := .group _ _ _ _
    refine ⟨hrow hparens.row, _, (hsign.append hname).append hgroup, fun rest _ => ?_⟩
    have hjoined := Piece.joinAnnotations_arguments hsymbol note.isAnnotationName
      (Tree.tokens (enclosure.group ('(', ')'))) enclosure.inner rest
    have hpiece : Piece.ofTree (enclosure.group ('(', ')')) =
        ⟨Tree.tokens (enclosure.group ('(', ')')), .parens enclosure.inner⟩ := rfl
    rw [note.name.tokens_pieces] at hjoined
    simp only [List.append_assoc, List.map_append, List.map_cons, List.map_nil, List.cons_append,
      List.nil_append, Option.toList_some, Canonical.ofTree_mark]
    rw [← Name.trees, note.name.map_ofTree_trees, hpiece, hjoined]
    simp [markPiece, Tree.tokensOf, Tree.tokens, Tree.tokensOf_append, htokens]

/-- An annotation does not go on with another one. -/
theorem detached (rest : List Piece) : Detached (note.piece :: rest) :=
  Piece.detached_cons rfl rest

end Annotation

/-- The trees of annotations. -/
def annotationTrees (notes : List Annotation) : List Tree := notes.flatMap Annotation.trees

/-- The pieces of annotations. -/
def annotationPieces (notes : List Annotation) : List Piece := notes.map Annotation.piece

theorem detached_annotationPieces (notes : List Annotation) :
    Detached (annotationPieces notes) := by
  cases notes with
  | nil => exact Piece.detached_nil
  | cons note notes => exact note.detached _

theorem reads_annotations (notes : List Annotation) :
    ReadsOpen (annotationTrees notes) (annotationPieces notes) := by
  induction notes with
  | nil => exact Reads.nil.isOpen
  | cons note notes ih =>
    exact note.reads.append_isOpen ih (detached_annotationPieces notes)

theorem isAnnotation_of_mem {notes : List Annotation} :
    ∀ piece ∈ annotationPieces notes, piece.isAnnotation = true := by
  intro piece hpiece
  obtain ⟨note, -, rfl⟩ := List.mem_map.mp hpiece
  rfl

end Grammar

end JavaSignatures.Source
