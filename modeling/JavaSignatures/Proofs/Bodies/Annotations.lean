import JavaSignatures.Proofs.Bodies.Fields

set_option autoImplicit false

/-!
# Heads with annotations

The head of a statement as it is written: annotations that have arguments stand among its modifiers,
and the rest of it follows.  What a head declares does not depend on those arguments
(`AnnotatedHead.ofTrees_bare`).
-/

namespace JavaSignatures.Source

open Lexeme
open JavaSignatures.Source.Tree (tokensOf Nests)
open Canonical (StaysInHead markPiece isSymbol_markPiece)

/-! ## Texts in their places -/

/-- A text that can stand in the place. -/
structure EnclosedText (place : Position) where
  text : List Char
  enclosed : Enclosed place text

namespace EnclosedText

variable {place : Position}

/-- Nothing stands in the place. -/
def empty : EnclosedText place := ⟨[], .nil place⟩

/-- The trees of the text. -/
def trees (part : EnclosedText place) : List Tree := Tree.ofText part.text

/-- What the text passes over behind its last token. -/
def gap (part : EnclosedText place) : List Lexeme := gapBehind part.text

theorem treeRow (part : EnclosedText place) : TreeRow place part.trees := part.enclosed.treeRow.1

theorem readAfter_append_mark (part : EnclosedText place) {c : Char} (hc : c ∈ stops)
    (rest : List Char) :
    readAfter [] (part.text ++ c :: rest) =
      tokensOf part.trees ++ Token.mark part.gap c :: readAfter [] rest :=
  part.enclosed.readAfter_append_mark hc rest

/-- A text in front of another, read character by character. -/
def written (text : String) (rest : EnclosedText place)
    (htext : ∀ c ∈ text.toList, c ∉ delimiters ∧ c ∉ place.barred) : EnclosedText place where
  text := text.toList ++ rest.text
  enclosed := by
    revert htext
    induction text.toList with
    | nil => exact fun _ => rest.enclosed
    | cons c more ih =>
      intro htext
      obtain ⟨⟨hc, hplace⟩, hmore⟩ := List.forall_mem_cons.mp htext
      exact .plain hc hplace (ih hmore)

/-- A text in brackets in front of another. -/
def bracketed (pair : Char × Char) (inner : EnclosedText .inside) (rest : EnclosedText place)
    (hpair : pair ∈ Brackets.nesting ∧ pair.1 ∉ place.barred) : EnclosedText place where
  text := pair.1 :: (inner.text ++ pair.2 :: rest.text)
  enclosed := .group hpair.1 hpair.2 inner.enclosed rest.enclosed

end EnclosedText

/-! ## Annotations -/

namespace Piece

/-- The pieces go on with the name of an annotation behind its first word. -/
def isPeriodRow : List Piece → Bool
  | [] => true
  | [_] => false
  | period :: word :: rest => period.isSymbol "." && word.isWord && isPeriodRow rest

/-- The pieces are the name of an annotation. -/
def isAnnotationName : List Piece → Bool
  | [] => false
  | first :: more => first.isWord && !first.isKeyword "interface" && isPeriodRow more

theorem not_isSymbol_of_isWord {piece : Piece} (h : piece.isWord = true) (symbol : String) :
    piece.isSymbol symbol = false := by
  unfold isWord at h
  unfold isSymbol
  cases hshape : piece.shape <;> rw [hshape] at h <;> first | rfl | exact absurd h (by simp)

theorem annotationTail_periodRow {row : List Piece} (hrow : isPeriodRow row = true)
    (tokens : List Token) (inner : List Tree) (rest : List Piece) :
    annotationTail (row ++ ⟨tokens, .parens inner⟩ :: rest) =
      (row.flatMap Piece.tokens ++ tokens, rest) := by
  fun_induction isPeriodRow row with
  | case1 => cases rest <;> simp [annotationTail]
  | case2 => exact absurd hrow (by simp)
  | case3 period word row ih =>
    rw [Bool.and_eq_true, Bool.and_eq_true] at hrow
    obtain ⟨⟨hperiod, hword⟩, hmore⟩ := hrow
    have hshape := shape_of_isSymbol hperiod
    simp [annotationTail, hshape, hperiod, hword, ih hmore]

/-- None of the pieces of a name begins an annotation. -/
theorem not_isSymbol_of_isPeriodRow {row : List Piece} (hrow : isPeriodRow row = true) :
    ∀ piece ∈ row, piece.isSymbol "@" = false := by
  fun_induction isPeriodRow row with
  | case1 => simp
  | case2 => exact absurd hrow (by simp)
  | case3 period word row ih =>
    rw [Bool.and_eq_true, Bool.and_eq_true] at hrow
    obtain ⟨⟨hperiod, hword⟩, hmore⟩ := hrow
    have hfirst : period.isSymbol "@" = false := by
      unfold isSymbol at hperiod ⊢
      rw [Bool.and_eq_true, beq_iff_eq] at hperiod
      rw [hperiod.2]
      simp
    exact List.forall_mem_cons.mpr
      ⟨hfirst, List.forall_mem_cons.mpr ⟨not_isSymbol_of_isWord hword _, ih hmore⟩⟩

theorem ends_annotationMark (tokens : List Token) : Ends ⟨tokens, .annotationMark⟩ where
  isWord := rfl
  annotationTail rest := by cases rest <;> simp [annotationTail, isSymbol]

theorem joinAnnotations_append_of_not_isSymbol {row : List Piece}
    (hrow : ∀ piece ∈ row, piece.isSymbol "@" = false) (rest : List Piece) :
    joinAnnotations (row ++ rest) = row ++ joinAnnotations rest := by
  induction row with
  | nil => rfl
  | cons piece row ih =>
    obtain ⟨hpiece, hmore⟩ := List.forall_mem_cons.mp hrow
    rw [List.cons_append, joinAnnotations_cons, hpiece, if_neg Bool.false_ne_true, ih hmore]
    rfl

/-- An annotation with arguments is one piece. -/
theorem joinAnnotations_arguments {mark : Piece} (hmark : mark.isSymbol "@" = true)
    {name : List Piece} (hname : isAnnotationName name = true) (tokens : List Token)
    (inner : List Tree) (rest : List Piece) :
    joinAnnotations (mark :: (name ++ ⟨tokens, .parens inner⟩ :: rest)) =
      ⟨mark.tokens ++ name.flatMap Piece.tokens ++ tokens, .annotationMark⟩ ::
        joinAnnotations rest := by
  cases name with
  | nil => exact absurd hname (by simp [isAnnotationName])
  | cons first more =>
    rw [isAnnotationName, Bool.and_eq_true] at hname
    obtain ⟨hfirst, hmore⟩ := hname
    have hparens : Piece.isSymbol ⟨tokens, .parens inner⟩ "@" = false := rfl
    have hword : first.isWord = true := (Bool.and_eq_true_iff.mp hfirst).1
    have hnone : ∀ piece ∈ first :: more, piece.isSymbol "@" = false :=
      List.forall_mem_cons.mpr ⟨not_isSymbol_of_isWord hword _, not_isSymbol_of_isPeriodRow hmore⟩
    rw [joinAnnotations_cons, if_pos hmark, joinAnnotations_append_of_not_isSymbol hnone,
      joinAnnotations_cons, hparens, if_neg Bool.false_ne_true, List.cons_append, joinMark,
      if_pos hfirst, annotationTail_periodRow hmore]
    simp

end Piece

/-- An annotation with arguments among the modifiers of a declaration. -/
structure Annotation where
  /-- the modifiers in front of it -/
  before : EnclosedText .fieldHead
  name : EnclosedText .fieldHead
  arguments : EnclosedText .inside
  isModifier : ∀ piece ∈ Piece.ofTrees before.trees, Modifiers.isModifier piece = true
  isName : Piece.isAnnotationName (Piece.apart name.trees) = true

namespace Annotation

/-- How the annotation is written. -/
def text (note : Annotation) : List Char :=
  note.before.text ++ '@' :: (note.name.text ++ '(' :: (note.arguments.text ++ [')']))

/-- The arguments in their parentheses. -/
def parens (note : Annotation) : Tree :=
  .group (Token.mark note.name.gap '(') note.arguments.trees
    (some (Token.mark note.arguments.gap ')'))

/-- The trees of the annotation. -/
def trees (note : Annotation) : List Tree :=
  note.before.trees ++
    .leaf (Token.mark note.before.gap '@') :: (note.name.trees ++ [note.parens])

/-- The annotation without its arguments. -/
def bare (note : Annotation) : Annotation := { note with arguments := .empty }

variable (note : Annotation)

theorem readAfter_append (rest : List Char) :
    readAfter [] (note.text ++ rest) = tokensOf note.trees ++ readAfter [] rest := by
  have htext : note.text ++ rest = note.before.text ++ '@' ::
      (note.name.text ++ '(' :: (note.arguments.text ++ ')' :: rest)) := by
    simp [text]
  rw [htext, note.before.readAfter_append_mark (by decide),
    note.name.readAfter_append_mark (by decide), note.arguments.readAfter_append_mark (by decide)]
  simp [trees, parens, Tree.tokensOf_append, tokensOf, Tree.tokens]

/-- The annotation can stand in the head of a field, and so in any head. -/
theorem treeRow : TreeRow .fieldHead note.trees := by
  have hmark : ∀ c ∈ bracketMarks ++ Position.fieldHead.barred, ('@' == c) = false := by decide
  refine note.before.treeRow.append (.leaf ?_ (note.name.treeRow.append ?_))
  · intro c hc
    rw [Token.isSymbol_mark]
    exact hmark c hc
  · have hpair : ('(', ')') ∈ Brackets.nesting := by decide
    exact .group _ _ hpair (by decide) note.arguments.treeRow (.nil _)

/-- The annotation is one piece behind the pieces in front of it. -/
theorem ofTrees_append (rest : List Tree) :
    ∃ tokens, Piece.ofTrees (note.trees ++ rest) = Piece.ofTrees note.before.trees ++
      ⟨Token.mark note.before.gap '@' :: tokens, .annotationMark⟩ :: Piece.ofTrees rest := by
  have hmark : Tree.Regroups Brackets.angles [.leaf (Token.mark note.before.gap '@')]
      [.leaf (Token.mark note.before.gap '@')] := .leaf rfl rfl
  have hparens : Tree.Regroups Brackets.angles [note.parens] [note.parens] := .group _ _ _ _
  have htrees : note.trees ++ rest = note.before.trees ++
      .leaf (Token.mark note.before.gap '@') :: (note.name.trees ++ note.parens :: rest) := by
    simp [trees]
  have hsymbol : (markPiece note.before.gap '@').isSymbol "@" = true := by
    rw [isSymbol_markPiece]
    decide
  have hjoined := Piece.joinAnnotations_arguments hsymbol note.isName (Tree.tokens note.parens)
    note.arguments.trees (Piece.apart rest)
  refine ⟨(Piece.apart note.name.trees).flatMap Piece.tokens ++ Tree.tokens note.parens, ?_⟩
  rw [htrees, Piece.ofTrees_eq, note.before.treeRow.apart_append rfl hmark,
    note.name.treeRow.apart_append rfl hparens]
  refine (Piece.joinAnnotations_append (Piece.ends_annotationMark _) hjoined _).trans ?_
  simp [markPiece, Piece.ofTrees_eq]

end Annotation

/-! ## Rows with other annotations in front -/

namespace Piece

/-- The rows differ in nothing but what annotations among the modifiers in front hold behind their
first tokens. -/
inductive Alike : List Piece → List Piece → Prop where
  | refl (row : List Piece) : Alike row row
  | modifier {piece : Piece} {row other : List Piece} (hpiece : Modifiers.isModifier piece = true)
    (h : Alike row other) : Alike (piece :: row) (piece :: other)
  | annotationMark (first : Token) (tokens more : List Token) {row other : List Piece}
    (h : Alike row other) :
    Alike (⟨first :: tokens, .annotationMark⟩ :: row) (⟨first :: more, .annotationMark⟩ :: other)

namespace Alike

variable {row other : List Piece}

theorem append (h : Alike row other) {front : List Piece}
    (hfront : ∀ piece ∈ front, Modifiers.isModifier piece = true) :
    Alike (front ++ row) (front ++ other) := by
  induction front with
  | nil => exact h
  | cons piece front ih =>
    obtain ⟨hpiece, hmore⟩ := List.forall_mem_cons.mp hfront
    exact .modifier hpiece (ih hmore)

theorem head_comments (h : Alike row other) :
    row.head?.map comments = other.head?.map comments := by
  cases h <;> rfl

/-- The same row follows the modifiers. -/
theorem behind_modifiers (h : Alike row other) :
    row.dropWhile Modifiers.isModifier = other.dropWhile Modifiers.isModifier := by
  induction h with
  | refl row => rfl
  | modifier hpiece h ih =>
    rw [List.dropWhile_cons_of_pos hpiece, List.dropWhile_cons_of_pos hpiece]
    exact ih
  | annotationMark first tokens more h ih => exact ih

theorem modifier_words (h : Alike row other) :
    (row.takeWhile Modifiers.isModifier).filter isWord =
      (other.takeWhile Modifiers.isModifier).filter isWord := by
  induction h with
  | refl row => rfl
  | modifier hpiece h ih =>
    rw [List.takeWhile_cons_of_pos hpiece, List.takeWhile_cons_of_pos hpiece, List.filter_cons,
      List.filter_cons, ih]
  | annotationMark first tokens more h ih => exact ih

theorem modifier_comments (h : Alike row other) :
    (row.takeWhile Modifiers.isModifier).map comments =
      (other.takeWhile Modifiers.isModifier).map comments := by
  induction h with
  | refl row => rfl
  | modifier hpiece h ih =>
    rw [List.takeWhile_cons_of_pos hpiece, List.takeWhile_cons_of_pos hpiece, List.map_cons,
      List.map_cons, ih]
  | annotationMark first tokens more h ih => exact congrArg (first.comments :: ·) ih

/-- The modifiers declare the same. -/
theorem split (h : Alike row other) : Modifiers.split row = Modifiers.split other := by
  have hpieces : ∀ pieces : List Piece, Modifiers.ofPieces pieces =
      ⟨(pieces.filter isWord).map text, (pieces.map comments).tail.flatten⟩ := by
    intro pieces
    rw [Modifiers.ofPieces, ← List.map_tail, List.flatMap_def]
  rw [Modifiers.split, Modifiers.split, h.behind_modifiers, hpieces, hpieces, h.modifier_words,
    h.modifier_comments]

end Alike

end Piece

/-- Alike heads declare the same. -/
theorem Head.ofTrees_eq_of_alike {trees other : List Tree}
    (h : Piece.Alike (Piece.ofTrees trees) (Piece.ofTrees other)) (hasBlock : Bool) :
    Head.ofTrees hasBlock trees = Head.ofTrees hasBlock other := by
  unfold Head.ofTrees
  dsimp only
  rw [h.split, h.head_comments]

/-- A modifier that is no annotation begins neither a package clause nor an import. -/
theorem Modifiers.not_isKeyword {piece : Piece} (h : isModifier piece = true) {keyword : String}
    (hkeyword : keyword ∉ keywords) : piece.isKeyword keyword = false := by
  rw [Bool.eq_false_iff]
  intro hpiece
  rw [Piece.isKeyword, Bool.and_eq_true, beq_iff_eq] at hpiece
  obtain ⟨hword, htext⟩ := hpiece
  rw [isModifier, Bool.or_eq_true, Bool.and_eq_true, htext] at h
  rcases h with hannotation | hmodifier
  · unfold Piece.isWord at hword
    unfold Piece.isAnnotation at hannotation
    split at hword <;> simp_all
  · exact hkeyword (List.contains_iff_mem.mp hmodifier.2)

namespace SourceFile

variable {trees other : List Tree}

theorem import?_eq_of_alike (h : Piece.Alike (Piece.ofTrees trees) (Piece.ofTrees other)) :
    SourceFile.import? (.plain trees) = SourceFile.import? (.plain other) := by
  unfold import?
  dsimp only
  generalize Piece.ofTrees trees = row at h ⊢
  generalize Piece.ofTrees other = row' at h ⊢
  cases h with
  | refl => rfl
  | modifier hpiece h =>
    have hnot := Modifiers.not_isKeyword hpiece (show "import" ∉ Modifiers.keywords by decide)
    simp only [hnot, Bool.false_and, Bool.false_eq_true, if_false]
  | annotationMark first tokens more h => rfl

theorem package?_eq_of_alike (h : Piece.Alike (Piece.ofTrees trees) (Piece.ofTrees other)) :
    SourceFile.package? (.plain trees) = SourceFile.package? (.plain other) := by
  unfold package?
  dsimp only
  generalize Piece.ofTrees trees = row at h ⊢
  generalize Piece.ofTrees other = row' at h ⊢
  induction h with
  | refl => rfl
  | @modifier piece row other hpiece h ih =>
    by_cases hannotation : piece.isAnnotation = true
    · rw [List.dropWhile_cons_of_pos hannotation, List.dropWhile_cons_of_pos hannotation]
      exact ih
    · have hnot := Modifiers.not_isKeyword hpiece (show "package" ∉ Modifiers.keywords by decide)
      rw [List.dropWhile_cons_of_neg hannotation, List.dropWhile_cons_of_neg hannotation]
      simp only [hnot, Bool.false_eq_true, if_false]
  | annotationMark first tokens more h ih => exact ih

end SourceFile

/-! ## Heads -/

/-- The head of a statement: annotations with arguments among its modifiers, and the rest of it. -/
structure AnnotatedHead (place : Position) where
  annotations : List Annotation
  rest : EnclosedText place

namespace AnnotatedHead

variable {place : Position}

/-- How the head is written. -/
def text (head : AnnotatedHead place) : List Char :=
  head.annotations.flatMap Annotation.text ++ head.rest.text

/-- The trees of the head. -/
def trees (head : AnnotatedHead place) : List Tree :=
  head.annotations.flatMap Annotation.trees ++ head.rest.trees

/-- The head without the arguments of its annotations. -/
def bare (head : AnnotatedHead place) : AnnotatedHead place :=
  { head with annotations := head.annotations.map Annotation.bare }

variable (head : AnnotatedHead place)

theorem readAfter_append_mark {c : Char} (hc : c ∈ stops) (rest : List Char) :
    readAfter [] (head.text ++ c :: rest) =
      tokensOf head.trees ++ Token.mark head.rest.gap c :: readAfter [] rest := by
  have hfront : ∀ (annotations : List Annotation) (behind : List Char),
      readAfter [] ( annotations.flatMap Annotation.text ++ behind) =
        tokensOf ( annotations.flatMap Annotation.trees) ++ readAfter [] behind := by
    intro annotations behind
    induction annotations with
    | nil => rfl
    | cons note annotations ih =>
      rw [List.flatMap_cons, List.append_assoc, note.readAfter_append, ih, List.flatMap_cons,
        Tree.tokensOf_append, List.append_assoc]
  rw [text, List.append_assoc, hfront, head.rest.readAfter_append_mark hc, trees,
    Tree.tokensOf_append, List.append_assoc]

theorem nests : Nests head.trees :=
  Nests.append (Nests.flatMap fun note _ => note.treeRow.nests) head.rest.treeRow.nests

theorem staysInHead (hplace : ∀ c ∈ Position.head.barred, c ∈ place.barred) :
    ∀ tree ∈ head.trees, StaysInHead tree := by
  intro tree htree
  rcases List.mem_append.mp htree with hfront | hrest
  · obtain ⟨note, -, hnote⟩ := List.mem_flatMap.mp hfront
    exact note.treeRow.staysInHead (by decide) tree hnote
  · exact head.rest.treeRow.staysInHead hplace tree hrest

theorem treeRow (head : AnnotatedHead .fieldHead) : TreeRow .fieldHead head.trees := by
  obtain ⟨annotations, rest⟩ := head
  unfold trees
  induction annotations with
  | nil => exact rest.treeRow
  | cons note annotations ih =>
    rw [List.flatMap_cons, List.append_assoc]
    exact note.treeRow.append ih

/-- The pieces of the head, whatever is behind it, are alike without the arguments. -/
theorem alike_bare (behind : List Tree) :
    Piece.Alike (Piece.ofTrees (head.trees ++ behind))
      (Piece.ofTrees (head.bare.trees ++ behind)) := by
  obtain ⟨annotations, rest⟩ := head
  induction annotations with
  | nil => exact .refl _
  | cons note annotations ih =>
    have htrees : ∀ more, (AnnotatedHead.mk (note :: annotations) rest).trees ++ more =
        note.trees ++ ((AnnotatedHead.mk annotations rest).trees ++ more) := by
      intro more
      simp [trees]
    have hbare : (AnnotatedHead.mk (note :: annotations) rest).bare.trees ++ behind =
        note.bare.trees ++ ((AnnotatedHead.mk annotations rest).bare.trees ++ behind) := by
      simp [trees, bare]
    obtain ⟨tokens, hwith⟩ := note.ofTrees_append
      ((AnnotatedHead.mk annotations rest).trees ++ behind)
    obtain ⟨more, hwithout⟩ := note.bare.ofTrees_append
      ((AnnotatedHead.mk annotations rest).bare.trees ++ behind)
    rw [htrees, hbare, hwith, hwithout]
    exact Piece.Alike.append (.annotationMark _ tokens more ih) note.isModifier

/-- What the head declares does not depend on the arguments. -/
theorem ofTrees_bare (head : AnnotatedHead place) (hasBlock : Bool) :
    Head.ofTrees hasBlock head.bare.trees = Head.ofTrees hasBlock head.trees := by
  have halike := head.alike_bare []
  rw [List.append_nil, List.append_nil] at halike
  exact (Head.ofTrees_eq_of_alike halike hasBlock).symm

end AnnotatedHead

end JavaSignatures.Source
