import JavaSignatures.Proofs.Bodies.Rows
import JavaSignatures.Proofs.SourceWords
import JavaSignatures.Proofs.TextParts
import Mathlib.Data.List.Basic

set_option autoImplicit false

/-!
# Pieces of parts of a head

A head is written in parts with marks and groups between them, and its pieces are the pieces of the
parts one after the other: no list in angle brackets and no annotation goes on over the mark
(`Piece.ofTrees_append_mark`).
-/

namespace JavaSignatures.Source

open Canonical (markPiece isSymbol_markPiece)

/-! ## Rows up to an element that ends a run -/

section Runs

variable {α : Type} {p : α → Bool} {stop : α}

theorem mem_dropWhile_of_stop (hstop : p stop = false) {row : List α} (h : stop ∈ row) :
    stop ∈ row.dropWhile p := by
  rw [← List.takeWhile_append_dropWhile (p := p) (l := row)] at h
  refine (List.mem_append.mp h).resolve_left fun hmem => ?_
  rw [List.mem_takeWhile_imp hmem] at hstop
  exact absurd hstop (by simp)

theorem mem_drop_of_stop (hstop : p stop = false) {row : List α} (h : stop ∈ row) {n : Nat}
    (hn : n ≤ (row.takeWhile p).length) : stop ∈ row.drop n := by
  have hrow : (row.takeWhile p ++ row.dropWhile p).drop n =
      (row.takeWhile p).drop n ++ row.dropWhile p := List.drop_append_of_le_length hn
  rw [List.takeWhile_append_dropWhile] at hrow
  rw [hrow]
  exact List.mem_append_right _ (mem_dropWhile_of_stop hstop h)

end Runs

/-! ## Pieces in front of others -/

/-- The pieces of a head one by one, before annotations are put together. -/
def Piece.apart (trees : List Tree) : List Piece := Piece.ofTreesApart (Tree.groupAngles trees)

theorem Piece.ofTrees_eq (trees : List Tree) :
    Piece.ofTrees trees = joinAnnotations (apart trees) := rfl

namespace TreeRow

variable {place : Position} {trees : List Tree}

/-- Where angle brackets come in pairs they are grouped among themselves, and what does not stand in
the place does not stand outside of the groups. -/
theorem regroups (h : TreeRow place trees) (hplace : place.hasAngles = true) :
    ∃ grouped, Tree.Regroups Brackets.angles trees grouped ∧
      ∀ c ∈ place.barred, ∀ tree ∈ grouped, tree.isSymbol c = false := by
  have hbarred : ∀ {place : Position}, place.hasAngles = true →
      '<' ∈ place.barred ∧ '>' ∈ place.barred := by
    intro place hplace
    cases place <;> first | exact absurd hplace (by decide) | decide
  induction h with
  | nil => exact ⟨[], .nil _, by simp⟩
  | @leaf place token rest hsymbol h ih =>
    obtain ⟨grouped, hgrouped, hsymbols⟩ := ih hplace
    have hopening := hsymbol '<' (List.mem_append_right _ (hbarred hplace).1)
    have hclosing := hsymbol '>' (List.mem_append_right _ (hbarred hplace).2)
    have hleaf : Tree.Regroups Brackets.angles [.leaf token] [.leaf token] :=
      .leaf (by simp [Brackets.opened?, Brackets.angles, hopening])
        (by simp [Brackets.closed?, Brackets.angles, hclosing])
    refine ⟨.leaf token :: grouped, .append hleaf hgrouped, fun c hc => ?_⟩
    exact List.forall_mem_cons.mpr ⟨hsymbol c (List.mem_append_right _ hc), hsymbols c hc⟩
  | @group place pair inner rest gap behind hpair hopening hinner h ihinner ih =>
    obtain ⟨grouped, hgrouped, hsymbols⟩ := ih hplace
    refine ⟨_, .append (.group _ _ _ _) hgrouped, fun c hc => ?_⟩
    exact List.forall_mem_cons.mpr ⟨rfl, hsymbols c hc⟩
  | @angles place inner rest gap behind hangles hinner h ihinner ih =>
    obtain ⟨grouped, hgrouped, hsymbols⟩ := ih hplace
    obtain ⟨groupedInner, hgroupedInner, -⟩ := ihinner rfl
    have hpair : Tree.Regroups Brackets.angles
        (.leaf (Token.mark gap '<') :: (inner ++ [.leaf (Token.mark behind '>')]))
        [.group (Token.mark gap '<') groupedInner (some (Token.mark behind '>'))] :=
      .enclosed ('<', '>') rfl rfl rfl hgroupedInner
    have hall := hpair.append hgrouped
    simp only [List.cons_append, List.append_assoc, List.nil_append] at hall
    exact ⟨_, hall, fun c hc => List.forall_mem_cons.mpr ⟨rfl, hsymbols c hc⟩⟩

/-- The pieces in front of a tree that is no angle bracket do not depend on what is behind it. -/
theorem apart_append (h : TreeRow place trees) (hplace : place.hasAngles = true) {stop : Tree}
    (hstop : Tree.Regroups Brackets.angles [stop] [stop]) (rest : List Tree) :
    Piece.apart (trees ++ stop :: rest) =
      Piece.apart trees ++ Piece.ofTree stop :: Piece.apart rest := by
  obtain ⟨grouped, hgrouped, -⟩ := h.regroups hplace
  have hall := (hgrouped.append hstop).groupFrom_append rest
  rw [List.append_assoc, List.append_assoc, List.singleton_append, List.singleton_append] at hall
  simp only [Piece.apart, Tree.groupAngles, hall, hgrouped.groupFrom_eq, Piece.ofTreesApart_eq_map,
    List.map_append, List.map_cons]

end TreeRow

namespace Piece

theorem joinAnnotations_cons (piece : Piece) (pieces : List Piece) :
    joinAnnotations (piece :: pieces) =
      if piece.isSymbol "@" then joinMark piece (joinAnnotations pieces)
      else piece :: joinAnnotations pieces := rfl

theorem shape_of_isSymbol {piece : Piece} {symbol : String} (h : piece.isSymbol symbol = true) :
    piece.shape = .symbol := by
  unfold isSymbol at h
  cases hshape : piece.shape <;> rw [hshape] at h <;> first | rfl | exact absurd h (by simp)

/-- No annotation goes on over the piece. -/
structure Ends (stop : Piece) : Prop where
  isWord : stop.isWord = false
  annotationTail : ∀ rest, annotationTail (stop :: rest) = ([], stop :: rest)

theorem ends_markPiece (gap : List Lexeme) {c : Char} (hc : c ≠ '.') : (markPiece gap c).Ends where
  isWord := rfl
  annotationTail rest := by
    have hperiod : (markPiece gap c).isSymbol "." = false := by
      have hspelled : String.ofList [c] ≠ "." := by
        intro h
        exact hc (List.cons.inj (String.ofList_inj.mp h)).1
      rw [isSymbol_markPiece]
      exact beq_eq_false_iff_ne.mpr hspelled
    have hshape : (markPiece gap c).shape = .symbol := rfl
    cases rest <;> simp [annotationTail, hperiod, hshape]

/-- What follows a piece that is no word does not belong to an annotation in front of it, unless the
piece does. -/
theorem annotationTail_append {stop : Piece} (hword : stop.isWord = false) (pieces rest : List Piece)
    (hstop : (annotationTail pieces).2 = [] → annotationTail (stop :: rest) = ([], stop :: rest)) :
    annotationTail (pieces ++ stop :: rest) =
      ((annotationTail pieces).1, (annotationTail pieces).2 ++ stop :: rest) := by
  fun_induction annotationTail pieces with
  | case1 => exact hstop rfl
  | case2 piece hparens => simp [annotationTail, hparens]
  | case3 piece hparens => simp [annotationTail, hparens, hword]
  | case4 piece next more hparens => simp [annotationTail, hparens]
  | case5 piece next more hparens hname tokens after hafter ih =>
    have hmore := ih (by rw [hafter]; exact hstop)
    simp only [List.cons_append, annotationTail, hparens, hname, hmore, hafter]
    simp
  | case6 piece next more hparens hname => simp [annotationTail, hparens, hname]

section Ends

variable {stop : Piece} (hstop : stop.Ends)

include hstop

theorem joinMark_append (mark : Piece) (pieces rest : List Piece) :
    joinMark mark (pieces ++ stop :: rest) = joinMark mark pieces ++ stop :: rest := by
  cases pieces with
  | nil => simp [joinMark, hstop.isWord]
  | cons name more =>
    rw [List.cons_append, joinMark, joinMark,
      annotationTail_append hstop.isWord more rest fun _ => hstop.annotationTail rest]
    split <;> rfl

/-- What stands in front of the piece is joined for itself. -/
theorem joinAnnotations_append {behind rest : List Piece}
    (hbehind : joinAnnotations behind = stop :: rest) (pieces : List Piece) :
    joinAnnotations (pieces ++ behind) = joinAnnotations pieces ++ stop :: rest := by
  induction pieces with
  | nil => exact hbehind
  | cons piece pieces ih =>
    rw [List.cons_append, joinAnnotations_cons, joinAnnotations_cons, ih, joinMark_append hstop]
    split <;> rfl

end Ends

/-! ### Behind a name -/

theorem annotationTail_suffix (pieces : List Piece) : (annotationTail pieces).2 <:+ pieces := by
  fun_induction annotationTail pieces with
  | case1 => exact List.suffix_rfl
  | case2 piece => exact List.nil_suffix
  | case3 piece => exact List.suffix_rfl
  | case4 piece next rest => exact List.suffix_cons piece _
  | case5 piece next rest hparens hname tokens after hafter ih =>
    rw [hafter] at ih
    exact ih.trans ((List.suffix_cons next rest).trans (List.suffix_cons piece _))
  | case6 piece next rest => exact List.suffix_rfl

section Word

variable {stop : Piece} (hstop : stop.isWord = false)

include hstop

/-- If a word is left at the end, no annotation reaches it, nor what is behind it. -/
theorem joinMark_append_of_word {mark : Piece} (hmark : mark.isWord = false) {pieces : List Piece}
    (hlast : ∀ piece ∈ (joinMark mark pieces).getLast?, piece.isWord = true) (rest : List Piece) :
    joinMark mark (pieces ++ stop :: rest) = joinMark mark pieces ++ stop :: rest ∧
      ∀ piece ∈ pieces.getLast?, piece.isWord = true := by
  cases pieces with
  | nil =>
    have hword := hlast mark rfl
    rw [hmark] at hword
    exact absurd hword Bool.false_ne_true
  | cons name more =>
    rw [List.cons_append, joinMark, joinMark]
    rw [joinMark] at hlast
    by_cases hname : (name.isWord && !name.isKeyword "interface") = true
    · rw [if_pos hname] at hlast ⊢
      rw [if_pos hname]
      obtain ⟨front, hfront⟩ := annotationTail_suffix more
      dsimp only at hlast
      have hafter : (annotationTail more).2 ≠ [] := by
        intro hnil
        rw [hnil] at hlast
        exact absurd (hlast _ rfl) Bool.false_ne_true
      rw [annotationTail_append hstop more rest fun hnil => absurd hnil hafter]
      refine ⟨rfl, fun piece hpiece => hlast piece (List.mem_getLast?_cons ?_)⟩
      rwa [← hfront, ← List.cons_append, List.getLast?_append_of_ne_nil _ hafter] at hpiece
    · rw [if_neg hname] at hlast ⊢
      rw [if_neg hname]
      exact ⟨rfl, fun piece hpiece => hlast piece (List.mem_getLast?_cons hpiece)⟩

/-- A piece behind a word divides the row. -/
theorem joinAnnotations_append_of_word (hsymbol : stop.isSymbol "@" = false) {pieces : List Piece}
    (hlast : ∀ piece ∈ (joinAnnotations pieces).getLast?, piece.isWord = true) (rest : List Piece) :
    joinAnnotations (pieces ++ stop :: rest) =
      joinAnnotations pieces ++ stop :: joinAnnotations rest := by
  induction pieces with
  | nil =>
    rw [List.nil_append, joinAnnotations_cons, hsymbol]
    rfl
  | cons piece pieces ih =>
    rw [List.cons_append, joinAnnotations_cons, joinAnnotations_cons]
    rw [joinAnnotations_cons] at hlast
    by_cases hmark : piece.isSymbol "@" = true
    · rw [if_pos hmark] at hlast ⊢
      have hword : piece.isWord = false := by
        rw [isWord, shape_of_isSymbol hmark]
      obtain ⟨-, hmore⟩ := joinMark_append_of_word hstop hword hlast []
      rw [if_pos hmark, ih hmore]
      exact (joinMark_append_of_word hstop hword hlast _).1
    · rw [if_neg hmark] at hlast ⊢
      rw [if_neg hmark, ih fun last hpiece => hlast last (List.mem_getLast?_cons hpiece)]
      rfl

end Word

/-- A mark between two parts of a head divides their pieces. -/
theorem ofTrees_append_mark {head : List Tree} (h : TreeRow .fieldHead head) (gap : List Lexeme)
    {c : Char} (hc : c ∉ ['<', '>', '.', '@']) (rest : List Tree) :
    ofTrees (head ++ .leaf (Token.mark gap c) :: rest) =
      ofTrees head ++ markPiece gap c :: ofTrees rest := by
  simp only [List.mem_cons, List.not_mem_nil, or_false, not_or] at hc
  obtain ⟨hopening, hclosing, hperiod, hmark⟩ := hc
  have hstop : Tree.Regroups Brackets.angles [.leaf (Token.mark gap c)]
      [.leaf (Token.mark gap c)] :=
    .leaf (by simp [Brackets.opened?, Brackets.angles, Token.isSymbol_mark, hopening])
      (by simp [Brackets.closed?, Brackets.angles, Token.isSymbol_mark, hclosing])
  have hsymbol : (markPiece gap c).isSymbol "@" = false := by
    have hspelled : String.ofList [c] ≠ "@" := by
      intro h
      exact hmark (List.cons.inj (String.ofList_inj.mp h)).1
    rw [isSymbol_markPiece]
    exact beq_eq_false_iff_ne.mpr hspelled
  rw [ofTrees_eq, h.apart_append rfl hstop]
  refine joinAnnotations_append (ends_markPiece gap hperiod) ?_ _
  rw [Canonical.ofTree_mark, joinAnnotations_cons, hsymbol, if_neg Bool.false_ne_true]
  rfl

theorem isSymbol_group (opening : Token) (inner : List Tree) (closing : Option Token)
    (symbol : String) : (ofTree (.group opening inner closing)).isSymbol symbol = false := by
  unfold isSymbol ofTree
  dsimp only
  by_cases hangle : opening.isSymbol '<' = true
  · rw [if_pos hangle]
    rfl
  · by_cases hparens : opening.isSymbol '(' = true
    · rw [if_neg hangle, if_pos hparens]
      rfl
    · by_cases hsquare : opening.isSymbol '[' = true
      · rw [if_neg hangle, if_neg hparens, if_pos hsquare]
        rfl
      · rw [if_neg hangle, if_neg hparens, if_neg hsquare]
        rfl

/-- No piece of the head of a field is a question mark. -/
theorem not_isSymbol_question {head : List Tree} (h : TreeRow .fieldHead head) :
    ∀ piece ∈ ofTrees head, piece.isSymbol "?" = false := by
  obtain ⟨grouped, hgrouped, hsymbols⟩ := h.regroups rfl
  intro piece hpiece
  rw [ofTrees, Tree.groupAngles, hgrouped.groupFrom_eq, ofTreesApart_eq_map] at hpiece
  rcases mem_joinAnnotations hpiece with hannotation | hplain
  · unfold isAnnotation at hannotation
    unfold isSymbol
    split at hannotation <;> simp_all
  · obtain ⟨tree, htree, rfl⟩ := List.mem_map.mp hplain
    have hsymbol := hsymbols '?' (by decide) tree htree
    cases tree with
    | leaf token =>
      have htext : (ofTree (.leaf token)).text = token.text := by
        rw [text, ofTree, Token.spell_singleton, Token.text]
      rw [isSymbol, htext, Bool.eq_false_iff]
      intro hquestion
      rw [Bool.and_eq_true, beq_iff_eq, Token.text] at hquestion
      obtain ⟨hkind, hspelled⟩ := hquestion
      have hlexeme : token.lexeme.text = ['?'] := String.ofList_inj.mp hspelled
      rw [Tree.isSymbol, Token.isSymbol, hlexeme] at hsymbol
      unfold ofTree at hkind
      cases hword : token.lexeme.kind <;> simp_all
    | group opening inner closing => exact isSymbol_group opening inner closing "?"

end Piece

end JavaSignatures.Source
