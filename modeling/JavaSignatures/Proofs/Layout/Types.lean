import JavaSignatures.Proofs.Bodies.Pieces
import JavaSignatures.Proofs.Layout.Trees
import JavaSignatures.Proofs.VerbatimTypes
import Mathlib.Data.List.Forall2

set_option autoImplicit false

/-!
# Types under another layout

Two heads with the same tokens and comments are read as rows of pieces that resemble each other
(`Piece.rowResembles_ofTrees`), and from such rows the same types are read, except that a wildcard
is kept with its white space.  `TypeExpr.dense` takes that away.
-/

namespace JavaSignatures.Source

/-! ## Rows side by side -/

section Rows

variable {α β γ : Type} {R : α → β → Prop} {p : α → Bool} {q : β → Bool} {row : List α}
  {other : List β}

theorem forall₂_dropWhile (h : List.Forall₂ R row other) (hp : ∀ a b, R a b → p a = q b) :
    List.Forall₂ R (row.dropWhile p) (other.dropWhile q) := by
  induction h with
  | nil => exact .nil
  | cons hab h ih =>
    rw [List.dropWhile_cons, List.dropWhile_cons, hp _ _ hab]
    split
    · exact ih
    · exact .cons hab h

theorem forall₂_takeWhile (h : List.Forall₂ R row other) (hp : ∀ a b, R a b → p a = q b) :
    List.Forall₂ R (row.takeWhile p) (other.takeWhile q) := by
  induction h with
  | nil => exact .nil
  | cons hab h ih =>
    rw [List.takeWhile_cons, List.takeWhile_cons, hp _ _ hab]
    split
    · exact .cons hab ih
    · exact .nil

theorem forall₂_filter (h : List.Forall₂ R row other) (hp : ∀ a b, R a b → p a = q b) :
    List.Forall₂ R (row.filter p) (other.filter q) :=
  List.rel_filter (fun a b hab => by dsimp only; rw [hp a b hab]) h

theorem countP_eq_of_forall₂ (h : List.Forall₂ R row other) (hp : ∀ a b, R a b → p a = q b) :
    row.countP p = other.countP q := by
  rw [List.countP_eq_length_filter, List.countP_eq_length_filter]
  exact (forall₂_filter h hp).length_eq

theorem all_eq_of_forall₂ (h : List.Forall₂ R row other) (hp : ∀ a b, R a b → p a = q b) :
    row.all p = other.all q := by
  induction h with
  | nil => rfl
  | cons hab h ih => rw [List.all_cons, List.all_cons, hp _ _ hab, ih]

theorem any_eq_of_forall₂ (h : List.Forall₂ R row other) (hp : ∀ a b, R a b → p a = q b) :
    row.any p = other.any q := by
  induction h with
  | nil => rfl
  | cons hab h ih => rw [List.any_cons, List.any_cons, hp _ _ hab, ih]

theorem map_eq_of_forall₂ {f : α → γ} {g : β → γ} (h : List.Forall₂ R row other)
    (hf : ∀ a b, R a b → f a = g b) : row.map f = other.map g := by
  induction h with
  | nil => rfl
  | cons hab h ih => rw [List.map_cons, List.map_cons, hf _ _ hab, ih]

theorem filterMap_eq_of_forall₂ {f : α → Option γ} {g : β → Option γ}
    (h : List.Forall₂ R row other) (hf : ∀ a b, R a b → f a = g b) :
    row.filterMap f = other.filterMap g := by
  induction h with
  | nil => rfl
  | cons hab h ih => rw [List.filterMap_cons, List.filterMap_cons, hf _ _ hab, ih]

/-- What is read as the same but for `d` makes the same but for `e`. -/
theorem map_map_eq_of_map_eq {δ : Type} {d : α → β} {f f' : α → γ} {e : γ → δ}
    {read read' : Option α} (h : read.map d = read'.map d) (g : β → δ)
    (hf : ∀ a, e (f a) = g (d a)) (hf' : ∀ a, e (f' a) = g (d a)) :
    (read.map f).map e = (read'.map f').map e := by
  have hmap : ∀ (f : α → γ) (read : Option α), (∀ a, e (f a) = g (d a)) →
      (read.map f).map e = (read.map d).map g := by
    intro f read hf
    rw [Option.map_map, Option.map_map]
    exact congrArg (Option.map · read) (funext hf)
  rw [hmap f read hf, hmap f' read' hf', h]

/-- The last elements stand side by side. -/
theorem exists_concat_of_forall₂ {front : List α} {last : α}
    (h : List.Forall₂ R (front ++ [last]) other) :
    ∃ front' last', other = front' ++ [last'] ∧ List.Forall₂ R front front' ∧ R last last' := by
  have hreverse := List.rel_reverse h
  rw [List.reverse_append, List.reverse_singleton, List.singleton_append,
    List.forall₂_cons_left_iff] at hreverse
  obtain ⟨last', front', hlast, hfront, hother⟩ := hreverse
  refine ⟨front'.reverse, last', ?_, ?_, hlast⟩
  · rw [← List.reverse_reverse other, hother, List.reverse_cons]
  · rw [← List.reverse_reverse front]
    exact List.rel_reverse hfront

end Rows

/-! ## Texts without their white space -/

namespace TypeExpr

mutual

/-- The type with no white space in the texts that are kept as they are. -/
def dense (type : TypeExpr) : TypeExpr :=
  match type with
  | .name text => .name text
  | .verbatim text => .verbatim (Name.withoutBlanks text.toList)
  | .applied base arguments => .applied (dense base) (denseAll arguments)
  | .array element dimensions => .array (dense element) dimensions
termination_by structural type

/-- The types with no white space in the texts that are kept as they are. -/
def denseAll (types : List TypeExpr) : List TypeExpr :=
  match types with
  | [] => []
  | type :: rest => dense type :: denseAll rest
termination_by structural types

end

@[simp]
theorem denseAll_eq_map (types : List TypeExpr) : denseAll types = types.map dense := by
  induction types with
  | nil => rfl
  | cons type rest ih => simp [denseAll, ih]

theorem dense_withDimensions (type : TypeExpr) (dimensions : Nat) :
    (type.withDimensions dimensions).dense = type.dense.withDimensions dimensions := by
  unfold withDimensions
  split <;> rfl

end TypeExpr

/-- The type variable with no white space in its wildcards. -/
def VariableExpr.dense (introduced : VariableExpr) : VariableExpr :=
  { introduced with bounds := introduced.bounds.map TypeExpr.dense }

/-- What a piece is, without white space. -/
def Shape.dense : Shape → Shape
  | .parens inner => .parens (inner.map Tree.dense)
  | .angles types introduced =>
    .angles (types.map TypeExpr.dense) (introduced.map VariableExpr.dense)
  | shape => shape

namespace Piece

/-! ## Pieces side by side -/

/-- The piece is a group in parentheses. -/
def isParens (piece : Piece) : Bool := piece.shape matches .parens _

theorem annotationTail_singleton (piece : Piece) :
    annotationTail [piece] = if piece.isParens then (piece.tokens, []) else ([], [piece]) := rfl

theorem annotationTail_cons_cons (piece next : Piece) (rest : List Piece) :
    annotationTail (piece :: next :: rest) =
      if piece.isParens then (piece.tokens, next :: rest)
      else if piece.isSymbol "." && next.isWord then
        (piece.tokens ++ next.tokens ++ (annotationTail rest).1, (annotationTail rest).2)
      else ([], piece :: next :: rest) := rfl

/-- The pieces are the same but for white space; words and symbols have none in them. -/
structure Resembles (first second : Piece) : Prop where
  tokens : first.tokens.map Token.dense = second.tokens.map Token.dense
  shape : first.shape.dense = second.shape.dense
  text : first.shape = .word ∨ first.shape = .symbol → first.text = second.text

/-- The rows are the same but for white space. -/
abbrev RowResembles (first second : List Piece) : Prop := List.Forall₂ Resembles first second

namespace Resembles

variable {first second : Piece} (h : first.Resembles second)

include h

/-- What looks at nothing but the shape of a piece does not look at white space. -/
theorem ask_eq {α : Type} (ask : Piece → α)
    (hask : ∀ tokens others shape, ask ⟨tokens, Shape.dense shape⟩ = ask ⟨others, shape⟩) :
    ask first = ask second := by
  obtain ⟨tokens, shape⟩ := first
  obtain ⟨others, shape'⟩ := second
  rw [← hask tokens, show shape.dense = shape'.dense from h.shape, hask tokens others]

theorem isWord_eq : first.isWord = second.isWord :=
  h.ask_eq isWord fun _ _ shape => by cases shape <;> rfl

theorem isAnnotation_eq : first.isAnnotation = second.isAnnotation :=
  h.ask_eq isAnnotation fun _ _ shape => by cases shape <;> rfl

theorem isBrackets_eq : first.isBrackets = second.isBrackets :=
  h.ask_eq isBrackets fun _ _ shape => by cases shape <;> rfl

theorem isParens_eq : first.isParens = second.isParens :=
  h.ask_eq isParens fun _ _ shape => by cases shape <;> rfl

/-- What may stand behind a type or behind the name of a parameter. -/
theorem isBehind_eq :
    (first.isBrackets || first.isAnnotation) = (second.isBrackets || second.isAnnotation) := by
  rw [h.isBrackets_eq, h.isAnnotation_eq]

theorem shape_eq_symbol_iff : first.shape = .symbol ↔ second.shape = .symbol :=
  Iff.of_eq (h.ask_eq (fun piece => piece.shape = .symbol) fun _ _ shape => by
    cases shape <;> simp [Shape.dense])

theorem text_eq (hword : first.isWord = true) : first.text = second.text := by
  refine h.text (.inl ?_)
  unfold isWord at hword
  cases hshape : first.shape <;> simp [hshape] at hword ⊢

theorem isSymbol_eq (symbol : String) : first.isSymbol symbol = second.isSymbol symbol := by
  by_cases hshape : first.shape = .symbol
  · have hsecond := h.shape_eq_symbol_iff.mp hshape
    rw [isSymbol, isSymbol, hshape, hsecond, h.text (.inr hshape)]
  · have hfirst : first.isSymbol symbol = false :=
      Bool.eq_false_iff.mpr fun hsymbol => hshape (shape_of_isSymbol hsymbol)
    have hsecond : second.isSymbol symbol = false :=
      Bool.eq_false_iff.mpr fun hsymbol =>
        hshape (h.shape_eq_symbol_iff.mpr (shape_of_isSymbol hsymbol))
    rw [hfirst, hsecond]

theorem isKeyword_eq (keyword : String) : first.isKeyword keyword = second.isKeyword keyword := by
  unfold isKeyword
  rw [← h.isWord_eq]
  cases hword : first.isWord with
  | true => rw [h.text_eq hword]
  | false => rfl

theorem isNamePart_eq : first.isNamePart = second.isNamePart := by
  by_cases hshape : first.shape = .symbol
  · have hsecond := h.shape_eq_symbol_iff.mp hshape
    simp only [isNamePart, hshape, hsecond, h.isSymbol_eq]
  · -- only a symbol is asked for its text
    have hplain : ∀ piece : Piece, piece.shape ≠ .symbol →
        piece.isNamePart = isNamePart ⟨[], piece.shape⟩ := by
      rintro ⟨tokens, shape⟩ hshape
      cases shape <;> first | rfl | exact absurd rfl hshape
    rw [hplain first hshape, hplain second (mt h.shape_eq_symbol_iff.mpr hshape)]
    exact h.ask_eq (fun piece => isNamePart ⟨[], piece.shape⟩) fun _ _ shape => by
      cases shape <;> rfl

theorem comments_eq : first.comments = second.comments := by
  have hdense : ∀ piece : Piece, piece.comments =
      ((piece.tokens.map Token.dense).head?.map Token.comments).getD [] := by
    intro piece
    unfold comments
    cases piece.tokens <;> simp
  rw [hdense, hdense, h.tokens]

end Resembles

/-! ### Readers of rows -/

namespace RowResembles

variable {first second : List Piece} (h : RowResembles first second)

include h

theorem head?_comments : first.head?.map comments = second.head?.map comments := by
  cases h with
  | nil => rfl
  | cons hpiece h => exact congrArg some hpiece.comments_eq

theorem map_dense_tokens :
    (first.flatMap tokens).map Token.dense = (second.flatMap tokens).map Token.dense := by
  rw [List.map_flatMap, List.map_flatMap, List.flatMap_def, List.flatMap_def,
    map_eq_of_forall₂ h fun _ _ hpiece => hpiece.tokens]

/-- The rows are spelled alike but for white space. -/
theorem withoutBlanks_spell :
    Name.withoutBlanks (spell first) = Name.withoutBlanks (spell second) := by
  rw [spell, spell, ← Token.withoutBlanks_spell_dense, h.map_dense_tokens,
    Token.withoutBlanks_spell_dense]

theorem parts {separator : Piece → Bool}
    (hseparator : ∀ a b : Piece, a.Resembles b → separator a = separator b) :
    List.Forall₂ RowResembles (Piece.parts separator first) (Piece.parts separator second) := by
  induction h with
  | nil => exact .cons .nil .nil
  | @cons piece other rest rest' hpiece h ih =>
    rw [Piece.parts, Piece.parts, hseparator _ _ hpiece]
    split
    · exact .cons .nil ih
    · generalize Piece.parts separator rest = parts at ih ⊢
      generalize Piece.parts separator rest' = parts' at ih ⊢
      cases ih with
      | nil => exact .cons (.cons hpiece .nil) .nil
      | cons hpart hmore => exact .cons (.cons hpiece hpart) hmore

theorem isNameRow_eq : TypeExpr.isNameRow first = TypeExpr.isNameRow second := by
  induction h with
  | nil => rfl
  | cons hpiece h ih =>
    cases h with
    | nil => rfl
    | cons hnext h =>
      rw [TypeExpr.isNameRow, TypeExpr.isNameRow, hpiece.isWord_eq, hnext.isWord_eq, ih]

omit h

theorem annotationTail {first second : List Piece} (h : RowResembles first second) :
    (annotationTail first).1.map Token.dense = (annotationTail second).1.map Token.dense ∧
      RowResembles (annotationTail first).2 (annotationTail second).2 := by
  match h with
  | .nil => exact ⟨rfl, .nil⟩
  | .cons hpiece .nil =>
    rw [annotationTail_singleton, annotationTail_singleton, hpiece.isParens_eq]
    split
    · exact ⟨hpiece.tokens, .nil⟩
    · exact ⟨rfl, .cons hpiece .nil⟩
  | .cons hpiece (.cons hnext hrest) =>
    obtain ⟨htokens, hafter⟩ := annotationTail hrest
    rw [annotationTail_cons_cons, annotationTail_cons_cons, hpiece.isParens_eq,
      hpiece.isSymbol_eq, hnext.isWord_eq]
    split
    · exact ⟨hpiece.tokens, .cons hnext hrest⟩
    · split
      · refine ⟨?_, hafter⟩
        simp only [List.map_append, hpiece.tokens, hnext.tokens, htokens]
      · exact ⟨rfl, .cons hpiece (.cons hnext hrest)⟩

theorem joinMark {mark other : Piece} (hmark : mark.Resembles other) {first second : List Piece}
    (h : RowResembles first second) :
    RowResembles (joinMark mark first) (joinMark other second) := by
  cases h with
  | nil => exact .cons hmark .nil
  | cons hname h =>
    rw [Piece.joinMark, Piece.joinMark, hname.isWord_eq, hname.isKeyword_eq]
    split
    · obtain ⟨htokens, hafter⟩ := annotationTail h
      refine .cons ⟨?_, rfl, by simp⟩ hafter
      simp only [List.map_append, hmark.tokens, hname.tokens, htokens]
    · exact .cons hmark (.cons hname h)

theorem joinAnnotations {first second : List Piece} (h : RowResembles first second) :
    RowResembles (joinAnnotations first) (joinAnnotations second) := by
  induction h with
  | nil => exact .nil
  | cons hpiece h ih =>
    rw [joinAnnotations_cons, joinAnnotations_cons, hpiece.isSymbol_eq]
    split
    · exact ih.joinMark hpiece
    · exact .cons hpiece ih

end RowResembles

end Piece

/-! ## Types -/

namespace TypeExpr

open Piece (RowResembles)

variable {first second : List Piece} (h : RowResembles first second)

include h

omit h in
theorem ofNameRow_concat (front : List Piece) (last : Piece) :
    ofNameRow (front ++ [last]) =
      match last.shape with
      | .angles types _ =>
        .applied
          (match last.comments.getLast? with
            | some comment => .verbatim comment
            | none => .name (Name.withoutBlanks (Piece.spell front))) types
      | _ => .name (Name.withoutBlanks (Piece.spell (front ++ [last]))) := by
  obtain ⟨tokens, shape⟩ := last
  unfold ofNameRow
  rw [List.getLast?_concat, List.dropLast_concat]
  cases shape <;> rfl

theorem dense_ofNameRow : (ofNameRow first).dense = (ofNameRow second).dense := by
  rcases List.eq_nil_or_concat' first with rfl | ⟨front, last, rfl⟩
  · rw [List.forall₂_nil_left_iff.mp h]
  · obtain ⟨front', last', rfl, hfront, hlast⟩ := exists_concat_of_forall₂ h
    have hspelled := h.withoutBlanks_spell
    have hbase := RowResembles.withoutBlanks_spell hfront
    have hshape := hlast.shape
    rw [ofNameRow_concat, ofNameRow_concat, hlast.comments_eq, hspelled, hbase]
    cases hfirst : last.shape with
    | angles types introduced =>
      cases hsecond : last'.shape with
      | angles types' introduced' =>
        rw [hfirst, hsecond] at hshape
        obtain ⟨htypes, -⟩ := Shape.angles.inj hshape
        simp only [dense, denseAll_eq_map, htypes]
      | _ => simp [hfirst, hsecond, Shape.dense] at hshape
    | _ =>
      cases hsecond : last'.shape with
      | angles types' introduced' => simp [hfirst, hsecond, Shape.dense] at hshape
      | _ => rfl

/-- Rows that resemble each other are read as the same type, but for the white space of a
wildcard. -/
theorem map_dense_ofPieces? : (ofPieces? first).map dense = (ofPieces? second).map dense := by
  have hrow := forall₂_dropWhile h fun _ _ hpiece => hpiece.isAnnotation_eq
  have hspelled := h.withoutBlanks_spell
  unfold ofPieces?
  generalize first.dropWhile Piece.isAnnotation = row at hrow ⊢
  generalize second.dropWhile Piece.isAnnotation = row' at hrow ⊢
  cases hrow with
  | nil => rfl
  | @cons piece other rest rest' hpiece hrest =>
    have hrow : RowResembles (piece :: rest) (other :: rest') := .cons hpiece hrest
    have hparts := forall₂_takeWhile hrow fun _ _ hpiece => hpiece.isNamePart_eq
    have hnamed := forall₂_dropWhile (List.rel_reverse hparts) fun _ _ hpiece =>
      hpiece.isAnnotation_eq
    dsimp only
    rw [hpiece.isSymbol_eq, hpiece.isWord_eq]
    generalize ((piece :: rest).takeWhile Piece.isNamePart).reverse.dropWhile
      Piece.isAnnotation = named at hnamed ⊢
    generalize ((other :: rest').takeWhile Piece.isNamePart).reverse.dropWhile
      Piece.isAnnotation = named' at hnamed ⊢
    have hsuffix : RowResembles ((piece :: rest).drop named.length)
        ((other :: rest').drop named'.length) := by
      rw [hnamed.length_eq]
      exact List.forall₂_drop _ hrow
    have hall : ((piece :: rest).drop named.length).all
          (fun piece => piece.isBrackets || piece.isAnnotation) =
        ((other :: rest').drop named'.length).all
          fun piece => piece.isBrackets || piece.isAnnotation :=
      all_eq_of_forall₂ hsuffix fun _ _ hpiece => hpiece.isBehind_eq
    have hcount := countP_eq_of_forall₂ hsuffix fun _ _ hpiece => hpiece.isBrackets_eq
    rw [RowResembles.isNameRow_eq hnamed, hall, hcount]
    split
    · simp [dense, hspelled]
    · split
      · have hnames := dense_ofNameRow (List.rel_reverse hnamed)
        simp only [Option.map_some, dense_withDimensions, hnames]
      · rfl

theorem map_dense_listOfPieces :
    (listOfPieces first).map dense = (listOfPieces second).map dense := by
  rw [listOfPieces, listOfPieces, List.map_filterMap, List.map_filterMap]
  exact filterMap_eq_of_forall₂ (h.parts fun _ _ hpiece => hpiece.isSymbol_eq ",")
    fun _ _ => map_dense_ofPieces?

omit h

theorem map_dense_boundsOfPart {first second : List Piece} (h : RowResembles first second) :
    (boundsOfPart first).map dense = (boundsOfPart second).map dense := by
  cases h with
  | nil => rfl
  | cons hpiece h =>
    have htype := map_dense_ofPieces? (List.Forall₂.cons hpiece h)
    rw [boundsOfPart, boundsOfPart, List.map_append, List.map_append, hpiece.comments_eq,
      ← Option.toList_map, ← Option.toList_map, htype]

theorem map_dense_boundsOfPieces {first second : List Piece} (h : RowResembles first second) :
    (boundsOfPieces first).map dense = (boundsOfPieces second).map dense := by
  have hmarks := forall₂_filter h fun _ _ hpiece => hpiece.isSymbol_eq "&"
  have hparts := h.parts fun _ _ hpiece => hpiece.isSymbol_eq "&"
  have hseparators := map_eq_of_forall₂ hmarks fun _ _ hpiece =>
    congrArg (List.map TypeExpr.verbatim) hpiece.comments_eq
  rw [boundsOfPieces_eq, boundsOfPieces_eq, hseparators]
  generalize Piece.parts (Piece.isSymbol · "&") first = parts at hparts ⊢
  generalize Piece.parts (Piece.isSymbol · "&") second = parts' at hparts ⊢
  cases hparts with
  | nil => rfl
  | @cons part part' more more' hpart hmore =>
    have hfirst := map_dense_boundsOfPart hpart
    have hbounds : (more.map boundsOfPart).map (List.map dense) =
        (more'.map boundsOfPart).map (List.map dense) := by
      rw [List.map_map, List.map_map]
      exact map_eq_of_forall₂ hmore fun _ _ => map_dense_boundsOfPart
    have hzip : ∀ separators bounds : List (List TypeExpr),
        (List.zipWith (· ++ ·) separators bounds).flatten.map dense =
          (List.zipWith (· ++ ·) (separators.map (List.map dense))
            (bounds.map (List.map dense))).flatten := by
      intro separators bounds
      simp [List.map_flatten, List.map_zipWith, List.zipWith_map]
    rw [List.map_cons, List.map_cons]
    dsimp only
    rw [List.map_append, List.map_append, hzip, hzip, hfirst, hbounds]

end TypeExpr

namespace VariableExpr

open Piece (RowResembles)

variable {first second : List Piece} (h : RowResembles first second)

include h

theorem map_dense_ofPieces? : (ofPieces? first).map dense = (ofPieces? second).map dense := by
  have hrow := forall₂_dropWhile h fun _ _ hpiece => hpiece.isAnnotation_eq
  unfold ofPieces?
  generalize first.dropWhile Piece.isAnnotation = row at hrow ⊢
  generalize second.dropWhile Piece.isAnnotation = row' at hrow ⊢
  cases hrow with
  | nil => rfl
  | cons hname hrest =>
    dsimp only
    rw [← hname.isWord_eq]
    split
    · next hword =>
      rw [Option.map_some, Option.map_some, dense, dense, hname.text_eq hword]
      cases hrest with
      | nil => rfl
      | cons hkeyword hbounds =>
        dsimp only
        rw [hkeyword.isKeyword_eq]
        split
        · rw [TypeExpr.map_dense_boundsOfPieces hbounds]
        · rfl
    · rfl

theorem map_dense_listOfPieces :
    (listOfPieces first).map dense = (listOfPieces second).map dense := by
  rw [listOfPieces, listOfPieces, List.map_filterMap, List.map_filterMap]
  exact filterMap_eq_of_forall₂ (h.parts fun _ _ hpiece => hpiece.isSymbol_eq ",")
    fun _ _ => map_dense_ofPieces?

end VariableExpr

namespace Piece

mutual

theorem resembles_ofTree (tree : Tree) : (ofTree tree.dense).Resembles (ofTree tree) := by
  cases tree with
  | leaf token => exact ⟨by simp [ofTree], rfl, fun _ => by simp [text, ofTree]⟩
  | group opening inner closing =>
    have hinner := rowResembles_ofTreesApart inner
    have htokens : (Tree.tokens (Tree.dense (.group opening inner closing))).map Token.dense =
        (Tree.tokens (.group opening inner closing)).map Token.dense := by
      rw [Tree.tokens_dense, List.map_map]
      exact List.map_congr_left fun token _ => token.dense_dense
    rw [Tree.dense_group] at htokens ⊢
    rw [ofTree, ofTree, Token.isSymbol_dense, Token.isSymbol_dense, Token.isSymbol_dense]
    split
    · have hpieces := hinner.joinAnnotations
      refine ⟨htokens, ?_, by simp⟩
      simp only [Shape.dense, TypeExpr.map_dense_listOfPieces hpieces,
        VariableExpr.map_dense_listOfPieces hpieces]
    · split
      · refine ⟨htokens, ?_, by simp⟩
        simp only [Shape.dense, Tree.map_dense_map_dense]
      · split
        · exact ⟨htokens, rfl, by simp⟩
        · exact ⟨htokens, rfl, by simp⟩
termination_by structural tree

theorem rowResembles_ofTreesApart (trees : List Tree) :
    RowResembles (ofTreesApart (trees.map Tree.dense)) (ofTreesApart trees) := by
  cases trees with
  | nil => exact .nil
  | cons tree rest =>
    rw [List.map_cons, ofTreesApart, ofTreesApart]
    exact .cons (resembles_ofTree tree) (rowResembles_ofTreesApart rest)
termination_by structural trees

end

/-- The pieces of a head resemble those of the head without white space. -/
theorem rowResembles_ofTrees (trees : List Tree) :
    RowResembles (ofTrees (trees.map Tree.dense)) (ofTrees trees) := by
  rw [ofTrees, ofTrees, ← Tree.map_dense_groupAngles]
  exact (rowResembles_ofTreesApart _).joinAnnotations

end Piece

end JavaSignatures.Source
