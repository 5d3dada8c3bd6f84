import JavaSignatures.Proofs.SourceWords

set_option autoImplicit false

/-!
# Texts in types that are no names

Where a type is a wildcard, and where a comment has taken the place of a type, its text is kept as
it is written.  Such a text begins with a question mark, with the `@` of an annotation or with the
slash of a comment (`Name.IsForeign`), so that it is never taken for a name.  This is followed from
the comments in front of tokens (`Token.IsProper`) through the pieces of a head to the types in the
head of a method (`Head.isProper_of_ofTrees`).
-/

namespace JavaSignatures

/-- The text is empty or begins with a character with which no name begins. -/
def Name.IsForeign (text : String) : Prop := ∀ c ∈ text.toList.head?, c ∈ ['?', '@', '/']

namespace Source

namespace Token

/-- What stands in front of the token as a comment looks like one. -/
def IsProper (token : Token) : Prop := ∀ comment ∈ token.comments, Name.IsForeign comment

theorem gap_subset_of_mem_ofLexemesAfter {gap lexemes : List Lexeme} {token : Token}
    (h : token ∈ ofLexemesAfter gap lexemes) : token.gap ⊆ gap ++ lexemes := by
  induction lexemes generalizing gap with
  | nil => exact absurd h (by simp [ofLexemesAfter])
  | cons lexeme rest ih =>
    rw [ofLexemesAfter] at h
    split at h
    · exact fun other hother => by simpa [or_left_comm, or_assoc] using ih h hother
    · rcases List.mem_cons.mp h with rfl | h
      · exact fun other hother => List.mem_append_left _ (List.mem_reverse.mp hother)
      · exact fun other hother =>
          List.mem_append_right _ (List.mem_cons_of_mem _ (by simpa using ih h hother))

theorem isProper_of_mem_ofSource {source : List Char} {token : Token}
    (h : token ∈ ofSource source) : token.IsProper := by
  intro comment hcomment
  obtain ⟨lexeme, hlexeme, rfl⟩ := List.mem_map.mp hcomment
  obtain ⟨hgap, hkind⟩ := List.mem_filter.mp hlexeme
  have hmem := gap_subset_of_mem_ofLexemesAfter h hgap
  rw [List.nil_append] at hmem
  simp [Name.IsForeign, Lexeme.head?_of_isComment hmem hkind]

/-- More tokens behind a stretch do not change how its spelling begins. -/
theorem head?_spell_append {first second : List Token} {c : Char}
    (h : (spell first).head? = some c) : (spell (first ++ second)).head? = some c := by
  cases first with
  | nil => exact absurd h (by simp)
  | cons token rest =>
    rw [spell] at h
    rw [List.cons_append, spell, List.flatMap_append, ← List.append_assoc, List.head?_append, h]
    rfl

end Token

/-! ## Types -/

namespace TypeExpr

mutual

/-- The texts in the type that are no names look like none. -/
def IsProper (type : TypeExpr) : Prop :=
  match type with
  | .name _ => True
  | .verbatim text => Name.IsForeign text
  | .applied base arguments => IsProper base ∧ AreProper arguments
  | .array element _ => IsProper element
termination_by structural type

/-- The texts in the types that are no names look like none. -/
def AreProper (types : List TypeExpr) : Prop :=
  match types with
  | [] => True
  | type :: rest => IsProper type ∧ AreProper rest
termination_by structural types

end

theorem areProper_iff {types : List TypeExpr} :
    AreProper types ↔ ∀ type ∈ types, type.IsProper := by
  induction types with
  | nil => simp [AreProper]
  | cons type rest ih => simp [AreProper, ih]

theorem IsProper.withDimensions {type : TypeExpr} (h : type.IsProper) (dimensions : Nat) :
    (type.withDimensions dimensions).IsProper := by
  unfold TypeExpr.withDimensions
  split
  · exact h
  · rwa [IsProper]

end TypeExpr

/-! ## Pieces -/

namespace Piece

/-- What stands in the piece as a comment, as an annotation or as a type looks like one. -/
structure IsProper (piece : Piece) : Prop where
  comment : ∀ comment ∈ piece.comments, Name.IsForeign comment
  mark : piece.isAnnotation = true → (Token.spell piece.tokens).head? = some '@'
  types : ∀ types introduced, piece.shape = .angles types introduced →
    TypeExpr.AreProper types
  inner : ∀ trees, piece.shape = .parens trees → ∀ token ∈ Tree.tokensOf trees, token.IsProper

theorem head?_of_isSymbol {piece : Piece} {symbol : Char}
    (h : piece.isSymbol (String.singleton symbol) = true) :
    (Token.spell piece.tokens).head? = some symbol := by
  unfold isSymbol at h
  rw [Bool.and_eq_true, beq_iff_eq] at h
  have hspell := congrArg String.toList h.2
  rw [text, String.toList_ofList, String.toList_singleton] at hspell
  rw [hspell]
  rfl

theorem spell_cons (piece : Piece) (pieces : List Piece) :
    spell (piece :: pieces) = Token.spell (piece.tokens ++ pieces.flatMap tokens) := by
  rw [spell, List.flatMap_cons]

theorem mem_of_mem_parts {separator : Piece → Bool} {pieces part : List Piece}
    (h : part ∈ parts separator pieces) {piece : Piece} (hpiece : piece ∈ part) :
    piece ∈ pieces := by
  induction pieces generalizing part with
  | nil =>
    obtain rfl := List.mem_singleton.mp h
    exact absurd hpiece (List.not_mem_nil)
  | cons first rest ih =>
    rw [parts] at h
    split at h
    · rcases List.mem_cons.mp h with rfl | h
      · exact absurd hpiece (List.not_mem_nil)
      · exact List.mem_cons_of_mem _ (ih h hpiece)
    · split at h
      · next hnil =>
        obtain rfl := List.mem_singleton.mp h
        exact List.mem_cons.mpr (Or.inl (List.mem_singleton.mp hpiece))
      · next other more hparts =>
        rcases List.mem_cons.mp h with rfl | h
        · rcases List.mem_cons.mp hpiece with rfl | hpiece
          · exact List.mem_cons_self ..
          · exact List.mem_cons_of_mem _ (ih (hparts ▸ List.mem_cons_self ..) hpiece)
        · exact List.mem_cons_of_mem _ (ih (hparts ▸ List.mem_cons_of_mem _ h) hpiece)

/-- An annotation begins like its mark. -/
theorem isProper_joinMark {mark : Piece} {rest : List Piece} (hmark : mark.IsProper)
    (hat : mark.isSymbol "@" = true) (hrest : ∀ piece ∈ rest, piece.IsProper) :
    ∀ piece ∈ joinMark mark rest, piece.IsProper := by
  intro piece hpiece
  unfold joinMark at hpiece
  split at hpiece
  · obtain rfl := List.mem_singleton.mp hpiece
    exact hmark
  · next name more =>
    have hname := hrest name (List.mem_cons_self ..)
    split at hpiece
    · rcases List.mem_cons.mp hpiece with rfl | hpiece
      · have hspell : (Token.spell mark.tokens).head? = some '@' := head?_of_isSymbol hat
        refine ⟨?_, fun _ => ?_, by simp, by simp⟩
        · have hcomments := hmark.comment
          unfold comments at hcomments ⊢
          dsimp only
          cases htokens : mark.tokens with
          | nil => simp [htokens] at hspell
          | cons token others => simpa [htokens] using hcomments
        · rw [List.append_assoc]
          exact Token.head?_spell_append hspell
      · exact hrest piece (List.mem_cons_of_mem _ (mem_of_annotationTail _ hpiece))
    · rcases List.mem_cons.mp hpiece with rfl | hpiece
      · exact hmark
      · exact hrest piece hpiece

theorem isProper_joinAnnotations {pieces : List Piece} (h : ∀ piece ∈ pieces, piece.IsProper) :
    ∀ piece ∈ joinAnnotations pieces, piece.IsProper := by
  induction pieces with
  | nil => simp [joinAnnotations]
  | cons first rest ih =>
    obtain ⟨hfirst, hrest⟩ := List.forall_mem_cons.mp h
    have hstep : joinAnnotations (first :: rest) =
        if first.isSymbol "@" then joinMark first (joinAnnotations rest)
        else first :: joinAnnotations rest := rfl
    rw [hstep]
    split
    · next hat => exact isProper_joinMark hfirst hat (ih hrest)
    · exact List.forall_mem_cons.mpr ⟨hfirst, ih hrest⟩

end Piece

/-! ## Reading types -/

namespace TypeExpr

open Piece (IsProper)

variable {pieces : List Piece}

theorem isProper_ofNameRow (h : ∀ piece ∈ pieces, piece.IsProper) :
    (ofNameRow pieces).IsProper := by
  unfold ofNameRow
  split
  · next tokens types introduced hlast =>
    have hpiece := h _ (List.mem_of_getLast? hlast)
    refine ⟨?_, hpiece.types types introduced rfl⟩
    split
    · next comment hcomment => exact hpiece.comment comment (List.mem_of_getLast? hcomment)
    · trivial
  · trivial

/-- A wildcard begins with its question mark or with an annotation. -/
theorem isForeign_spell (h : ∀ piece ∈ pieces, piece.IsProper) {first : Piece} {rest : List Piece}
    (hdrop : pieces.dropWhile Piece.isAnnotation = first :: rest)
    (hfirst : first.isSymbol "?" = true) : Name.IsForeign (String.ofList (Piece.spell pieces)) := by
  unfold Name.IsForeign
  rw [String.toList_ofList]
  cases pieces with
  | nil => exact absurd hdrop (by simp)
  | cons piece pieces =>
    rw [Piece.spell_cons]
    rw [List.dropWhile_cons] at hdrop
    split at hdrop
    · next hannotation =>
      have hpiece := (h piece (List.mem_cons_self ..)).mark hannotation
      simp [Token.head?_spell_append hpiece]
    · obtain ⟨rfl, -⟩ := List.cons.inj hdrop
      have hquestion : (Token.spell piece.tokens).head? = some '?' := Piece.head?_of_isSymbol hfirst
      simp [Token.head?_spell_append hquestion]

theorem isProper_of_ofPieces? (h : ∀ piece ∈ pieces, piece.IsProper) {type : TypeExpr}
    (htype : ofPieces? pieces = some type) : type.IsProper := by
  unfold ofPieces? at htype
  split at htype
  · exact absurd htype (by simp)
  · next first rest hdrop =>
    split at htype
    · next hfirst =>
      obtain rfl := Option.some.inj htype
      exact isForeign_spell h hdrop hfirst
    · dsimp only at htype
      split at htype
      · obtain rfl := Option.some.inj htype
        refine (isProper_ofNameRow fun piece hpiece => h piece ?_).withDimensions _
        have hrow := (List.dropWhile_suffix _).subset (List.mem_reverse.mp hpiece)
        have hnamed := (List.takeWhile_prefix _).subset (List.mem_reverse.mp hrow)
        exact (List.dropWhile_suffix Piece.isAnnotation).subset (hdrop ▸ hnamed)
      · exact absurd htype (by simp)

theorem areProper_listOfPieces (h : ∀ piece ∈ pieces, piece.IsProper) :
    AreProper (listOfPieces pieces) := by
  rw [areProper_iff]
  intro type htype
  obtain ⟨part, hpart, hread⟩ := List.mem_filterMap.mp htype
  refine isProper_of_ofPieces? (fun piece hpiece => ?_) hread
  exact h piece (Piece.mem_of_mem_parts hpart hpiece)

/-- The bounds that stand between two separators, the comments in front of them included. -/
def boundsOfPart : List Piece → List TypeExpr
  | [] => []
  | first :: rest => first.comments.map .verbatim ++ (ofPieces? (first :: rest)).toList

theorem boundsOfPieces_eq (pieces : List Piece) :
    boundsOfPieces pieces =
      match (Piece.parts (Piece.isSymbol · "&") pieces).map boundsOfPart with
      | [] => []
      | first :: more =>
        first ++ (List.zipWith (· ++ ·) ((pieces.filter (Piece.isSymbol · "&")).map fun piece =>
          piece.comments.map TypeExpr.verbatim) more).flatten := by
  have hpart : boundsOfPart = fun pieces : List Piece =>
      match pieces with
      | [] => []
      | first :: _ => first.comments.map .verbatim ++ (ofPieces? pieces).toList := by
    funext pieces
    cases pieces <;> rfl
  rw [hpart]
  rfl

theorem isProper_of_mem_boundsOfPart (h : ∀ piece ∈ pieces, piece.IsProper) :
    ∀ type ∈ boundsOfPart pieces, type.IsProper := by
  intro type htype
  cases pieces with
  | nil => exact absurd htype (List.not_mem_nil)
  | cons first rest =>
    rcases List.mem_append.mp htype with hcomment | hread
    · obtain ⟨comment, hmem, rfl⟩ := List.mem_map.mp hcomment
      exact (h first (List.mem_cons_self ..)).comment comment hmem
    · exact isProper_of_ofPieces? h (Option.mem_toList.mp hread)

/-- The bounds of a type variable, with the comments between them. -/
theorem areProper_boundsOfPieces (h : ∀ piece ∈ pieces, piece.IsProper) :
    AreProper (boundsOfPieces pieces) := by
  have hparts : ∀ bounds ∈ (Piece.parts (Piece.isSymbol · "&") pieces).map boundsOfPart,
      ∀ type ∈ bounds, type.IsProper := by
    intro bounds hbounds
    obtain ⟨part, hpart, rfl⟩ := List.mem_map.mp hbounds
    exact isProper_of_mem_boundsOfPart fun piece hpiece =>
      h piece (Piece.mem_of_mem_parts hpart hpiece)
  rw [areProper_iff, boundsOfPieces_eq]
  split
  · simp
  · next first more hmap =>
    rw [hmap, List.forall_mem_cons] at hparts
    refine List.forall_mem_append.mpr ⟨hparts.1, fun type htype => ?_⟩
    obtain ⟨row, hrow, htype⟩ := List.mem_flatten.mp htype
    -- each further bound stands behind the comments in front of its separator
    rw [← List.map_uncurry_zip_eq_zipWith] at hrow
    obtain ⟨⟨comments, bounds⟩, hpair, rfl⟩ := List.mem_map.mp hrow
    obtain ⟨hcomments, hbounds⟩ := List.of_mem_zip hpair
    rcases List.mem_append.mp htype with hcomment | htype
    · obtain ⟨piece, hpiece, rfl⟩ := List.mem_map.mp hcomments
      obtain ⟨comment, hmem, rfl⟩ := List.mem_map.mp hcomment
      exact (h piece (List.mem_filter.mp hpiece).1).comment comment hmem
    · exact hparts.2 bounds hbounds type htype

end TypeExpr

namespace Piece

mutual

theorem isProper_ofTree (tree : Tree) (h : ∀ token ∈ tree.tokens, token.IsProper) :
    (ofTree tree).IsProper := by
  cases tree with
  | leaf token =>
    have hcomment := h token (by simp [Tree.tokens])
    unfold ofTree
    refine ⟨hcomment, fun hannotation => ?_, fun types introduced hshape => ?_,
      fun trees hshape => ?_⟩
    all_goals cases hkind : token.lexeme.kind <;> simp_all [Piece.isAnnotation]
  | group opening inner closing =>
    have hopening := h opening (by simp [Tree.tokens])
    have hinner : ∀ token ∈ Tree.tokensOf inner, token.IsProper := fun token htoken =>
      h token (by simp [Tree.tokens, htoken])
    have hpieces := isProper_ofTreesApart inner hinner
    unfold ofTree
    dsimp only
    split
    · refine ⟨hopening, by simp [Piece.isAnnotation], fun types introduced hshape => ?_, by simp⟩
      obtain ⟨rfl, -⟩ := Shape.angles.inj hshape
      exact TypeExpr.areProper_listOfPieces (isProper_joinAnnotations hpieces)
    · split
      · refine ⟨hopening, by simp [Piece.isAnnotation], by simp, fun trees hshape => ?_⟩
        obtain rfl := Shape.parens.inj hshape
        exact hinner
      · split
        · exact ⟨hopening, by simp [Piece.isAnnotation], by simp, by simp⟩
        · exact ⟨hopening, by simp [Piece.isAnnotation], by simp, by simp⟩
termination_by structural tree

theorem isProper_ofTreesApart (trees : List Tree)
    (h : ∀ token ∈ Tree.tokensOf trees, token.IsProper) :
    ∀ piece ∈ ofTreesApart trees, piece.IsProper := by
  cases trees with
  | nil => simp [ofTreesApart]
  | cons tree rest =>
    rw [Tree.tokensOf, List.forall_mem_append] at h
    rw [ofTreesApart]
    exact List.forall_mem_cons.mpr
      ⟨isProper_ofTree tree h.1, isProper_ofTreesApart rest h.2⟩
termination_by structural trees

end

theorem isProper_ofTrees {trees : List Tree} (h : ∀ token ∈ Tree.tokensOf trees, token.IsProper) :
    ∀ piece ∈ ofTrees trees, piece.IsProper := by
  rw [← Tree.tokensOf_groupAngles] at h
  exact isProper_joinAnnotations (isProper_ofTreesApart _ h)

end Piece

/-! ## Heads of methods -/

namespace ParameterExpr

variable {pieces : List Piece} {parameter : ParameterExpr}

theorem isProper_of_ofSpread? {hasModifiers : Bool} {declarator : List Piece}
    (h : ∀ piece ∈ pieces, piece.IsProper)
    (hparameter : ofSpread? hasModifiers pieces declarator = some parameter) :
    parameter.type.IsProper := by
  unfold ofSpread? at hparameter
  obtain ⟨name, -, hparameter⟩ := Option.bind_eq_some_iff.mp hparameter
  obtain ⟨type, htype, hparameter⟩ := Option.bind_eq_some_iff.mp hparameter
  split at hparameter
  · obtain rfl := Option.some.inj hparameter
    rcases Option.or_eq_some_iff.mp htype with hverbatim | ⟨-, hpieces⟩
    · obtain ⟨comment, hcomment, rfl⟩ := Option.map_eq_some_iff.mp hverbatim
      clear hverbatim htype
      split at hcomment
      · obtain ⟨comments, hcomments, hhead⟩ := Option.bind_eq_some_iff.mp hcomment
        obtain ⟨first, hfirst, rfl⟩ := Option.map_eq_some_iff.mp hcomments
        exact (h first (List.mem_of_mem_head? hfirst)).comment comment (List.mem_of_mem_head? hhead)
      · exact absurd hcomment (by simp)
    · exact TypeExpr.isProper_of_ofPieces? h hpieces
  · exact absurd hparameter (by simp)

theorem isProper_of_ofSingle? (h : ∀ piece ∈ pieces, piece.IsProper)
    (hparameter : ofSingle? pieces = some parameter) : parameter.type.IsProper := by
  unfold ofSingle? at hparameter
  dsimp only at hparameter
  split at hparameter
  · exact absurd hparameter (by simp)
  · next name type hdrop =>
    split at hparameter
    · obtain ⟨read, hread, rfl⟩ := Option.map_eq_some_iff.mp hparameter
      refine .withDimensions (TypeExpr.isProper_of_ofPieces? (fun piece hpiece => ?_) hread) _
      apply h piece
      have hrest := List.mem_cons_of_mem name (List.mem_reverse.mp hpiece)
      rw [← hdrop] at hrest
      exact List.mem_reverse.mp ((List.dropWhile_suffix _).subset hrest)
    · exact absurd hparameter (by simp)

theorem isProper_of_ofPieces? (h : ∀ piece ∈ pieces, piece.IsProper)
    (hparameter : ofPieces? pieces = some parameter) : parameter.type.IsProper := by
  have hrest : ∀ piece ∈ pieces.dropWhile Modifiers.isModifier, piece.IsProper :=
    fun piece hpiece => h piece ((List.dropWhile_suffix _).subset hpiece)
  unfold ofPieces? at hparameter
  dsimp only at hparameter
  split at hparameter
  · exact isProper_of_ofSpread?
      (fun piece hpiece => hrest piece ((List.takeWhile_prefix _).subset hpiece)) hparameter
  · exact isProper_of_ofSingle? hrest hparameter

theorem isProper_of_mem_listOfTrees {trees : List Tree}
    (h : ∀ token ∈ Tree.tokensOf trees, token.IsProper)
    (hparameter : parameter ∈ listOfTrees trees) : parameter.type.IsProper := by
  obtain ⟨part, hpart, hread⟩ := List.mem_filterMap.mp hparameter
  refine isProper_of_ofPieces? (fun piece hpiece => ?_) hread
  exact Piece.isProper_ofTrees h piece (Piece.mem_of_mem_parts hpart hpiece)

end ParameterExpr

/-- The texts in the types of the head that are no names look like none. -/
def MethodHead.IsProper (head : MethodHead) : Prop :=
  head.result.IsProper ∧ ∀ parameter ∈ head.parameters, parameter.type.IsProper

namespace Head

theorem parens_of_cutAtParens? {pieces before after : List Piece} {inner : List Tree}
    (h : cutAtParens? pieces = some (before, inner, after)) :
    ∃ piece ∈ pieces, piece.shape = .parens inner := by
  induction pieces generalizing before with
  | nil => exact absurd h (by simp [cutAtParens?])
  | cons first rest ih =>
    rw [cutAtParens?.eq_def] at h
    split at h
    · exact absurd h (by simp)
    · next tokens trees rest' heq =>
      obtain ⟨rfl, rfl⟩ := List.cons.inj heq
      obtain ⟨-, rfl, -⟩ := by simpa using h
      exact ⟨_, List.mem_cons_self .., rfl⟩
    · next other rest' hshape heq =>
      obtain ⟨rfl, rfl⟩ := List.cons.inj heq
      obtain ⟨⟨more, inner', after'⟩, hrest, hcut⟩ := Option.map_eq_some_iff.mp h
      obtain ⟨-, rfl, rfl⟩ := by simpa using hcut
      obtain ⟨piece, hpiece, hparens⟩ := ih hrest
      exact ⟨piece, List.mem_cons_of_mem _ hpiece, hparens⟩

theorem isProper_of_methodHead? {hasBlock : Bool} {comment : Option String} {modifiers : Modifiers}
    {pieces : List Piece} (hpieces : ∀ piece ∈ pieces, piece.IsProper) {head : MethodHead}
    (h : methodHead? hasBlock comment modifiers pieces = some head) : head.IsProper := by
  have hnone : (TypeExpr.verbatim "").IsProper := by
    rw [TypeExpr.IsProper]
    simp [Name.IsForeign]
  have hrow : ∀ piece ∈ (leadingVariables pieces).2, piece.IsProper :=
    fun piece hpiece => hpieces piece (mem_of_leadingVariables hpiece)
  obtain ⟨-, hcases⟩ := cases_of_methodHead? h
  rcases hcases with ⟨-, hresult, hparameters⟩ | ⟨before, inner, after, hcut, hparameters, hcases⟩
  · rw [MethodHead.IsProper, hresult, hparameters]
    exact ⟨hnone, by simp⟩
  · obtain ⟨parens, hparens, hshape⟩ := parens_of_cutAtParens? hcut
    rw [MethodHead.IsProper, hparameters]
    constructor
    · rcases hcases with ⟨-, hresult⟩ | ⟨name, -, -, -, type, dimensions, htype, hresult⟩
      · rw [hresult]
        exact hnone
      · rw [hresult]
        apply TypeExpr.IsProper.withDimensions
        apply TypeExpr.isProper_of_ofPieces? _ htype
        intro piece hpiece
        exact hrow piece (mem_of_cutAtParens? hcut ((List.dropLast_sublist _).subset hpiece))
    · intro parameter hparameter
      exact ParameterExpr.isProper_of_mem_listOfTrees ((hrow parens hparens).inner inner hshape)
        hparameter

/-- The head of a method that is read from proper tokens is proper. -/
theorem isProper_of_ofTrees {hasBlock : Bool} {trees : List Tree}
    (htokens : ∀ token ∈ Tree.tokensOf trees, token.IsProper) {head : MethodHead}
    (h : ofTrees hasBlock trees = .method head) : head.IsProper := by
  obtain ⟨comment, modifiers, row, hrow, hhead⟩ := exists_methodHead?_of_ofTrees h
  apply isProper_of_methodHead? _ hhead
  intro piece hpiece
  exact Piece.isProper_ofTrees htokens piece (hrow hpiece)

end Head

end Source

end JavaSignatures
