import JavaSignatures.Proofs.BoundNames
import JavaSignatures.Proofs.Lexing

set_option autoImplicit false

/-!
# Words that names begin with

Only the first part of a name is ever looked up among the imports, and only if it is an identifier.
Such a first part is a word of the source text by itself: no name of a type begins with an
identifier that is put together from several tokens or that stands in a comment
(`Head.beginsIn_texts`).  The reason is what can follow the first word in the row of pieces that a
name is read from (`TypeExpr.beginsIn_spell`): a period, an annotation, a list in angle brackets or
a comment, all of which begin with a character that no identifier has.
-/

namespace JavaSignatures

/-! ## The first part of a name -/

namespace Name

open Character (isNamePart)

/-- The text up to its first period. -/
def firstPart (text : String) : String := String.ofList (text.toList.takeWhile (· != '.'))

/-- The first part of the text, if it is an identifier at all, is one of the words. -/
def BeginsIn (words : List String) (text : String) : Prop :=
  isSimple (firstPart text) = true → firstPart text ∈ words

variable {words : List String}

/-- A word and something behind it that does not go on with it. -/
theorem beginsIn_append {word more : List Char} (hword : '.' ∉ word)
    (hmore : ∀ c ∈ more.head?, isNamePart c = false) (hmem : String.ofList word ∈ words) :
    BeginsIn words (String.ofList (word ++ more)) := by
  intro hsimple
  have hpart : firstPart (String.ofList (word ++ more)) =
      String.ofList (word ++ more.takeWhile (· != '.')) := by
    rw [firstPart, String.toList_ofList, List.takeWhile_append_of_pos]
    exact fun c hc => bne_iff_ne.mpr fun h => hword (h ▸ hc)
  rw [hpart] at hsimple ⊢
  cases more with
  | nil => simpa using hmem
  | cons c rest =>
    by_cases hperiod : c = '.'
    · simpa [hperiod] using hmem
    · -- what goes on in the first part would be a character of an identifier
      have hc : c ∈ (String.ofList (word ++ (c :: rest).takeWhile (· != '.'))).toList := by
        simp [hperiod]
      have hname := (isNamePart_of_isSimple hsimple).2 c hc
      rw [hmore c rfl] at hname
      exact absurd hname Bool.false_ne_true

/-- A text that is no name has no identifier in front. -/
theorem IsForeign.beginsIn {text : String} (h : IsForeign text) : BeginsIn words text := by
  intro hsimple
  have hnone : isSimple (firstPart text) = false := by
    apply And.left
    apply IsForeign.not_name
    intro c hc
    rw [firstPart, String.toList_ofList] at hc
    apply h
    cases htext : text.toList with
    | nil => simp [htext] at hc
    | cons d rest =>
      rw [htext, List.takeWhile_cons] at hc
      split at hc
      · exact hc
      · exact absurd hc (by simp)
  rw [hnone] at hsimple
  exact absurd hsimple Bool.false_ne_true

end Name

namespace Source

open Name (BeginsIn)
open Character (isBlank isNamePart)

/-! ## Tokens -/

namespace Token

/-- The words among tokens. -/
def words (tokens : List Token) : List String := (tokens.filter isWord).map text

theorem mem_words {tokens : List Token} {token : Token} (h : token ∈ tokens)
    (hword : token.isWord = true) : token.text ∈ words tokens :=
  List.mem_map_of_mem (List.mem_filter.mpr ⟨h, hword⟩)

/-- Only white space and comments stand in front of a token. -/
theorem isTrivia_of_mem_gap {gap lexemes : List Lexeme}
    (hgap : ∀ lexeme ∈ gap, lexeme.isTrivia = true) {token : Token}
    (h : token ∈ ofLexemesAfter gap lexemes) : ∀ lexeme ∈ token.gap, lexeme.isTrivia = true := by
  induction lexemes generalizing gap with
  | nil => exact absurd h (by simp [ofLexemesAfter])
  | cons lexeme rest ih =>
    rw [ofLexemesAfter] at h
    split at h
    · next htrivia => exact ih (List.forall_mem_cons.mpr ⟨htrivia, hgap⟩) h
    · rcases List.mem_cons.mp h with rfl | h
      · simpa using hgap
      · exact ih (by simp) h

/-- Without its white space, what stands in front of a token begins with a comment. -/
theorem head?_gap {source : List Char} {token : Token} (h : token ∈ ofSource source) :
    ∀ c ∈ ((token.gap.flatMap Lexeme.text).filter fun c => !isBlank c).head?, c = '/' := by
  have htrivia := isTrivia_of_mem_gap (by simp) h
  have hsubset := gap_subset_of_mem_ofLexemesAfter h
  rw [List.nil_append] at hsubset
  generalize token.gap = gap at htrivia hsubset
  induction gap with
  | nil => simp
  | cons lexeme rest ih =>
    obtain ⟨hlexeme, hrest⟩ := List.forall_mem_cons.mp htrivia
    obtain ⟨hmem, hmore⟩ := List.cons_subset.mp hsubset
    rw [List.flatMap_cons, List.filter_append]
    by_cases hblank : lexeme.kind = .blank
    · have hnone : lexeme.text.filter (fun c => !isBlank c) = [] := by
        refine List.filter_eq_nil_iff.mpr fun c hc => ?_
        simp [Lexeme.isBlank_of_isGap (Lexeme.isGap_of_mem_lexemes hmem hblank c hc)]
      rw [hnone, List.nil_append]
      exact ih hrest hmore
    · have hcomment : lexeme.isComment = true := by simp [Lexeme.isComment, hlexeme, hblank]
      have hslash := Lexeme.head?_of_isComment hmem hcomment
      cases htext : lexeme.text with
      | nil => simp [htext] at hslash
      | cons c more =>
        obtain rfl : c = '/' := by simpa [htext] using hslash
        have hshown : isBlank '/' = false := by decide
        simp [hshown]

theorem not_isBlank_of_isWordPart {c : Char} (h : Lexeme.isWordPart c = true) :
    isBlank c = false := by
  rw [Bool.eq_false_iff]
  intro hblank
  have hpart := Character.not_isIdentifierPart_of_isBlank hblank
  rw [Lexeme.isWordPart, hpart, Bool.false_or, beq_iff_eq] at h
  rw [h] at hblank
  exact absurd hblank (by decide)

end Token

/-! ## Types -/

namespace TypeExpr

mutual

/-- The texts that stand in the type, at any depth. -/
def texts (type : TypeExpr) : List String :=
  match type with
  | .name text => [text]
  | .verbatim text => [text]
  | .applied base arguments => texts base ++ textsOf arguments
  | .array element _ => texts element
termination_by structural type

/-- The texts that stand in the types. -/
def textsOf (types : List TypeExpr) : List String :=
  match types with
  | [] => []
  | type :: rest => texts type ++ textsOf rest
termination_by structural types

end

theorem textsOf_eq_flatMap (types : List TypeExpr) : textsOf types = types.flatMap texts := by
  induction types with
  | nil => rfl
  | cons type rest ih => rw [textsOf, ih, List.flatMap_cons]

@[simp]
theorem texts_withDimensions (type : TypeExpr) (dimensions : Nat) :
    (type.withDimensions dimensions).texts = type.texts := by
  unfold withDimensions
  split
  · rfl
  · rw [texts]

end TypeExpr

/-! ## Pieces -/

/-- What a piece has from the source: its first token, the word that it is, and in a list of types
first parts of names that are words. -/
structure Piece.IsFrom (tokens : List Token) (piece : Piece) : Prop where
  first : ∃ token ∈ tokens, ∃ rest, piece.tokens = token :: rest
  word : piece.isWord = true → ∃ token, token.isWord = true ∧ piece.tokens = [token]
  angles : ∀ types introduced, piece.shape = .angles types introduced →
    (Token.spell piece.tokens).head? = some '<' ∧
      ∀ text ∈ TypeExpr.textsOf types, BeginsIn (Token.words tokens) text
  inner : ∀ trees, piece.shape = .parens trees → Tree.tokensOf trees ⊆ tokens

/-- The piece is from the source, and what stands in it as a comment looks like one. -/
def Piece.IsSound (tokens : List Token) (piece : Piece) : Prop :=
  piece.IsFrom tokens ∧ piece.IsProper

section Source

variable {source : List Char} {tokens : List Token}
  (hlexed : tokens ⊆ Token.ofSource source)

namespace Piece

theorem isFrom_joinMark {mark : Piece} {rest : List Piece} (hmark : mark.IsFrom tokens)
    (hrest : ∀ piece ∈ rest, piece.IsFrom tokens) :
    ∀ piece ∈ joinMark mark rest, piece.IsFrom tokens := by
  intro piece hpiece
  unfold joinMark at hpiece
  split at hpiece
  · obtain rfl := List.mem_singleton.mp hpiece
    exact hmark
  · next name more =>
    split at hpiece
    · rcases List.mem_cons.mp hpiece with rfl | hpiece
      · obtain ⟨token, htoken, others, htokens⟩ := hmark.first
        refine ⟨⟨token, htoken, ?_⟩, by simp [isWord], by simp, by simp⟩
        exact ⟨_, by rw [htokens, List.cons_append, List.cons_append]⟩
      · exact hrest piece (List.mem_cons_of_mem _ (mem_of_annotationTail _ hpiece))
    · rcases List.mem_cons.mp hpiece with rfl | hpiece
      · exact hmark
      · exact hrest piece hpiece

theorem isFrom_joinAnnotations {pieces : List Piece} (h : ∀ piece ∈ pieces, piece.IsFrom tokens) :
    ∀ piece ∈ joinAnnotations pieces, piece.IsFrom tokens := by
  induction pieces with
  | nil => simp [joinAnnotations]
  | cons first rest ih =>
    obtain ⟨hfirst, hrest⟩ := List.forall_mem_cons.mp h
    have hstep : joinAnnotations (first :: rest) =
        if first.isSymbol "@" then joinMark first (joinAnnotations rest)
        else first :: joinAnnotations rest := rfl
    rw [hstep]
    split
    · exact isFrom_joinMark hfirst (ih hrest)
    · exact List.forall_mem_cons.mpr ⟨hfirst, ih hrest⟩

end Piece

/-! ## Reading types -/

namespace TypeExpr

variable {pieces : List Piece}

/-- What can follow a word in a name begins with no character of an identifier. -/
theorem head?_of_isNamePart {next : Piece} (hnext : next.IsSound tokens)
    (hname : next.isNamePart = true) (hword : next.isWord = false) :
    ∃ c, (Token.spell next.tokens).head? = some c ∧ isNamePart c = false ∧ isBlank c = false := by
  have hperiod : isNamePart '.' = false ∧ isBlank '.' = false := by decide
  have hat : isNamePart '@' = false ∧ isBlank '@' = false := by decide
  have hangle : isNamePart '<' = false ∧ isBlank '<' = false := by decide
  have hdotted : next.isSymbol "." = true →
      ∃ c, (Token.spell next.tokens).head? = some c ∧ isNamePart c = false ∧ isBlank c = false :=
    fun hsymbol => ⟨'.', Piece.head?_of_isSymbol hsymbol, hperiod⟩
  unfold Piece.isNamePart at hname
  unfold Piece.isWord at hword
  cases hshape : next.shape with
  | word => simp [hshape] at hword
  | annotationMark => exact ⟨'@', hnext.2.mark (by simp [Piece.isAnnotation, hshape]), hat⟩
  | angles types introduced => exact ⟨'<', (hnext.1.angles types introduced hshape).1, hangle⟩
  | brackets | parens inner | symbol | other =>
    rw [hshape] at hname
    exact hdotted hname

include hlexed in
/-- Between the first word of a row and what can follow it in a name no identifier goes on. -/
theorem beginsIn_spell {first : Piece} {rest : List Piece} (hword : first.isWord = true)
    (hpieces : ∀ piece ∈ first :: rest, piece.IsSound tokens)
    (hnext : ∀ next ∈ rest.head?, next.isNamePart = true ∧ next.isWord = false) :
    BeginsIn (Token.words tokens)
      (Name.withoutBlanks (Piece.spell (first :: rest))) := by
  obtain ⟨hfirst, hrest⟩ := List.forall_mem_cons.mp hpieces
  obtain ⟨token, hisWord, htokens⟩ := hfirst.1.word hword
  obtain ⟨found, hsource, others, hfound⟩ := hfirst.1.first
  obtain ⟨rfl, -⟩ := List.cons.inj (htokens.symm.trans hfound)
  have hpart : ∀ c ∈ token.lexeme.text, Lexeme.isWordPart c = true := by
    have htext := Token.isWordPart_of_mem_ofSource (hlexed hsource) hisWord
    rwa [Token.text, String.toList_ofList] at htext
  have hspell : Piece.spell (first :: rest) =
      token.lexeme.text ++ (rest.flatMap Piece.tokens).flatMap Token.full := by
    rw [Piece.spell_cons, htokens]
    rfl
  have hshown : token.lexeme.text.filter (fun c => !isBlank c) = token.lexeme.text := by
    refine List.filter_eq_self.mpr fun c hc => ?_
    simp [Token.not_isBlank_of_isWordPart (hpart c hc)]
  rw [Name.withoutBlanks, hspell, List.filter_append, hshown]
  apply Name.beginsIn_append
  · intro hperiod
    exact absurd (hpart '.' hperiod) (by decide +kernel)
  · cases rest with
    | nil => simp
    | cons next more =>
      obtain ⟨hname, hother⟩ := hnext next rfl
      have hsound := hrest next (List.mem_cons_self ..)
      obtain ⟨c, hhead, hc, hblank⟩ := head?_of_isNamePart hsound hname hother
      obtain ⟨begun, hbegun, after, hafter⟩ := hsound.1.first
      -- a comment in front of the next piece, or else its own first character
      have hfull : ((next :: more).flatMap Piece.tokens).flatMap Token.full =
          begun.gap.flatMap Lexeme.text ++ (Token.spell next.tokens ++
            (more.flatMap Piece.tokens).flatMap Token.full) := by
        simp [hafter, Token.spell, Token.full]
      obtain ⟨tail, htail⟩ : ∃ tail, Token.spell next.tokens = c :: tail :=
        List.head?_eq_some_iff.mp hhead
      have hslash : isNamePart '/' = false := by decide
      intro d hd
      rw [hfull, List.filter_append, List.head?_append, htail] at hd
      cases hgap : ((begun.gap.flatMap Lexeme.text).filter fun c => !isBlank c).head? with
      | none =>
        obtain rfl : c = d := by simpa [hgap, hblank] using hd
        exact hc
      | some e =>
        obtain rfl : e = d := by simpa [hgap] using hd
        rw [Token.head?_gap (hlexed hbegun) e hgap]
        exact hslash
  · exact Token.mem_words hsource hisWord

/-- The last two pieces of a row of which no two side by side are words. -/
theorem isNameRow_concat {row : List Piece} {next last : Piece}
    (h : isNameRow (row ++ [next, last]) = true) (hlast : last.isWord = true) :
    next.isWord = false := by
  induction row with
  | nil => simpa [isNameRow, hlast] using h
  | cons piece row ih =>
    apply ih
    cases row with
    | nil =>
      rw [List.cons_append, List.nil_append, isNameRow, Bool.and_eq_true] at h
      exact h.2
    | cons other row =>
      rw [List.cons_append, List.cons_append, isNameRow, Bool.and_eq_true] at h
      exact h.2

/-- Annotations are taken off the end of a row that begins with a word down to the word. -/
theorem exists_reverse_eq_cons {first : Piece} (hfirst : first.isAnnotation = false)
    (row : List Piece) :
    ∃ rest, ((first :: row).reverse.dropWhile Piece.isAnnotation).reverse = first :: rest ∧
      rest ⊆ row := by
  refine ⟨(row.reverse.dropWhile Piece.isAnnotation).reverse, ?_, fun piece hpiece => ?_⟩
  · rw [List.reverse_cons, List.dropWhile_append]
    split
    · next hempty => simp [List.isEmpty_iff.mp hempty, hfirst]
    · simp
  · have hrow := (List.dropWhile_suffix _).subset (List.mem_reverse.mp hpiece)
    exact List.mem_reverse.mp hrow

/-- A type is a wildcard, or it is read from a row that begins with a word and goes on with
something else. -/
theorem cases_of_ofPieces? {type : TypeExpr} (h : ofPieces? pieces = some type) :
    (∃ first rest, pieces.dropWhile Piece.isAnnotation = first :: rest ∧
      first.isSymbol "?" = true ∧ type = .verbatim (String.ofList (Piece.spell pieces))) ∨
    ∃ first rest dimensions, first :: rest ⊆ pieces ∧ first.isWord = true ∧
      (∀ next ∈ rest, next.isNamePart = true) ∧ (∀ next ∈ rest.head?, next.isWord = false) ∧
      type = (ofNameRow (first :: rest)).withDimensions dimensions := by
  unfold ofPieces? at h
  split at h
  · exact absurd h (by simp)
  · next first rest hdrop =>
    split at h
    · next hfirst => exact .inl ⟨first, rest, hdrop, hfirst, (Option.some.inj h).symm⟩
    · dsimp only at h
      split at h
      · next hrow =>
        obtain rfl := Option.some.inj h
        rw [Bool.and_eq_true, Bool.and_eq_true] at hrow
        obtain ⟨⟨hword, hname⟩, -⟩ := hrow
        have hshape : first.shape = .word := by
          unfold Piece.isWord at hword
          split at hword
          · assumption
          · exact absurd hword (by simp)
        have hpart : first.isNamePart = true := by simp [Piece.isNamePart, hshape]
        have hother : first.isAnnotation = false := by simp [Piece.isAnnotation, hshape]
        obtain ⟨named, hnamed, hsubset⟩ :=
          exists_reverse_eq_cons hother (rest.takeWhile Piece.isNamePart)
        rw [← List.takeWhile_cons_of_pos hpart] at hnamed
        have hrest : named ⊆ rest := fun piece hpiece =>
          (List.takeWhile_prefix _).subset (hsubset hpiece)
        refine .inr ⟨first, named, _, ?_, hword, ?_, ?_, by rw [hnamed]⟩
        · have hpieces : first :: rest ⊆ pieces :=
            hdrop ▸ (List.dropWhile_suffix Piece.isAnnotation).subset
          exact fun piece hpiece => hpieces (List.cons_subset_cons first hrest hpiece)
        · exact fun next hnext => List.mem_takeWhile_imp (hsubset hnext)
        · intro next hnext
          obtain ⟨more, rfl⟩ := List.head?_eq_some_iff.mp hnext
          rw [← List.reverse_reverse (List.dropWhile _ _), hnamed] at hname
          apply isNameRow_concat _ hword
          · exact more.reverse
          · simpa using hname
      · exact absurd h (by simp)

include hlexed in
theorem beginsIn_ofNameRow {first : Piece} {rest : List Piece} (hword : first.isWord = true)
    (hpieces : ∀ piece ∈ first :: rest, piece.IsSound tokens)
    (hname : ∀ next ∈ rest, next.isNamePart = true)
    (hnext : ∀ next ∈ rest.head?, next.isWord = false) :
    ∀ text ∈ (ofNameRow (first :: rest)).texts,
      BeginsIn (Token.words tokens) text := by
  have hrow : ∀ more, more <+: rest → BeginsIn (Token.words tokens)
      (Name.withoutBlanks (Piece.spell (first :: more))) := by
    intro more hmore
    apply beginsIn_spell hlexed hword
    · exact fun piece hpiece => hpieces piece (List.cons_subset_cons first hmore.subset hpiece)
    · intro next hfirst
      obtain ⟨tail, rfl⟩ := List.head?_eq_some_iff.mp hfirst
      obtain ⟨after, rfl⟩ := hmore
      exact ⟨hname next (by simp), hnext next (by simp)⟩
  unfold ofNameRow
  split
  · next tokens types introduced hlast =>
    have hsound := hpieces _ (List.mem_of_getLast? hlast)
    have hne : rest ≠ [] := by
      rintro rfl
      obtain rfl : first = ⟨tokens, .angles types introduced⟩ := by simpa using hlast
      exact absurd hword (by simp [Piece.isWord])
    rw [List.dropLast_cons_of_ne_nil hne]
    dsimp only
    rw [texts, List.forall_mem_append]
    refine ⟨?_, (hsound.1.angles types introduced rfl).2⟩
    split
    · next comment hcomment =>
      have hforeign := hsound.2.comment comment (List.mem_of_getLast? hcomment)
      simpa [texts] using hforeign.beginsIn
    · simpa [texts] using hrow rest.dropLast (List.dropLast_prefix rest)
  · simpa [texts] using hrow rest (List.prefix_refl rest)

include hlexed in
theorem beginsIn_ofPieces? (h : ∀ piece ∈ pieces, piece.IsSound tokens) {type : TypeExpr}
    (htype : ofPieces? pieces = some type) :
    ∀ text ∈ type.texts, BeginsIn (Token.words tokens) text := by
  rcases cases_of_ofPieces? htype with
    ⟨first, rest, hdrop, hquestion, rfl⟩ |
      ⟨first, rest, dimensions, hsubset, hword, hname, hnext, rfl⟩
  · have hforeign := isForeign_spell (fun piece hpiece => (h piece hpiece).2) hdrop hquestion
    simpa [texts] using hforeign.beginsIn
  · rw [texts_withDimensions]
    exact beginsIn_ofNameRow hlexed hword (fun piece hpiece => h piece (hsubset hpiece)) hname hnext

include hlexed in
theorem beginsIn_listOfPieces (h : ∀ piece ∈ pieces, piece.IsSound tokens) :
    ∀ text ∈ textsOf (listOfPieces pieces),
      BeginsIn (Token.words tokens) text := by
  rw [textsOf_eq_flatMap]
  intro text htext
  obtain ⟨type, htype, htext⟩ := List.mem_flatMap.mp htext
  obtain ⟨part, hpart, hread⟩ := List.mem_filterMap.mp htype
  refine beginsIn_ofPieces? hlexed (fun piece hpiece => ?_) hread text htext
  exact h piece (Piece.mem_of_mem_parts hpart hpiece)

/-- A bound is a comment in front of one of the pieces, or it is read from some of them. -/
theorem cases_of_mem_boundsOfPieces {bound : TypeExpr} (h : bound ∈ boundsOfPieces pieces) :
    (∃ piece ∈ pieces, ∃ comment ∈ piece.comments, bound = .verbatim comment) ∨
      ∃ part, part ⊆ pieces ∧ ofPieces? part = some bound := by
  have hpart : ∀ part ∈ Piece.parts (Piece.isSymbol · "&") pieces, bound ∈ boundsOfPart part →
      (∃ piece ∈ pieces, ∃ comment ∈ piece.comments, bound = .verbatim comment) ∨
        ∃ part, part ⊆ pieces ∧ ofPieces? part = some bound := by
    intro part hpart hbound
    have hsubset : part ⊆ pieces := fun piece hpiece => Piece.mem_of_mem_parts hpart hpiece
    cases part with
    | nil => exact absurd hbound List.not_mem_nil
    | cons first rest =>
      rcases List.mem_append.mp hbound with hcomment | hread
      · obtain ⟨comment, hmem, rfl⟩ := List.mem_map.mp hcomment
        exact .inl ⟨first, hsubset (List.mem_cons_self ..), comment, hmem, rfl⟩
      · exact .inr ⟨first :: rest, hsubset, Option.mem_toList.mp hread⟩
  rw [boundsOfPieces_eq] at h
  split at h
  · exact absurd h List.not_mem_nil
  · next first more hmap =>
    have hparts : ∀ bounds ∈ first :: more, ∃ part ∈ Piece.parts (Piece.isSymbol · "&") pieces,
        boundsOfPart part = bounds := fun bounds hbounds => List.mem_map.mp (hmap ▸ hbounds)
    rcases List.mem_append.mp h with h | h
    · obtain ⟨part, hmem, rfl⟩ := hparts first (List.mem_cons_self ..)
      exact hpart part hmem h
    · obtain ⟨row, hrow, hbound⟩ := List.mem_flatten.mp h
      rw [← List.map_uncurry_zip_eq_zipWith] at hrow
      obtain ⟨⟨comments, bounds⟩, hpair, rfl⟩ := List.mem_map.mp hrow
      obtain ⟨hcomments, hbounds⟩ := List.of_mem_zip hpair
      rcases List.mem_append.mp hbound with hcomment | hbound
      · obtain ⟨piece, hpiece, rfl⟩ := List.mem_map.mp hcomments
        obtain ⟨comment, hmem, rfl⟩ := List.mem_map.mp hcomment
        exact .inl ⟨piece, (List.mem_filter.mp hpiece).1, comment, hmem, rfl⟩
      · obtain ⟨part, hmem, rfl⟩ := hparts bounds (List.mem_cons_of_mem _ hbounds)
        exact hpart part hmem hbound

include hlexed in
theorem beginsIn_boundsOfPieces (h : ∀ piece ∈ pieces, piece.IsSound tokens) :
    ∀ text ∈ textsOf (boundsOfPieces pieces),
      BeginsIn (Token.words tokens) text := by
  rw [textsOf_eq_flatMap]
  intro text htext
  obtain ⟨bound, hbound, htext⟩ := List.mem_flatMap.mp htext
  rcases cases_of_mem_boundsOfPieces hbound with
    ⟨piece, hpiece, comment, hcomment, rfl⟩ | ⟨part, hsubset, hread⟩
  · have hforeign := (h piece hpiece).2.comment comment hcomment
    obtain rfl : text = comment := by simpa [texts] using htext
    exact hforeign.beginsIn
  · exact beginsIn_ofPieces? hlexed (fun piece hpiece => h piece (hsubset hpiece)) hread text htext

end TypeExpr

/-! ## Reading pieces -/

namespace Piece

include hlexed in
theorem isSound_joinAnnotations {trees : List Tree}
    (h : Tree.tokensOf trees ⊆ tokens)
    (hfrom : ∀ piece ∈ ofTreesApart trees, piece.IsFrom tokens) :
    ∀ piece ∈ joinAnnotations (ofTreesApart trees), piece.IsSound tokens := by
  intro piece hpiece
  refine ⟨isFrom_joinAnnotations hfrom piece hpiece, ?_⟩
  refine isProper_joinAnnotations (isProper_ofTreesApart trees fun token htoken => ?_) piece hpiece
  exact Token.isProper_of_mem_ofSource (hlexed (h htoken))

mutual

theorem isFrom_ofTree (hsource : tokens ⊆ Token.ofSource source) (tree : Tree)
    (h : tree.tokens ⊆ tokens) : (ofTree tree).IsFrom tokens := by
  cases tree with
  | leaf token =>
    have hmem : token ∈ tokens := h (by simp [Tree.tokens])
    unfold ofTree
    refine ⟨⟨token, hmem, [], rfl⟩, fun hword => ⟨token, ?_, rfl⟩,
      fun types introduced hshape => ?_, fun trees hshape => ?_⟩
    · unfold isWord at hword
      unfold Token.isWord
      cases hkind : token.lexeme.kind <;> simp_all
    all_goals cases hkind : token.lexeme.kind <;> simp_all
  | group opening inner closing =>
    have htokens : Tree.tokens (.group opening inner closing) =
        opening :: (Tree.tokensOf inner ++ closing.toList) := by simp [Tree.tokens]
    have hopening : opening ∈ tokens := h (by simp [htokens])
    have hinner : Tree.tokensOf inner ⊆ tokens := fun token htoken =>
      h (by simp [htokens, htoken])
    have hpieces :=
      isSound_joinAnnotations hsource hinner (isFrom_ofTreesApart hsource inner hinner)
    have hfirst : ∃ token ∈ tokens, ∃ rest,
        Tree.tokens (.group opening inner closing) = token :: rest :=
      ⟨opening, hopening, _, htokens⟩
    unfold ofTree
    dsimp only
    split
    · next hangle =>
      refine ⟨hfirst, by simp [isWord], fun types introduced hshape => ?_, by simp⟩
      obtain ⟨rfl, -⟩ := Shape.angles.inj hshape
      refine ⟨?_, TypeExpr.beginsIn_listOfPieces hsource hpieces⟩
      unfold Token.isSymbol at hangle
      rw [Bool.and_eq_true, beq_iff_eq, beq_iff_eq] at hangle
      rw [htokens, Token.spell, hangle.2]
      rfl
    · split
      · refine ⟨hfirst, by simp [isWord], by simp, fun trees hshape => ?_⟩
        obtain rfl := Shape.parens.inj hshape
        exact hinner
      · split
        · exact ⟨hfirst, by simp [isWord], by simp, by simp⟩
        · exact ⟨hfirst, by simp [isWord], by simp, by simp⟩
termination_by structural tree

theorem isFrom_ofTreesApart (hsource : tokens ⊆ Token.ofSource source) (trees : List Tree)
    (h : Tree.tokensOf trees ⊆ tokens) : ∀ piece ∈ ofTreesApart trees, piece.IsFrom tokens := by
  cases trees with
  | nil => simp [ofTreesApart]
  | cons tree rest =>
    rw [Tree.tokensOf, List.append_subset] at h
    rw [ofTreesApart]
    exact List.forall_mem_cons.mpr
      ⟨isFrom_ofTree hsource tree h.1, isFrom_ofTreesApart hsource rest h.2⟩
termination_by structural trees

end

include hlexed in
theorem isSound_ofTrees {trees : List Tree} (h : Tree.tokensOf trees ⊆ tokens) :
    ∀ piece ∈ ofTrees trees, piece.IsSound tokens := by
  rw [← Tree.tokensOf_groupAngles] at h
  exact isSound_joinAnnotations hlexed h (isFrom_ofTreesApart hlexed _ h)

end Piece

/-! ## Heads -/

/-- The texts in the bounds of type variables. -/
def VariableExpr.textsOf (introduced : List VariableExpr) : List String :=
  introduced.flatMap fun expr => TypeExpr.textsOf expr.bounds

/-- The texts in the types of a head. -/
def MethodHead.texts (head : MethodHead) : List String :=
  VariableExpr.textsOf head.typeVariables ++
    (head.result.texts ++ head.parameters.flatMap fun parameter => parameter.type.texts)

/-- The texts in the types that a head declares something with. -/
def Head.texts : Head → List String
  | .method head => head.texts
  | .type head => VariableExpr.textsOf head.typeVariables
  | .other => []

theorem VariableExpr.exists_part_of_mem_listOfPieces {pieces : List Piece}
    {introduced : VariableExpr} (h : introduced ∈ listOfPieces pieces) :
    ∃ part, part ⊆ pieces ∧
      (introduced.bounds = [] ∨ introduced.bounds = TypeExpr.boundsOfPieces part) := by
  obtain ⟨row, hrow, hread⟩ := List.mem_filterMap.mp h
  have hpieces : row ⊆ pieces := fun piece hpiece => Piece.mem_of_mem_parts hrow hpiece
  unfold ofPieces? at hread
  split at hread
  · next name rest hdrop =>
    have hsubset : name :: rest ⊆ row :=
      hdrop ▸ (List.dropWhile_suffix Piece.isAnnotation).subset
    split at hread
    · obtain rfl := Option.some.inj hread
      dsimp only
      split
      · next keyword bounds =>
        refine ⟨bounds, fun piece hpiece => hpieces (hsubset ?_), ?_⟩
        · exact List.mem_cons_of_mem _ (List.mem_cons_of_mem _ hpiece)
        · split
          · exact .inr rfl
          · exact .inl rfl
      · exact ⟨[], List.nil_subset _, .inl rfl⟩
    · exact absurd hread (by simp)
  · exact absurd hread (by simp)

/-- The type of a parameter is a comment in front of one of the pieces, or it is read from some of
them. -/
theorem ParameterExpr.cases_of_ofPieces? {pieces : List Piece} {parameter : ParameterExpr}
    (h : ofPieces? pieces = some parameter) :
    (∃ piece ∈ pieces, ∃ comment ∈ piece.comments, parameter.type = .verbatim comment) ∨
      ∃ part type dimensions, part ⊆ pieces ∧ TypeExpr.ofPieces? part = some type ∧
        parameter.type = type.withDimensions dimensions := by
  have hrest : pieces.dropWhile Modifiers.isModifier ⊆ pieces := (List.dropWhile_suffix _).subset
  unfold ofPieces? at h
  dsimp only at h
  split at h
  · have htype : (pieces.dropWhile Modifiers.isModifier).takeWhile (fun piece =>
        !piece.isSymbol "...") ⊆ pieces :=
      fun piece hpiece => hrest ((List.takeWhile_prefix _).subset hpiece)
    unfold ofSpread? at h
    obtain ⟨name, -, h⟩ := Option.bind_eq_some_iff.mp h
    obtain ⟨type, hread, h⟩ := Option.bind_eq_some_iff.mp h
    split at h
    · obtain rfl := Option.some.inj h
      rcases Option.or_eq_some_iff.mp hread with hverbatim | ⟨-, hread⟩
      · obtain ⟨comment, hcomment, rfl⟩ := Option.map_eq_some_iff.mp hverbatim
        clear hverbatim hread
        split at hcomment
        · obtain ⟨comments, hcomments, hhead⟩ := Option.bind_eq_some_iff.mp hcomment
          obtain ⟨first, hfirst, rfl⟩ := Option.map_eq_some_iff.mp hcomments
          exact .inl ⟨first, htype (List.mem_of_mem_head? hfirst), comment,
            List.mem_of_mem_head? hhead, rfl⟩
        · exact absurd hcomment (by simp)
      · exact .inr ⟨_, type, 0, htype, hread, rfl⟩
    · exact absurd h (by simp)
  · unfold ofSingle? at h
    dsimp only at h
    split at h
    · exact absurd h (by simp)
    · next name type hdrop =>
      split at h
      · obtain ⟨read, hread, rfl⟩ := Option.map_eq_some_iff.mp h
        refine .inr ⟨type.reverse, read, _, fun piece hpiece => hrest ?_, hread, rfl⟩
        have hmem := List.mem_cons_of_mem name (List.mem_reverse.mp hpiece)
        rw [← hdrop] at hmem
        exact List.mem_reverse.mp ((List.dropWhile_suffix _).subset hmem)
      · exact absurd h (by simp)

namespace Head

variable {hasBlock : Bool} {trees : List Tree}

include hlexed in
theorem beginsIn_typeVariables (htokens : Tree.tokensOf trees ⊆ tokens) :
    ∀ text ∈ VariableExpr.textsOf (ofTrees hasBlock trees).typeVariables,
      BeginsIn (Token.words tokens) text := by
  intro text htext
  obtain ⟨introduced, hintroduced, htext⟩ := List.mem_flatMap.mp htext
  obtain ⟨row, hrow, hvariables⟩ := exists_row_of_ofTrees hasBlock trees
  rw [hvariables] at hintroduced
  obtain ⟨piece, hpiece, types, list, hshape, hmem⟩ :=
    exists_piece_of_leadingVariables hintroduced
  obtain ⟨inner, hinner, rfl⟩ := Piece.exists_trees_of_angles (hrow hpiece) hshape
  obtain ⟨part, hpart, hbounds⟩ := VariableExpr.exists_part_of_mem_listOfPieces hmem
  have hsource : Tree.tokensOf inner ⊆ tokens := fun token htoken =>
    htokens (hinner htoken)
  have hpieces := Piece.isSound_joinAnnotations hlexed hsource
    (Piece.isFrom_ofTreesApart hlexed inner hsource)
  rcases hbounds with hnone | hread
  · rw [hnone] at htext
    exact absurd htext (by simp [TypeExpr.textsOf])
  · rw [hread] at htext
    refine TypeExpr.beginsIn_boundsOfPieces hlexed (fun piece hpiece => ?_) text htext
    exact hpieces piece (hpart hpiece)

include hlexed in
theorem beginsIn_parameters {inner : List Tree}
    (htokens : Tree.tokensOf inner ⊆ tokens) {parameter : ParameterExpr}
    (hparameter : parameter ∈ ParameterExpr.listOfTrees inner) :
    ∀ text ∈ parameter.type.texts, BeginsIn (Token.words tokens) text := by
  obtain ⟨row, hrow, hread⟩ := List.mem_filterMap.mp hparameter
  have hpieces : ∀ piece ∈ row, piece.IsSound tokens := fun piece hpiece =>
    Piece.isSound_ofTrees hlexed htokens piece (Piece.mem_of_mem_parts hrow hpiece)
  rcases ParameterExpr.cases_of_ofPieces? hread with
    ⟨piece, hpiece, comment, hcomment, htype⟩ | ⟨part, type, dimensions, hpart, hread, htype⟩
  · have hforeign := (hpieces piece hpiece).2.comment comment hcomment
    simpa [htype, TypeExpr.texts] using hforeign.beginsIn
  · rw [htype, TypeExpr.texts_withDimensions]
    refine TypeExpr.beginsIn_ofPieces? hlexed (fun piece hpiece => ?_) hread
    exact hpieces piece (hpart hpiece)

include hlexed in
/-- Where a name in the types of a head begins with an identifier, this is a word of the source. -/
theorem beginsIn_texts (htokens : Tree.tokensOf trees ⊆ tokens) :
    ∀ text ∈ (ofTrees hasBlock trees).texts,
      BeginsIn (Token.words tokens) text := by
  have hvariables : ∀ text ∈ VariableExpr.textsOf (ofTrees hasBlock trees).typeVariables,
      BeginsIn (Token.words tokens) text := beginsIn_typeVariables hlexed htokens
  cases hhead : ofTrees hasBlock trees with
  | other => simp [texts]
  | type head => simpa [hhead, texts, typeVariables] using hvariables
  | method head =>
    rw [hhead] at hvariables
    obtain ⟨comment, modifiers, row, hrow, hread⟩ := exists_methodHead?_of_ofTrees hhead
    have hpieces : ∀ piece ∈ (leadingVariables row).2, piece.IsSound tokens := fun piece hpiece =>
      Piece.isSound_ofTrees hlexed htokens piece (hrow (mem_of_leadingVariables hpiece))
    have hnone : ∀ text ∈ (TypeExpr.verbatim "").texts,
        BeginsIn (Token.words tokens) text := by
      have hforeign : Name.IsForeign "" := by simp [Name.IsForeign]
      simpa [TypeExpr.texts] using hforeign.beginsIn
    rw [texts, MethodHead.texts, List.forall_mem_append, List.forall_mem_append]
    refine ⟨hvariables, ?_⟩
    obtain ⟨-, hcases⟩ := cases_of_methodHead? hread
    rcases hcases with ⟨-, hresult, hparameters⟩ | ⟨before, inner, after, hcut, hparameters, hcases⟩
    · rw [hresult, hparameters]
      exact ⟨hnone, by simp⟩
    · obtain ⟨parens, hparens, hshape⟩ := parens_of_cutAtParens? hcut
      have hinner := (hpieces parens hparens).1.inner inner hshape
      refine ⟨?_, ?_⟩
      · rcases hcases with ⟨-, hresult⟩ | ⟨name, -, -, -, type, dimensions, htype, hresult⟩
        · rwa [hresult]
        · rw [hresult, TypeExpr.texts_withDimensions]
          refine TypeExpr.beginsIn_ofPieces? hlexed (fun piece hpiece => ?_) htype
          exact hpieces piece (mem_of_cutAtParens? hcut ((List.dropLast_sublist _).subset hpiece))
      · rw [hparameters]
        intro text htext
        obtain ⟨parameter, hparameter, htext⟩ := List.mem_flatMap.mp htext
        exact beginsIn_parameters hlexed hinner hparameter text htext

end Head

end Source

end Source

end JavaSignatures
