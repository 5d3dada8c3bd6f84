import JavaSignatures.Proofs.CharacterClasses
import JavaSignatures.Source.Token

set_option autoImplicit false

/-!
# Lexing, lexeme by lexeme

How source text is read that is put together from words, symbols, single spaces and comments.
`readAfter` reads the tokens of a text behind a gap; for each kind of lexeme there is one lemma that
says what it becomes and that the rest is read on.  Only a word and a space look at what follows
them: a word must not go on (`StopsWord`), and neither must the white space (`StartsToken`).
-/

namespace JavaSignatures.Source

open JavaSignatures.Character

/-! ## Single lexemes -/

namespace Lexeme

/-- The rest of a lexeme that has begun ends the lexeme, and what follows is cut for itself. -/
theorem collect_length (kind : LexemeKind) (read more rest : List Char) :
    collect kind read more.length (more ++ rest) = ⟨kind, read.reverse ++ more⟩ :: lexemes rest := by
  induction more generalizing read with
  | nil =>
    cases rest with
    | nil => simp [collect, lexemes]
    | cons c rest => simp [collect, lexemes]
  | cons c more ih =>
    rw [List.length_cons, List.cons_append, collect, ih]
    simp

/-- A lexeme that extends just as far as a part of the text is cut off there. -/
theorem lexemes_of_extent {kind : LexemeKind} {c : Char} (more : List Char) {rest : List Char}
    (h : extent c (more ++ rest) = (kind, more.length)) :
    lexemes (c :: (more ++ rest)) = ⟨kind, c :: more⟩ :: lexemes rest := by
  rw [lexemes, h, collect_length]
  rfl

theorem run_append {p : Char → Bool} {text rest : List Char} (htext : ∀ c ∈ text, p c = true)
    (hrest : ∀ c ∈ rest.head?, p c = false) : run p (text ++ rest) = text.length := by
  unfold run
  rw [List.takeWhile_append_of_pos htext]
  cases rest with
  | nil => simp
  | cons c rest =>
    have hc : p c = false := hrest c rfl
    simp [hc]

theorem isBlank_of_isGap {c : Char} (h : isGap c = true) : isBlank c = true := by
  unfold isGap at h
  rw [Bool.or_eq_true, beq_iff_eq, Bool.and_eq_true, decide_eq_true_eq, decide_eq_true_eq] at h
  rcases h with rfl | ⟨hlow, hhigh⟩
  · decide
  · have hcode : c.toNat = 9 ∨ c.toNat = 10 ∨ c.toNat = 11 ∨ c.toNat = 12 ∨ c.toNat = 13 := by
      omega
    unfold isBlank
    rcases hcode with h | h | h | h | h <;> rw [h] <;> decide

theorem not_isGap_of_isIdentifierStart {c : Char} (h : isIdentifierStart c = true) :
    isGap c = false := by
  rw [Bool.eq_false_iff]
  intro hgap
  have hfalse := not_isIdentifierPart_of_isBlank (isBlank_of_isGap hgap)
  rw [isIdentifierPart_of_isIdentifierStart h] at hfalse
  exact absurd hfalse (by simp)

/-! ## Words -/

/-- A text that is cut off as one word. -/
def IsWord (word : List Char) : Prop :=
  ∃ c more, word = c :: more ∧ isIdentifierStart c = true ∧
    ∀ d ∈ more, isIdentifierPart d = true

/-- What follows a word does not continue it.  A dash would continue one of the keywords. -/
def StopsWord (rest : List Char) : Prop :=
  ∀ c ∈ rest.head?, isIdentifierPart c = false ∧ c ≠ '-'

theorem stopsWord_nil : StopsWord [] := by
  intro c hc
  exact absurd hc (by simp)

theorem stopsWord_cons {c : Char} (hpart : isIdentifierPart c = false) (hdash : c ≠ '-')
    (rest : List Char) : StopsWord (c :: rest) := by
  intro d hd
  rw [List.head?_cons, Option.mem_some_iff] at hd
  subst hd
  exact ⟨hpart, hdash⟩

theorem extent_word {c : Char} {more rest : List Char} (hc : isIdentifierStart c = true)
    (hmore : ∀ d ∈ more, isIdentifierPart d = true) (hrest : StopsWord rest) :
    extent c (more ++ rest) = (.word, more.length) := by
  have hrun : run isIdentifierPart (more ++ rest) = more.length :=
    run_append hmore fun d hd => (hrest d hd).1
  have hdashed : "-sealed".toList.isPrefixOf rest = false := by
    cases rest with
    | nil => decide
    | cons d rest =>
      have hd : '-' ≠ d := fun h => (hrest d rfl).2 h.symm
      simp [List.isPrefixOf, hd]
  have hslash : (c == '/') = false := by
    rw [beq_eq_false_iff_ne]
    rintro rfl
    exact absurd hc (by decide)
  have hquote : (c == '"') = false := by
    rw [beq_eq_false_iff_ne]
    rintro rfl
    exact absurd hc (by decide)
  have hapostrophe : (c == '\'') = false := by
    rw [beq_eq_false_iff_ne]
    rintro rfl
    exact absurd hc (by decide)
  unfold extent wordExtent
  simp only [not_isGap_of_isIdentifierStart hc, hslash, hquote, hapostrophe, hc, hrun,
    List.drop_left, hdashed, Bool.and_false, Bool.false_and, Bool.false_eq_true, if_false, if_true]

theorem lexemes_word {word rest : List Char} (hword : IsWord word) (hrest : StopsWord rest) :
    lexemes (word ++ rest) = ⟨.word, word⟩ :: lexemes rest := by
  obtain ⟨c, more, rfl, hc, hmore⟩ := hword
  exact lexemes_of_extent more (extent_word hc hmore hrest)

/-! ## Symbols -/

/-- The symbols that are cut off whatever follows them. -/
def marks : List Char := ['(', ')', '[', ']', '{', '}', '<', '>', ',', ';', '&']

theorem extent_mark {c : Char} (hc : c ∈ marks) (rest : List Char) :
    extent c rest = (.symbol, 0) := by
  unfold extent
  simp only [marks, List.mem_cons, List.not_mem_nil, or_false] at hc
  rcases hc with rfl | rfl | rfl | rfl | rfl | rfl | rfl | rfl | rfl | rfl | rfl <;> rfl

/-- None of the characters that stand behind a word here continues it. -/
theorem stopsWord_of_mem {c : Char} (hc : c ∈ ' ' :: '.' :: marks) (rest : List Char) :
    StopsWord (c :: rest) := by
  have hall : (' ' :: '.' :: marks).all (fun c => !isIdentifierPart c && c != '-') = true := by
    decide +kernel
  have hstops := List.all_eq_true.mp hall c hc
  rw [Bool.and_eq_true, Bool.not_eq_true', bne_iff_ne] at hstops
  exact stopsWord_cons hstops.1 hstops.2 rest

theorem lexemes_mark {c : Char} (hc : c ∈ marks) (rest : List Char) :
    lexemes (c :: rest) = ⟨.symbol, [c]⟩ :: lexemes rest :=
  lexemes_of_extent [] (extent_mark hc rest)

/-- A period begins an ellipsis only if two more follow. -/
theorem lexemes_period {rest : List Char} (hrest : rest.head? ≠ some '.') :
    lexemes ('.' :: rest) = ⟨.symbol, ['.']⟩ :: lexemes rest := by
  refine lexemes_of_extent [] ?_
  have hdots : ['.', '.'].isPrefixOf rest = false := by
    cases rest with
    | nil => rfl
    | cons c rest =>
      have hc : '.' ≠ c := fun h => hrest (by rw [h]; rfl)
      simp [List.isPrefixOf, hc]
  have hstart : isIdentifierStart '.' = false := by decide
  unfold extent
  simp [isGap, hstart, hdots]

theorem lexemes_ellipsis (rest : List Char) :
    lexemes ('.' :: '.' :: '.' :: rest) = ⟨.symbol, ['.', '.', '.']⟩ :: lexemes rest := by
  refine lexemes_of_extent ['.', '.'] ?_
  have hstart : isIdentifierStart '.' = false := by decide
  unfold extent
  simp [isGap, hstart, List.isPrefixOf]

/-! ## White space and comments -/

/-- One space. -/
def space : Lexeme := ⟨.blank, [' ']⟩

/-- The text begins, and neither with white space nor with a byte order mark. -/
def StartsToken (text : List Char) : Prop :=
  ∃ c rest, text = c :: rest ∧ isGap c = false ∧ c ≠ Token.byteOrderMark

theorem StartsToken.append {text : List Char} (h : StartsToken text) (rest : List Char) :
    StartsToken (text ++ rest) := by
  obtain ⟨c, more, rfl, hc⟩ := h
  exact ⟨c, more ++ rest, rfl, hc⟩

theorem startsToken_word {word : List Char} (h : IsWord word) : StartsToken word := by
  obtain ⟨c, more, rfl, hc, -⟩ := h
  refine ⟨c, more, rfl, not_isGap_of_isIdentifierStart hc, ?_⟩
  rintro rfl
  have hfalse : isIdentifierStart Token.byteOrderMark = false := by decide +kernel
  rw [hc] at hfalse
  exact absurd hfalse (by simp)

theorem startsToken_mark {c : Char} (hc : c ∈ marks) (rest : List Char) :
    StartsToken (c :: rest) := by
  refine ⟨c, rest, rfl, ?_⟩
  simp only [marks, List.mem_cons, List.not_mem_nil, or_false] at hc
  rcases hc with rfl | rfl | rfl | rfl | rfl | rfl | rfl | rfl | rfl | rfl | rfl <;>
    exact ⟨rfl, by decide⟩

/-- The text between the delimiters of a comment can be written there: the comment does not end in
it.  It follows a star. -/
def FitsComment (body : List Char) : Prop := ¬['*', '/'] <:+: '*' :: body

/-- A documentation comment. -/
def docComment (body : List Char) : Lexeme :=
  ⟨.blockComment, '/' :: '*' :: '*' :: (body ++ ['*', '/'])⟩

theorem startsToken_docComment (body rest : List Char) :
    StartsToken ((docComment body).text ++ rest) :=
  ⟨'/', _, rfl, by decide, by decide⟩

theorem lexemes_space {rest : List Char} (hrest : StartsToken rest) :
    lexemes (' ' :: rest) = space :: lexemes rest := by
  obtain ⟨c, more, rfl, hc, -⟩ := hrest
  refine lexemes_of_extent [] ?_
  have hrun : run isGap (c :: more) = 0 := by
    simp [run, hc]
  have hgap : isGap ' ' = true := by decide
  simp only [extent, hgap, if_true, List.nil_append, hrun, List.length_nil]

theorem closing?_comment {body : List Char} (hbody : ¬['*', '/'] <:+: body) (rest : List Char) :
    closing? ['*', '/'] false false (body ++ '*' :: '/' :: rest) = some (body.length + 2) := by
  induction body with
  | nil => simp [closing?, List.isPrefixOf]
  | cons c body ih =>
    have hmore : ¬['*', '/'] <:+: body := fun h => hbody (h.trans (List.suffix_cons c body).isInfix)
    have hclosed : ['*', '/'].isPrefixOf (c :: (body ++ '*' :: '/' :: rest)) = false := by
      rw [Bool.eq_false_iff]
      intro hclosed
      obtain ⟨rfl, hnext⟩ := List.cons_prefix_cons.mp (List.isPrefixOf_iff_prefix.mp hclosed)
      cases body with
      | nil => exact absurd hnext (by simp)
      | cons d body =>
        obtain ⟨rfl, -⟩ := List.cons_prefix_cons.mp hnext
        exact hbody ⟨[], body, rfl⟩
    rw [List.cons_append, closing?, hclosed]
    simp [ih hmore]

theorem lexemes_docComment {body : List Char} (hbody : FitsComment body) (rest : List Char) :
    lexemes ((docComment body).text ++ rest) = docComment body :: lexemes rest := by
  have hclosing := closing?_comment hbody rest
  refine lexemes_of_extent ('*' :: '*' :: (body ++ ['*', '/'])) ?_
  have hgap : isGap '/' = false := by decide
  simp only [List.cons_append, List.append_assoc, List.nil_append] at hclosing ⊢
  simp only [extent, hgap, Bool.false_eq_true, if_false, beq_self_eq_true, if_true, slashExtent,
    hclosing]
  simp

end Lexeme

/-! ## Tokens -/

open Lexeme

/-- The tokens of a text; the first one has the gap in front of it. -/
def readAfter (gap : List Lexeme) (text : List Char) : List Token :=
  Token.ofLexemesAfter gap.reverse (lexemes text)

/-- A word with what stands in front of it. -/
def Token.word (gap : List Lexeme) (word : List Char) : Token := ⟨gap, ⟨.word, word⟩⟩

/-- A symbol of one character with what stands in front of it. -/
def Token.mark (gap : List Lexeme) (c : Char) : Token := ⟨gap, ⟨.symbol, [c]⟩⟩

/-- An ellipsis. -/
def Token.ellipsis (gap : List Lexeme) : Token := ⟨gap, ⟨.symbol, ['.', '.', '.']⟩⟩

/-- A text that begins with a token is read from its beginning. -/
theorem ofSource_of_startsToken {text : List Char} (h : StartsToken text) :
    Token.ofSource text = readAfter [] text := by
  obtain ⟨c, rest, rfl, -, hmark⟩ := h
  simp [Token.ofSource, readAfter, hmark]

theorem readAfter_nil (gap : List Lexeme) : readAfter gap [] = [] := rfl

theorem readAfter_word (gap : List Lexeme) {word rest : List Char} (hword : IsWord word)
    (hrest : StopsWord rest) :
    readAfter gap (word ++ rest) = Token.word gap word :: readAfter [] rest := by
  rw [readAfter, lexemes_word hword hrest, Token.ofLexemesAfter]
  simp [isTrivia, Token.word, readAfter]

theorem readAfter_mark (gap : List Lexeme) {c : Char} (hc : c ∈ marks) (rest : List Char) :
    readAfter gap (c :: rest) = Token.mark gap c :: readAfter [] rest := by
  rw [readAfter, lexemes_mark hc, Token.ofLexemesAfter]
  simp [isTrivia, Token.mark, readAfter]

theorem readAfter_period (gap : List Lexeme) {rest : List Char} (hrest : rest.head? ≠ some '.') :
    readAfter gap ('.' :: rest) = Token.mark gap '.' :: readAfter [] rest := by
  rw [readAfter, lexemes_period hrest, Token.ofLexemesAfter]
  simp [isTrivia, Token.mark, readAfter]

theorem readAfter_ellipsis (gap : List Lexeme) (rest : List Char) :
    readAfter gap ('.' :: '.' :: '.' :: rest) = Token.ellipsis gap :: readAfter [] rest := by
  rw [readAfter, lexemes_ellipsis, Token.ofLexemesAfter]
  simp [isTrivia, Token.ellipsis, readAfter]

theorem readAfter_space (gap : List Lexeme) {rest : List Char} (hrest : StartsToken rest) :
    readAfter gap (' ' :: rest) = readAfter (gap ++ [space]) rest := by
  rw [readAfter, lexemes_space hrest, Token.ofLexemesAfter]
  simp [isTrivia, space, readAfter]

theorem readAfter_docComment (gap : List Lexeme) {body : List Char} (hbody : FitsComment body)
    (rest : List Char) :
    readAfter gap ((docComment body).text ++ rest) =
      readAfter (gap ++ [docComment body]) rest := by
  rw [readAfter, lexemes_docComment hbody, Token.ofLexemesAfter]
  simp [isTrivia, docComment, readAfter]

end JavaSignatures.Source
