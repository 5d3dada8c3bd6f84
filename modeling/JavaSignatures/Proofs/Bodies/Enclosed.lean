import JavaSignatures.Proofs.Extents
import JavaSignatures.Proofs.Lexing
import JavaSignatures.Proofs.TextParts
import JavaSignatures.Source.Tree

set_option autoImplicit false

/-!
# Text that is enclosed

Grammar of the text that can stand between two brackets of a source file, or in front of the mark
that ends a part of a statement.  Whatever hides a bracket or a quote is in it: strings, text blocks,
character literals and comments.  The grammar speaks of characters only.  `Enclosed.lexemes` says
that the lexemes of such a text do not depend on what follows it, and that its brackets are found
again among them.
-/

namespace JavaSignatures.Source

open JavaSignatures.Character
open Lexeme

/-! ## Grammar -/

/-- Where a text stands. -/
inductive Position where
  /-- between brackets -/
  | inside
  /-- the initial value of a field, or the constants of an enum -/
  | value
  /-- the head of a statement -/
  | head
  /-- the head of a field that is given an initial value, a parameter, or what stands in front of the
  parentheses in a head -/
  | fieldHead
  /-- between angle brackets in such a head -/
  | arguments
  deriving DecidableEq, Repr

namespace Position

/-- The characters that do not stand in the place unless they are hidden. -/
def barred : Position → List Char
  | inside => []
  | value => [';']
  | head => [';', '=', '{']
  | fieldHead => [';', '=', '{', '<', '>', '?']
  | arguments => [';', '=', '{', '<', '>']

/-- Angle brackets are brackets in the place. -/
def hasAngles : Position → Bool
  | fieldHead | arguments => true
  | _ => false

end Position

/-- The brackets that enclose text everywhere. -/
def bracketMarks : List Char := ['(', ')', '[', ']', '{', '}']

/-- The characters that are not read one by one: brackets, quotes and the beginning of comments. -/
def delimiters : List Char := '"' :: '\'' :: '/' :: bracketMarks

/-- The characters that a lexeme does not go on over. -/
def breaks : List Char := '<' :: '>' :: delimiters

/-- The text between quotes: `ending` does not stand in it except where a backslash hides its
beginning. -/
inductive Quotable (ending : List Char) : List Char → Prop where
  | nil : Quotable ending []
  | escape (c : Char) {rest : List Char} (h : Quotable ending rest) :
    Quotable ending ('\\' :: c :: rest)
  | plain {c : Char} {rest : List Char} (hc : c ≠ '\\') (hend : ¬ending <+: c :: (rest ++ ending))
    (h : Quotable ending rest) : Quotable ending (c :: rest)

/-- The text can stand in the place. -/
inductive Enclosed : Position → List Char → Prop where
  | nil (place : Position) : Enclosed place []
  | plain {place : Position} {c : Char} {rest : List Char} (hc : c ∉ delimiters)
    (hplace : c ∉ place.barred) (h : Enclosed place rest) : Enclosed place (c :: rest)
  /-- a slash that begins no comment -/
  | slash {place : Position} {rest : List Char} (hnext : ∀ c ∈ rest.head?, c ≠ '/' ∧ c ≠ '*')
    (h : Enclosed place rest) : Enclosed place ('/' :: rest)
  /-- a comment up to the end of the line, which belongs to what follows -/
  | lineComment {place : Position} {body rest : List Char} (hbody : '\n' ∉ body)
    (hline : rest.head? = some '\n') (h : Enclosed place rest) :
    Enclosed place ('/' :: '/' :: (body ++ rest))
  | blockComment {place : Position} {body rest : List Char} (hbody : ¬['*', '/'] <:+: body)
    (h : Enclosed place rest) : Enclosed place ('/' :: '*' :: (body ++ '*' :: '/' :: rest))
  /-- a string; a third quote behind an empty one would begin a text block -/
  | string {place : Position} {body rest : List Char} (hbody : Quotable ['"'] body)
    (hempty : body = [] → rest.head? ≠ some '"') (h : Enclosed place rest) :
    Enclosed place ('"' :: (body ++ '"' :: rest))
  | textBlock {place : Position} {body rest : List Char} (hbody : Quotable ['"', '"', '"'] body)
    (h : Enclosed place rest) :
    Enclosed place ('"' :: '"' :: '"' :: (body ++ '"' :: '"' :: '"' :: rest))
  | character {place : Position} {body rest : List Char} (hbody : Quotable ['\''] body)
    (hline : '\n' ∉ body) (h : Enclosed place rest) :
    Enclosed place ('\'' :: (body ++ '\'' :: rest))
  | group {place : Position} {pair : Char × Char} {inner rest : List Char}
    (hpair : pair ∈ Brackets.nesting) (hplace : pair.1 ∉ place.barred)
    (hinner : Enclosed .inside inner) (h : Enclosed place rest) :
    Enclosed place (pair.1 :: (inner ++ pair.2 :: rest))
  | angles {place : Position} {inner rest : List Char} (hplace : place.hasAngles = true)
    (hinner : Enclosed .arguments inner) (h : Enclosed place rest) :
    Enclosed place ('<' :: (inner ++ '>' :: rest))

/-! ## What follows -/

namespace Lexeme

/-- The marks behind which nothing that stands in front of them goes on. -/
def stops : List Char := '=' :: '<' :: '>' :: ';' :: ',' :: '@' :: bracketMarks

/-- The text is at its end, or goes on with a mark. -/
def Stops (rest : List Char) : Prop := ∀ c ∈ rest.head?, c ∈ stops

theorem stops_nil : Stops [] := by
  intro c hc
  exact absurd hc (by simp)

theorem stops_cons {c : Char} (h : c ∈ stops) (rest : List Char) : Stops (c :: rest) := by
  intro d hd
  rw [List.head?_cons, Option.mem_some_iff] at hd
  exact hd ▸ h

theorem lexemes_stop {c : Char} (h : c ∈ stops) (rest : List Char) :
    lexemes (c :: rest) = ⟨.symbol, [c]⟩ :: lexemes rest := by
  refine lexemes_of_extent [] ?_
  simp only [stops, bracketMarks, List.mem_cons, List.not_mem_nil, or_false] at h
  rcases h with rfl | rfl | rfl | rfl | rfl | rfl | rfl | rfl | rfl | rfl | rfl | rfl <;> rfl

/-- No mark continues a word, a number, white space, a period or a slash. -/
theorem ends_of_mem_stops {c : Char} (h : c ∈ stops) :
    isGap c = false ∧ isIdentifierPart c = false ∧ c ∉ '.' :: '/' :: '*' :: '"' :: "-sealed".toList := by
  have hall : stops.all (fun c => !isGap c && !isIdentifierPart c &&
      !('.' :: '/' :: '*' :: '"' :: "-sealed".toList).contains c) = true := by
    decide +kernel
  have hstops := List.all_eq_true.mp hall c h
  simpa [and_assoc] using hstops

/-- Nor does a break. -/
theorem ends_of_mem_breaks {c : Char} (h : c ∈ breaks) :
    isGap c = false ∧ isIdentifierPart c = false ∧ c ∉ '.' :: "-sealed".toList := by
  have hall : breaks.all (fun c => !isGap c && !isIdentifierPart c &&
      !('.' :: "-sealed".toList).contains c) = true := by
    decide +kernel
  have hbreaks := List.all_eq_true.mp hall c h
  simpa [and_assoc] using hbreaks

theorem run_append_stops {p : Char → Bool} (text : List Char) {tail : List Char}
    (htail : ∀ c ∈ tail.head?, p c = false) : run p (text ++ tail) = run p text := by
  unfold run
  induction text with
  | nil =>
    cases tail with
    | nil => rfl
    | cons c tail =>
      have hc : p c = false := htail c rfl
      simp [hc]
  | cons c text ih =>
    by_cases hc : p c = true
    · simp [hc, ih]
    · simp [hc]

/-- A text that a mark follows begins with another one just if it does so without the mark. -/
theorem isPrefixOf_append_stops {start text tail : List Char}
    (htail : ∀ c ∈ tail.head?, c ∉ start) :
    start.isPrefixOf (text ++ tail) = start.isPrefixOf text := by
  induction start generalizing text with
  | nil => cases text <;> simp
  | cons c start ih =>
    cases text with
    | nil =>
      cases tail with
      | nil => rfl
      | cons d tail =>
        have hne : ¬c = d := fun h => htail d rfl (h ▸ List.mem_cons_self ..)
        simp [List.isPrefixOf, hne]
    | cons d text =>
      have hmore : start.isPrefixOf (text ++ tail) = start.isPrefixOf text :=
        ih fun c hc hmem => htail c hc (List.mem_cons_of_mem _ hmem)
      simp only [List.cons_append, List.isPrefixOf, hmore]

theorem any_head?_append_stops {p : Char → Bool} (text : List Char) {tail : List Char}
    (htail : ∀ c ∈ tail.head?, p c = false) :
    (text ++ tail).head?.any p = text.head?.any p := by
  cases text with
  | cons c text => rfl
  | nil =>
    cases tail with
    | nil => rfl
    | cons c tail => simp [htail c rfl]

theorem run_le_length (p : Char → Bool) (text : List Char) : run p text ≤ text.length :=
  (List.takeWhile_prefix p).length_le

theorem wordExtent_append {c : Char} (text : List Char) {tail : List Char} (htail : Stops tail) :
    wordExtent c (text ++ tail) = wordExtent c text := by
  have hpart : ∀ d ∈ tail.head?, isIdentifierPart d = false :=
    fun d hd => (ends_of_mem_stops (htail d hd)).2.1
  have hdashed : ∀ d ∈ tail.head?, d ∉ "-sealed".toList := by
    intro d hd hmem
    refine (ends_of_mem_stops (htail d hd)).2.2 ?_
    simp only [List.mem_cons]
    exact Or.inr (Or.inr (Or.inr (Or.inr hmem)))
  have hlength := run_le_length isIdentifierPart text
  unfold wordExtent
  dsimp only
  rw [run_append_stops text hpart, List.take_append_of_le_length hlength,
    List.drop_append_of_le_length hlength, isPrefixOf_append_stops hdashed]
  by_cases hstart : "-sealed".toList.isPrefixOf (text.drop (run isIdentifierPart text)) = true
  · have hbehind := (List.isPrefixOf_iff_prefix.mp hstart).length_le
    rw [List.drop_append_of_le_length hbehind, any_head?_append_stops _ hpart]
  · simp only [hstart, Bool.and_false, Bool.false_and]

/-- How far a lexeme extends is settled in front of a mark. -/
theorem extent_append {c : Char} (hc : c ∉ delimiters) (text : List Char) {tail : List Char}
    (htail : Stops tail) : extent c (text ++ tail) = extent c text := by
  have hgap : ∀ d ∈ tail.head?, isGap d = false := fun d hd => (ends_of_mem_stops (htail d hd)).1
  have hpart : ∀ d ∈ tail.head?, isIdentifierPart d = false :=
    fun d hd => (ends_of_mem_stops (htail d hd)).2.1
  have hdots : ∀ d ∈ tail.head?, d ∉ ['.', '.'] := by
    intro d hd
    have hother := (ends_of_mem_stops (htail d hd)).2.2
    simp only [List.mem_cons, not_or] at hother
    simp [hother.1]
  simp only [delimiters, List.mem_cons, not_or] at hc
  obtain ⟨hquote, hapostrophe, hslash, -⟩ := hc
  unfold extent
  rw [run_append_stops text hgap, run_append_stops text hpart, wordExtent_append text htail,
    isPrefixOf_append_stops hdots]
  simp [hquote, hapostrophe, hslash]

/-- The lexeme extends over a part of the text in which no break stands. -/
def CoversPlain (text : List Char) (extended : LexemeKind × Nat) : Prop :=
  ∃ more after, text = more ++ after ∧ extended.2 = more.length ∧ ∀ d ∈ more, d ∉ breaks

theorem coversPlain_run {p : Char → Bool} (hp : ∀ d ∈ breaks, p d = false) (text : List Char)
    (kind : LexemeKind) : CoversPlain text (kind, run p text) := by
  refine ⟨text.takeWhile p, text.dropWhile p, List.takeWhile_append_dropWhile.symm, rfl, ?_⟩
  intro d hd hmem
  have hfalse := hp d hmem
  rw [List.mem_takeWhile_imp hd] at hfalse
  exact absurd hfalse (by simp)

theorem coversPlain_wordExtent (c : Char) (text : List Char) :
    CoversPlain text (wordExtent c text) := by
  have hpart : ∀ d ∈ breaks, isIdentifierPart d = false :=
    fun d hd => (ends_of_mem_breaks hd).2.1
  have hrun := coversPlain_run hpart text .word
  unfold wordExtent
  dsimp only
  split
  · next hdashed =>
    -- the run goes on with the second part of the keyword
    rw [Bool.and_eq_true, Bool.and_eq_true, List.isPrefixOf_iff_prefix] at hdashed
    obtain ⟨rest, hrest⟩ := hdashed.1.2
    obtain ⟨more, after, rfl, hlength, hmore⟩ := hrun
    dsimp only at hlength
    rw [hlength, List.drop_left] at hrest
    subst hrest
    refine ⟨more ++ "-sealed".toList, rest, by rw [List.append_assoc], ?_, ?_⟩
    · rw [hlength, List.length_append]
    · intro d hd hmem
      rcases List.mem_append.mp hd with hd | hd
      · exact hmore d hd hmem
      · exact (ends_of_mem_breaks hmem).2.2 (List.mem_cons_of_mem _ hd)
  · exact hrun

/-- A lexeme that begins with no delimiter has no break in it. -/
theorem coversPlain_extent {c : Char} (hc : c ∉ delimiters) (text : List Char) :
    CoversPlain text (extent c text) := by
  have hextent := extent_extendsBy c text
  generalize extent c text = extended at hextent
  cases hextent with
  | gap => exact coversPlain_run (fun d hd => (ends_of_mem_breaks hd).1) text _
  | number => exact coversPlain_run (fun d hd => (ends_of_mem_breaks hd).2.1) text _
  | symbol => exact ⟨[], text, rfl, rfl, by simp⟩
  | ellipsis _ hrest =>
    obtain ⟨after, rfl⟩ := hrest
    exact ⟨['.', '.'], after, rfl, rfl, by decide⟩
  | word => exact coversPlain_wordExtent c text
  | slash h => exact absurd (h ▸ by decide : c ∈ delimiters) hc
  | quote h => exact absurd (h ▸ by decide : c ∈ delimiters) hc
  | apostrophe h => exact absurd (h ▸ by decide : c ∈ delimiters) hc

/-- So it is cut off in front of any mark. -/
theorem exists_lexemes_of_plain {c : Char} (hc : c ∉ delimiters) (text : List Char) :
    ∃ kind more after, text = more ++ after ∧ (∀ d ∈ more, d ∉ breaks) ∧
      ∀ tail, Stops tail →
        lexemes (c :: (text ++ tail)) = ⟨kind, c :: more⟩ :: lexemes (after ++ tail) := by
  obtain ⟨more, after, rfl, hlength, hmore⟩ := coversPlain_extent hc text
  refine ⟨(extent c (more ++ after)).1, more, after, rfl, hmore, ?_⟩
  intro tail htail
  have hextent : extent c (more ++ (after ++ tail)) =
      ((extent c (more ++ after)).1, more.length) := by
    rw [← List.append_assoc, extent_append hc _ htail, ← hlength]
  rw [List.append_assoc]
  exact lexemes_of_extent more hextent

/-! ## Comments and literals -/

theorem lexemes_slash {rest : List Char} (hnext : ∀ c ∈ rest.head?, c ≠ '/' ∧ c ≠ '*') :
    lexemes ('/' :: rest) = ⟨.symbol, ['/']⟩ :: lexemes rest := by
  have hextent : extent '/' rest = (.symbol, 0) := by
    have hslash : extent '/' rest = slashExtent rest := rfl
    rw [hslash]
    unfold slashExtent
    split
    · exact absurd rfl (hnext '/' rfl).1
    · exact absurd rfl (hnext '*' rfl).2
    · rfl
  exact lexemes_of_extent [] hextent

theorem lexemes_lineComment {body rest : List Char} (hbody : '\n' ∉ body)
    (hline : rest.head? = some '\n') :
    lexemes ('/' :: '/' :: (body ++ rest)) = ⟨.lineComment, '/' :: '/' :: body⟩ :: lexemes rest := by
  have hextent : extent '/' (('/' :: body) ++ rest) = (.lineComment, ('/' :: body).length) := by
    have hrun : run (· != '\n') (('/' :: body) ++ rest) = ('/' :: body).length := by
      refine run_append ?_ ?_
      · intro c hc
        rw [bne_iff_ne]
        rintro rfl
        exact (List.mem_cons.mp hc).elim (by decide) hbody
      · intro c hc
        rw [hline, Option.mem_some_iff] at hc
        simp [← hc]
    have hslash : extent '/' (('/' :: body) ++ rest) =
        (.lineComment, run (· != '\n') (('/' :: body) ++ rest)) := rfl
    rw [hslash, hrun]
  exact lexemes_of_extent ('/' :: body) hextent

theorem lexemes_blockComment {body : List Char} (hbody : ¬['*', '/'] <:+: body)
    (rest : List Char) :
    lexemes ('/' :: '*' :: (body ++ '*' :: '/' :: rest)) =
      ⟨.blockComment, '/' :: '*' :: (body ++ ['*', '/'])⟩ :: lexemes rest := by
  have hextent : extent '/' (('*' :: (body ++ ['*', '/'])) ++ rest) =
      (.blockComment, ('*' :: (body ++ ['*', '/'])).length) := by
    have hclosing := closing?_comment hbody rest
    have hslash : extent '/' (('*' :: (body ++ ['*', '/'])) ++ rest) =
        slashExtent ('*' :: (body ++ '*' :: '/' :: rest)) := by
      simp [List.append_assoc, extent, isGap]
    rw [hslash, slashExtent, hclosing]
    simp
  have hlexemes := lexemes_of_extent _ hextent
  simpa [List.append_assoc] using hlexemes

/-- A quoted text is closed by the first ending behind it. -/
theorem closing?_quoted {ending body : List Char} (hbody : Quotable ending body)
    (hending : ∃ c more, ending = c :: more ∧ c ≠ '\\') (rest : List Char) :
    closing? ending true false (body ++ (ending ++ rest)) = some (body.length + ending.length) := by
  obtain ⟨first, more, rfl, hfirst⟩ := hending
  induction hbody with
  | nil => simp [closing?]
  | @escape c body h ih =>
    have hstart : (first :: more).isPrefixOf
        ('\\' :: c :: (body ++ (first :: more ++ rest))) = false := by
      simp [List.isPrefixOf, hfirst]
    rw [List.cons_append, List.cons_append, closing?, hstart, closing?]
    simp only [Bool.and_false, Bool.false_eq_true, if_false, Bool.not_false, Bool.not_true,
      Bool.true_and, Bool.false_and, beq_self_eq_true, ih, Option.map_some, List.length_cons]
    congr 1
    omega
  | @plain c body hc hend h ih =>
    have hstart : (first :: more).isPrefixOf (c :: (body ++ (first :: more ++ rest))) = false := by
      rw [Bool.eq_false_iff]
      intro hprefix
      -- the ending is no longer than what stands in front of the rest
      have hfront : c :: (body ++ first :: more) <+: c :: (body ++ (first :: more ++ rest)) :=
        ⟨rest, by simp [List.append_assoc]⟩
      have hlength : (first :: more).length ≤ (c :: (body ++ first :: more)).length := by
        simp only [List.length_cons, List.length_append]
        omega
      exact hend (List.prefix_of_prefix_length_le (List.isPrefixOf_iff_prefix.mp hprefix) hfront
        hlength)
    have hescape : (c == '\\') = false := beq_eq_false_iff_ne.mpr hc
    rw [List.cons_append, closing?, hstart]
    simp only [Bool.and_false, Bool.false_eq_true, if_false, Bool.not_false, Bool.true_and,
      hescape, ih, Option.map_some, List.length_cons]
    congr 1
    omega

theorem lexemes_string {body rest : List Char} (hbody : Quotable ['"'] body)
    (hempty : body = [] → rest.head? ≠ some '"') :
    lexemes ('"' :: (body ++ '"' :: rest)) = ⟨.quoted, '"' :: (body ++ ['"'])⟩ :: lexemes rest := by
  have hclosing := closing?_quoted hbody ⟨'"', [], rfl, by decide⟩ rest
  have hextent : extent '"' ((body ++ ['"']) ++ rest) = (.quoted, (body ++ ['"']).length) := by
    rw [List.append_assoc]
    have hquote : extent '"' (body ++ (['"'] ++ rest)) = quoteExtent (body ++ (['"'] ++ rest)) :=
      rfl
    rw [hquote, List.length_append]
    unfold quoteExtent
    split
    · next more heq =>
      -- the text between the quotes would begin with one
      cases hbody with
      | nil =>
        have hnext : rest = '"' :: more := (List.cons.inj heq).2
        exact absurd (by rw [hnext]; rfl) (hempty rfl)
      | escape c h => exact absurd (List.cons.inj heq).1 (by decide)
      | plain hc hend h =>
        obtain rfl := (List.cons.inj heq).1
        exact absurd (List.prefix_append ['"'] _) hend
    · rw [hclosing]
  have hlexemes := lexemes_of_extent _ hextent
  simpa [List.append_assoc] using hlexemes

theorem lexemes_textBlock {body : List Char} (hbody : Quotable ['"', '"', '"'] body)
    (rest : List Char) :
    lexemes ('"' :: '"' :: '"' :: (body ++ '"' :: '"' :: '"' :: rest)) =
      ⟨.quoted, '"' :: '"' :: '"' :: (body ++ ['"', '"', '"'])⟩ :: lexemes rest := by
  have hclosing := closing?_quoted hbody ⟨'"', ['"', '"'], rfl, by decide⟩ rest
  have hextent : extent '"' (('"' :: '"' :: (body ++ ['"', '"', '"'])) ++ rest) =
      (.quoted, ('"' :: '"' :: (body ++ ['"', '"', '"'])).length) := by
    have hquote : extent '"' (('"' :: '"' :: (body ++ ['"', '"', '"'])) ++ rest) =
        quoteExtent ('"' :: '"' :: (body ++ (['"', '"', '"'] ++ rest))) := by
      rw [List.cons_append, List.cons_append, List.append_assoc]
      rfl
    rw [hquote, quoteExtent, hclosing]
    simp
  have hlexemes := lexemes_of_extent _ hextent
  simpa [List.append_assoc] using hlexemes

theorem lexemes_character {body : List Char} (hbody : Quotable ['\''] body) (hline : '\n' ∉ body)
    (rest : List Char) :
    lexemes ('\'' :: (body ++ '\'' :: rest)) =
      ⟨.quoted, '\'' :: (body ++ ['\''])⟩ :: lexemes rest := by
  have hclosing := closing?_quoted hbody ⟨'\'', [], rfl, by decide⟩ (rest.takeWhile (· != '\n'))
  have hextent : extent '\'' ((body ++ ['\'']) ++ rest) = (.quoted, (body ++ ['\'']).length) := by
    have hrow : (body ++ (['\''] ++ rest)).takeWhile (· != '\n') =
        body ++ (['\''] ++ rest.takeWhile (· != '\n')) := by
      have hbody : ∀ c ∈ body, (c != '\n') = true :=
        fun c hc => bne_iff_ne.mpr fun h => hline (h ▸ hc)
      rw [List.takeWhile_append_of_pos hbody]
      simp
    have happend : (body ++ ['\'']) ++ rest = body ++ (['\''] ++ rest) := List.append_assoc ..
    have hapostrophe : extent '\'' (body ++ (['\''] ++ rest)) =
        apostropheExtent (body ++ (['\''] ++ rest)) := rfl
    rw [happend, hapostrophe, apostropheExtent, hrow, hclosing, List.length_append]
  have hlexemes := lexemes_of_extent _ hextent
  simpa [List.append_assoc] using hlexemes

end Lexeme

/-! ## Lexemes of enclosed text -/

/-- The lexemes of a text that stands in the place, with its brackets in pairs. -/
inductive LexemeRow : Position → List Lexeme → Prop where
  | nil (place : Position) : LexemeRow place []
  | single {place : Position} {lexeme : Lexeme} {rest : List Lexeme}
    (hsymbol : ∀ c ∈ bracketMarks ++ place.barred, lexeme ≠ ⟨.symbol, [c]⟩)
    (h : LexemeRow place rest) : LexemeRow place (lexeme :: rest)
  | group {place : Position} {pair : Char × Char} {inner rest : List Lexeme}
    (hpair : pair ∈ Brackets.nesting) (hplace : pair.1 ∉ place.barred)
    (hinner : LexemeRow .inside inner) (h : LexemeRow place rest) :
    LexemeRow place (⟨.symbol, [pair.1]⟩ :: (inner ++ ⟨.symbol, [pair.2]⟩ :: rest))
  | angles {place : Position} {inner rest : List Lexeme} (hplace : place.hasAngles = true)
    (hinner : LexemeRow .arguments inner) (h : LexemeRow place rest) :
    LexemeRow place (⟨.symbol, ['<']⟩ :: (inner ++ ⟨.symbol, ['>']⟩ :: rest))

theorem mem_marks_of_nesting {pair : Char × Char} (h : pair ∈ Brackets.nesting) :
    pair.1 ∈ marks ∧ pair.2 ∈ marks ∧ pair.2 ∈ stops ∧ pair.1 ∈ breaks := by
  simp only [Brackets.nesting, List.mem_cons, List.not_mem_nil, or_false] at h
  rcases h with rfl | rfl | rfl <;> decide

theorem Position.slash_not_mem (place : Position) : '/' ∉ bracketMarks ++ place.barred := by
  cases place <;> decide

theorem head?_append_of_stops {p : Char → Prop} {rest tail : List Char}
    (hrest : ∀ c ∈ rest.head?, p c) (htail : ∀ c ∈ tail.head?, p c) :
    ∀ c ∈ (rest ++ tail).head?, p c := by
  cases rest with
  | nil => exact htail
  | cons c rest => exact hrest

/-- The text is read as such a row, whatever mark follows it. -/
def ReadsRow (place : Position) (text : List Char) : Prop :=
  ∃ row, LexemeRow place row ∧ ∀ tail, Stops tail → lexemes (text ++ tail) = row ++ lexemes tail

namespace ReadsRow

variable {place : Position} {text rest : List Char}

theorem cons (hrest : ReadsRow place rest) {lexeme : Lexeme}
    (hsymbol : ∀ c ∈ bracketMarks ++ place.barred, lexeme ≠ ⟨.symbol, [c]⟩)
    (hfirst : ∀ tail, Stops tail → lexemes (text ++ tail) = lexeme :: lexemes (rest ++ tail)) :
    ReadsRow place text := by
  obtain ⟨row, hrow, hlexemes⟩ := hrest
  refine ⟨lexeme :: row, .single hsymbol hrow, fun tail htail => ?_⟩
  rw [hfirst tail htail, hlexemes tail htail, List.cons_append]

/-- A lexeme that is no symbol. -/
theorem cons_of_ne (hrest : ReadsRow place rest) {lexeme : Lexeme} (hkind : lexeme.kind ≠ .symbol)
    (hfirst : ∀ tail, Stops tail → lexemes (text ++ tail) = lexeme :: lexemes (rest ++ tail)) :
    ReadsRow place text := by
  refine cons hrest ?_ hfirst
  rintro c - rfl
  exact hkind rfl

theorem group {pair : Char × Char} (hpair : pair ∈ Brackets.nesting)
    (hplace : pair.1 ∉ place.barred) {inner : List Char} (hinner : ReadsRow .inside inner)
    (hrest : ReadsRow place rest) : ReadsRow place (pair.1 :: (inner ++ pair.2 :: rest)) := by
  obtain ⟨row, hrow, hlexemes⟩ := hinner
  obtain ⟨more, hmore, hlexemes'⟩ := hrest
  obtain ⟨hopening, hclosing, hstops, -⟩ := mem_marks_of_nesting hpair
  refine ⟨_, .group hpair hplace hrow hmore, fun tail htail => ?_⟩
  rw [List.cons_append, List.append_assoc, List.cons_append, lexemes_mark hopening,
    hlexemes _ (stops_cons hstops _), lexemes_mark hclosing, hlexemes' tail htail]
  simp only [List.cons_append, List.append_assoc]

theorem angles (hplace : place.hasAngles = true) {inner : List Char}
    (hinner : ReadsRow .arguments inner) (hrest : ReadsRow place rest) :
    ReadsRow place ('<' :: (inner ++ '>' :: rest)) := by
  obtain ⟨row, hrow, hlexemes⟩ := hinner
  obtain ⟨more, hmore, hlexemes'⟩ := hrest
  have hstops : '>' ∈ stops := by decide
  refine ⟨_, .angles hplace hrow hmore, fun tail htail => ?_⟩
  rw [List.cons_append, List.append_assoc, List.cons_append, lexemes_mark (by decide),
    hlexemes _ (stops_cons hstops _), lexemes_mark (by decide), hlexemes' tail htail]
  simp only [List.cons_append, List.append_assoc]

theorem slash (hrest : ReadsRow place rest) (hnext : ∀ c ∈ rest.head?, c ≠ '/' ∧ c ≠ '*') :
    ReadsRow place ('/' :: rest) := by
  have hsymbol : ∀ c ∈ bracketMarks ++ place.barred, (⟨.symbol, ['/']⟩ : Lexeme) ≠ ⟨.symbol, [c]⟩ := by
    intro c hc heq
    obtain ⟨rfl, -⟩ := List.cons.inj (Lexeme.mk.inj heq).2
    exact place.slash_not_mem hc
  refine hrest.cons hsymbol fun tail htail => lexemes_slash ?_
  refine head?_append_of_stops hnext fun c hc => ?_
  have hother := (ends_of_mem_stops (htail c hc)).2.2
  simp only [List.mem_cons, not_or] at hother
  exact ⟨hother.2.1, hother.2.2.1⟩

theorem lineComment (hrest : ReadsRow place rest) {body : List Char} (hbody : '\n' ∉ body)
    (hline : rest.head? = some '\n') : ReadsRow place ('/' :: '/' :: (body ++ rest)) := by
  have hkind : (⟨.lineComment, '/' :: '/' :: body⟩ : Lexeme).kind ≠ .symbol := by simp
  refine hrest.cons_of_ne hkind fun tail _ => ?_
  have hline' : (rest ++ tail).head? = some '\n' := by
    rw [List.head?_append, hline]
    rfl
  simpa only [List.cons_append, List.append_assoc] using lexemes_lineComment hbody hline'

theorem blockComment (hrest : ReadsRow place rest) {body : List Char}
    (hbody : ¬['*', '/'] <:+: body) :
    ReadsRow place ('/' :: '*' :: (body ++ '*' :: '/' :: rest)) := by
  have hkind : (⟨.blockComment, '/' :: '*' :: (body ++ ['*', '/'])⟩ : Lexeme).kind ≠ .symbol := by
    simp
  refine hrest.cons_of_ne hkind fun tail _ => ?_
  simpa only [List.cons_append, List.append_assoc] using lexemes_blockComment hbody (rest ++ tail)

theorem string (hrest : ReadsRow place rest) {body : List Char} (hbody : Quotable ['"'] body)
    (hempty : body = [] → rest.head? ≠ some '"') : ReadsRow place ('"' :: (body ++ '"' :: rest)) := by
  have hkind : (⟨.quoted, '"' :: (body ++ ['"'])⟩ : Lexeme).kind ≠ .symbol := by simp
  refine hrest.cons_of_ne hkind fun tail htail => ?_
  have hempty' : body = [] → (rest ++ tail).head? ≠ some '"' := by
    intro hnil
    have hnot : ∀ c ∈ (rest ++ tail).head?, c ≠ '"' := by
      refine head?_append_of_stops ?_ fun c hc => ?_
      · rintro c hc rfl
        exact hempty hnil hc
      · have hother := (ends_of_mem_stops (htail c hc)).2.2
        simp only [List.mem_cons, not_or] at hother
        exact hother.2.2.2.1
    exact fun hquote => hnot '"' hquote rfl
  simpa only [List.cons_append, List.append_assoc] using lexemes_string hbody hempty'

theorem textBlock (hrest : ReadsRow place rest) {body : List Char}
    (hbody : Quotable ['"', '"', '"'] body) :
    ReadsRow place ('"' :: '"' :: '"' :: (body ++ '"' :: '"' :: '"' :: rest)) := by
  have hkind : (⟨.quoted, '"' :: '"' :: '"' :: (body ++ ['"', '"', '"'])⟩ : Lexeme).kind ≠
      .symbol := by simp
  refine hrest.cons_of_ne hkind fun tail _ => ?_
  simpa only [List.cons_append, List.append_assoc] using lexemes_textBlock hbody (rest ++ tail)

theorem character (hrest : ReadsRow place rest) {body : List Char} (hbody : Quotable ['\''] body)
    (hline : '\n' ∉ body) : ReadsRow place ('\'' :: (body ++ '\'' :: rest)) := by
  have hkind : (⟨.quoted, '\'' :: (body ++ ['\''])⟩ : Lexeme).kind ≠ .symbol := by simp
  refine hrest.cons_of_ne hkind fun tail _ => ?_
  simpa only [List.cons_append, List.append_assoc] using
    lexemes_character hbody hline (rest ++ tail)

end ReadsRow

/-- Whatever part of a first lexeme has been read already: the rest of an enclosed text is a row of
lexemes with its brackets in pairs. -/
theorem Enclosed.readsRow_drop {place : Position} {text : List Char} (h : Enclosed place text)
    {read : Nat} (hread : ∀ c ∈ text.take read, c ∉ breaks) :
    ReadsRow place (text.drop read) := by
  -- nothing has been read of a text that begins with a break
  have hstart : ∀ {c : Char} {rest : List Char} {read : Nat}, c ∈ breaks →
      (∀ d ∈ (c :: rest).take read, d ∉ breaks) → read = 0 := by
    intro c rest read hc hread
    cases read with
    | zero => rfl
    | succ read => exact absurd hc (hread c (by simp))
  induction h generalizing read with
  | nil place =>
    rw [List.drop_nil]
    exact ⟨[], .nil place, fun tail _ => rfl⟩
  | @plain place c rest hc hplace h ih =>
    cases read with
    | succ read => exact ih fun d hd => hread d (List.mem_cons_of_mem _ hd)
    | zero =>
      obtain ⟨kind, more, after, rfl, hmore, hlexemes⟩ := exists_lexemes_of_plain hc rest
      have hafter : ReadsRow place ((more ++ after).drop more.length) :=
        ih fun d hd => hmore d (by simpa using hd)
      rw [List.drop_left] at hafter
      refine hafter.cons ?_ hlexemes
      rintro d hd heq
      obtain ⟨rfl, -⟩ := List.cons.inj (Lexeme.mk.inj heq).2
      rcases List.mem_append.mp hd with hd | hd
      · exact hc (by simp [delimiters, hd])
      · exact hplace hd
  | slash hnext h ih =>
    obtain rfl := hstart (by decide) hread
    exact (@ih 0 (by simp)).slash hnext
  | lineComment hbody hline h ih =>
    obtain rfl := hstart (by decide) hread
    exact (@ih 0 (by simp)).lineComment hbody hline
  | blockComment hbody h ih =>
    obtain rfl := hstart (by decide) hread
    exact (@ih 0 (by simp)).blockComment hbody
  | string hbody hempty h ih =>
    obtain rfl := hstart (by decide) hread
    exact (@ih 0 (by simp)).string hbody hempty
  | textBlock hbody h ih =>
    obtain rfl := hstart (by decide) hread
    exact (@ih 0 (by simp)).textBlock hbody
  | character hbody hline h ih =>
    obtain rfl := hstart (by decide) hread
    exact (@ih 0 (by simp)).character hbody hline
  | group hpair hplace hinner h ihinner ih =>
    obtain rfl := hstart (mem_marks_of_nesting hpair).2.2.2 hread
    exact .group hpair hplace (@ihinner 0 (by simp)) (@ih 0 (by simp))
  | angles hplace hinner h ihinner ih =>
    obtain rfl := hstart (by decide) hread
    exact .angles hplace (@ihinner 0 (by simp)) (@ih 0 (by simp))

theorem Enclosed.readsRow {place : Position} {text : List Char} (h : Enclosed place text) :
    ReadsRow place text :=
  h.readsRow_drop (show ∀ c ∈ text.take 0, c ∉ breaks by simp)

end JavaSignatures.Source
