import JavaSignatures.Source.Lexeme
import Mathlib.Data.List.TakeWhile

set_option autoImplicit false

/-!
# How far lexemes extend

`ExtendsBy` lists the kinds of lexemes that a character can begin, each with what it extends over,
and `extent_extendsBy` says that the list is complete: what is proved of lexemes from it does not
look at the order in which the reader asks.  A word holds nothing but the characters of words
(`isWordPart_of_mem_lexemes`), white space nothing but gaps (`isGap_of_mem_lexemes`), and a comment
begins with a slash (`head?_of_isComment`).
-/

namespace JavaSignatures.Source.Lexeme

open JavaSignatures.Character

/-- The lexeme that begins with `c` in front of `rest`: its kind and how many characters follow. -/
inductive ExtendsBy (c : Char) (rest : List Char) : LexemeKind × Nat → Prop
  | gap (h : isGap c = true) : ExtendsBy c rest (.blank, run isGap rest)
  | slash (h : c = '/') : ExtendsBy c rest (slashExtent rest)
  | quote (h : c = '"') : ExtendsBy c rest (quoteExtent rest)
  | apostrophe (h : c = '\'') : ExtendsBy c rest (apostropheExtent rest)
  | word (h : isIdentifierStart c = true) : ExtendsBy c rest (wordExtent c rest)
  | number (h : c.isDigit = true) : ExtendsBy c rest (.number, run isIdentifierPart rest)
  | ellipsis (h : c = '.') (hrest : ['.', '.'] <+: rest) : ExtendsBy c rest (.symbol, 2)
  | symbol (hgap : isGap c = false) (hslash : c ≠ '/') (hquote : c ≠ '"')
    (hapostrophe : c ≠ '\'') (hstart : isIdentifierStart c = false) (hdigit : c.isDigit = false)
    (hdots : c = '.' → ¬['.', '.'] <+: rest) : ExtendsBy c rest (.symbol, 0)

theorem extent_extendsBy (c : Char) (rest : List Char) : ExtendsBy c rest (extent c rest) := by
  unfold extent
  by_cases hgap : isGap c = true
  · rw [if_pos hgap]
    exact .gap hgap
  rw [if_neg hgap]
  by_cases hslash : c = '/'
  · rw [if_pos (beq_iff_eq.mpr hslash)]
    exact .slash hslash
  rw [if_neg (by simpa using hslash)]
  by_cases hquote : c = '"'
  · rw [if_pos (beq_iff_eq.mpr hquote)]
    exact .quote hquote
  rw [if_neg (by simpa using hquote)]
  by_cases hapostrophe : c = '\''
  · rw [if_pos (beq_iff_eq.mpr hapostrophe)]
    exact .apostrophe hapostrophe
  rw [if_neg (by simpa using hapostrophe)]
  by_cases hstart : isIdentifierStart c = true
  · rw [if_pos hstart]
    exact .word hstart
  rw [if_neg hstart]
  by_cases hdigit : c.isDigit = true
  · rw [if_pos hdigit]
    exact .number hdigit
  rw [if_neg hdigit]
  by_cases hdots : (c == '.' && ['.', '.'].isPrefixOf rest) = true
  · rw [if_pos hdots]
    rw [Bool.and_eq_true, beq_iff_eq, List.isPrefixOf_iff_prefix] at hdots
    exact .ellipsis hdots.1 hdots.2
  · rw [if_neg hdots]
    rw [Bool.and_eq_true, beq_iff_eq, List.isPrefixOf_iff_prefix] at hdots
    exact .symbol (by simpa using hgap) hslash hquote hapostrophe (by simpa using hstart)
      (by simpa using hdigit) fun hdot hrest => hdots ⟨hdot, hrest⟩

/-! ## Words -/

/-- A character of a word: one of an identifier, or the dash of the keyword that has one. -/
def isWordPart (c : Char) : Bool := isIdentifierPart c || c == '-'

theorem isWordPart_dashed : ∀ c ∈ "-sealed".toList, isWordPart c = true := by
  have hall : "-sealed".toList.all isWordPart = true := by decide +kernel
  exact List.all_eq_true.mp hall

theorem isWordPart_of_mem_take_run {rest : List Char} {c : Char}
    (h : c ∈ rest.take (run isIdentifierPart rest)) : isWordPart c = true := by
  rw [run, ← List.prefix_iff_eq_take.mp (List.takeWhile_prefix isIdentifierPart)] at h
  simp [isWordPart, List.mem_takeWhile_imp h]

theorem isWordPart_of_wordExtent {c d : Char} {rest : List Char}
    (h : d ∈ rest.take (wordExtent c rest).2) : isWordPart d = true := by
  unfold wordExtent at h
  dsimp only at h
  split at h
  · next hdashed =>
    -- the text goes on behind the run with the second part of the keyword
    rw [Bool.and_eq_true, Bool.and_eq_true, List.isPrefixOf_iff_prefix] at hdashed
    obtain ⟨after, hafter⟩ := hdashed.1.2
    rw [List.take_add, List.mem_append] at h
    rcases h with h | h
    · exact isWordPart_of_mem_take_run h
    · rw [← hafter, List.take_left] at h
      exact isWordPart_dashed d h
  · exact isWordPart_of_mem_take_run h

theorem slashExtent_ne_word (rest : List Char) : (slashExtent rest).1 ≠ .word := by
  unfold slashExtent
  split
  · simp
  · split <;> simp
  · simp

theorem quoteExtent_ne_word (rest : List Char) : (quoteExtent rest).1 ≠ .word := by
  unfold quoteExtent
  split <;> split <;> simp

theorem apostropheExtent_ne_word (rest : List Char) : (apostropheExtent rest).1 ≠ .word := by
  unfold apostropheExtent
  split <;> simp

theorem isWordPart_of_extent {c d : Char} {rest : List Char} (hkind : (extent c rest).1 = .word)
    (h : d ∈ c :: rest.take (extent c rest).2) : isWordPart d = true := by
  have hextent := extent_extendsBy c rest
  generalize extent c rest = extended at hkind h hextent
  cases hextent with
  | word hstart =>
    rcases List.mem_cons.mp h with rfl | h
    · simp [isWordPart, isIdentifierPart_of_isIdentifierStart hstart]
    · exact isWordPart_of_wordExtent h
  | slash => exact absurd hkind (slashExtent_ne_word rest)
  | quote => exact absurd hkind (quoteExtent_ne_word rest)
  | apostrophe => exact absurd hkind (apostropheExtent_ne_word rest)
  | gap | number | ellipsis | symbol => exact absurd hkind (by simp)

/-- What is so of all characters of the lexemes of a kind where they are cut off is so of them in
the text. -/
theorem forall_of_mem_collect {kind : LexemeKind} {p : Char → Bool}
    (hextent : ∀ c d rest, (extent c rest).1 = kind → d ∈ c :: rest.take (extent c rest).2 →
      p d = true) {begun : LexemeKind} {read : List Char} {pending : Nat} {rest : List Char}
    (hbegun : begun = kind → ∀ c ∈ read ++ rest.take pending, p c = true)
    {lexeme : Lexeme} (h : lexeme ∈ collect begun read pending rest) (hkind : lexeme.kind = kind) :
    ∀ c ∈ lexeme.text, p c = true := by
  induction rest generalizing begun read pending with
  | nil =>
    have hlast : lexeme = ⟨begun, read.reverse⟩ := by cases pending <;> simpa [collect] using h
    subst hlast
    intro c hc
    exact hbegun hkind c (List.mem_append_left _ (List.mem_reverse.mp hc))
  | cons d rest ih =>
    cases pending with
    | succ pending =>
      refine ih (fun hbegins c hc => hbegun hbegins c ?_) h
      simp only [List.cons_append, List.mem_cons, List.mem_append, List.take_succ_cons] at hc ⊢
      exact hc.elim (fun h => .inr (.inl h)) fun h => h.elim .inl fun h => .inr (.inr h)
    | zero =>
      rw [collect, List.mem_cons] at h
      rcases h with rfl | h
      · intro c hc
        exact hbegun hkind c (List.mem_append_left _ (List.mem_reverse.mp hc))
      · exact ih (fun hbegins c hc => hextent _ _ _ hbegins (by simpa using hc)) h

theorem forall_of_mem_lexemes {kind : LexemeKind} {p : Char → Bool}
    (hextent : ∀ c d rest, (extent c rest).1 = kind → d ∈ c :: rest.take (extent c rest).2 →
      p d = true) {text : List Char} {lexeme : Lexeme} (h : lexeme ∈ lexemes text)
    (hkind : lexeme.kind = kind) : ∀ c ∈ lexeme.text, p c = true := by
  cases text with
  | nil => exact absurd h (by simp [lexemes])
  | cons c rest =>
    exact forall_of_mem_collect hextent
      (fun hbegins d hd => hextent _ _ _ hbegins (by simpa using hd)) h hkind

/-- A lexeme that is a word has only characters of words. -/
theorem isWordPart_of_mem_lexemes {text : List Char} {lexeme : Lexeme}
    (h : lexeme ∈ lexemes text) (hword : lexeme.kind = .word) :
    ∀ c ∈ lexeme.text, isWordPart c = true :=
  forall_of_mem_lexemes (fun _ _ _ => isWordPart_of_extent) h hword

/-! ## White space -/

theorem isGap_of_extent {c d : Char} {rest : List Char} (hkind : (extent c rest).1 = .blank)
    (h : d ∈ c :: rest.take (extent c rest).2) : isGap d = true := by
  have hextent := extent_extendsBy c rest
  generalize extent c rest = extended at hkind h hextent
  cases hextent with
  | gap hgap =>
    rcases List.mem_cons.mp h with rfl | h
    · exact hgap
    · rw [run, ← List.prefix_iff_eq_take.mp (List.takeWhile_prefix isGap)] at h
      exact List.mem_takeWhile_imp h
  | slash =>
    unfold slashExtent at hkind
    split at hkind
    · simp at hkind
    · split at hkind <;> simp at hkind
    · simp at hkind
  | quote =>
    unfold quoteExtent at hkind
    split at hkind <;> split at hkind <;> simp at hkind
  | apostrophe =>
    unfold apostropheExtent at hkind
    split at hkind <;> simp at hkind
  | word =>
    unfold wordExtent at hkind
    dsimp only at hkind
    split at hkind <;> simp at hkind
  | number | ellipsis | symbol => exact absurd hkind (by simp)

/-- A lexeme that is white space holds nothing else. -/
theorem isGap_of_mem_lexemes {text : List Char} {lexeme : Lexeme} (h : lexeme ∈ lexemes text)
    (hblank : lexeme.kind = .blank) : ∀ c ∈ lexeme.text, isGap c = true :=
  forall_of_mem_lexemes (fun _ _ _ => isGap_of_extent) h hblank

/-! ## Comments -/

/-- Only a slash begins a comment. -/
theorem eq_slash_of_extent {c : Char} {rest : List Char}
    (h : (extent c rest).1 = .lineComment ∨ (extent c rest).1 = .blockComment) : c = '/' := by
  have hextent := extent_extendsBy c rest
  generalize extent c rest = extended at h hextent
  cases hextent with
  | slash hslash => exact hslash
  | quote =>
    unfold quoteExtent at h
    split at h <;> split at h <;> simp at h
  | apostrophe =>
    unfold apostropheExtent at h
    split at h <;> simp at h
  | word =>
    unfold wordExtent at h
    dsimp only at h
    split at h <;> simp at h
  | gap | number | ellipsis | symbol => simp at h

/-- A lexeme has the kind that its first character begins in front of some text, unless it had begun
before. -/
theorem exists_extent_of_mem_collect {kind : LexemeKind} {read : List Char} {pending : Nat}
    {rest : List Char} {lexeme : Lexeme} (h : lexeme ∈ collect kind read pending rest) :
    (lexeme.kind = kind ∧ ∃ more, lexeme.text = read.reverse ++ more) ∨
      ∃ c more after, lexeme.kind = (extent c after).1 ∧ lexeme.text = c :: more := by
  induction rest generalizing kind read pending with
  | nil =>
    have hlast : lexeme = ⟨kind, read.reverse⟩ := by cases pending <;> simpa [collect] using h
    exact Or.inl ⟨by rw [hlast], [], by rw [hlast, List.append_nil]⟩
  | cons d rest ih =>
    cases pending with
    | succ pending =>
      refine (ih h).imp_left ?_
      rintro ⟨hkind, more, htext⟩
      exact ⟨hkind, d :: more, by rw [htext, List.reverse_cons, List.append_assoc]; rfl⟩
    | zero =>
      rw [collect, List.mem_cons] at h
      rcases h with rfl | h
      · exact Or.inl ⟨rfl, [], (List.append_nil _).symm⟩
      · rcases ih h with ⟨hkind, more, htext⟩ | hlater
        · exact Or.inr ⟨d, more, rest, hkind, htext⟩
        · exact Or.inr hlater

theorem exists_extent_of_mem_lexemes {text : List Char} {lexeme : Lexeme}
    (h : lexeme ∈ lexemes text) :
    ∃ c more after, lexeme.kind = (extent c after).1 ∧ lexeme.text = c :: more := by
  cases text with
  | nil => exact absurd h (by simp [lexemes])
  | cons c rest =>
    rcases exists_extent_of_mem_collect h with ⟨hkind, more, htext⟩ | hlater
    · exact ⟨c, more, rest, hkind, htext⟩
    · exact hlater

theorem kind_of_isComment {lexeme : Lexeme} (h : lexeme.isComment = true) :
    lexeme.kind = .lineComment ∨ lexeme.kind = .blockComment := by
  unfold isComment isTrivia at h
  cases hkind : lexeme.kind <;> simp [hkind] at h ⊢

/-- A comment begins with a slash. -/
theorem head?_of_isComment {text : List Char} {lexeme : Lexeme} (h : lexeme ∈ lexemes text)
    (hcomment : lexeme.isComment = true) : lexeme.text.head? = some '/' := by
  obtain ⟨c, more, after, hkind, htext⟩ := exists_extent_of_mem_lexemes h
  have hslash : c = '/' := eq_slash_of_extent (hkind ▸ kind_of_isComment hcomment)
  rw [htext, hslash]
  rfl

end JavaSignatures.Source.Lexeme
