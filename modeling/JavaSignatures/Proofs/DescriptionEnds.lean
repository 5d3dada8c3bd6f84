import JavaSignatures.Proofs.BlankEdges

set_option autoImplicit false

/-!
# Where a description ends

Whatever the text, its normal form is a clean line: words and kept punctuation with single spaces
between them (`isCleanLine_normalize`).  Of a text with a line that begins with `@param`, `@return`
or `@deprecated` only what stands above the first of these lines is described
(`isCleanLine_and_normalize_before`).  Where the text is cut is said by concatenation: into what
stands before the line, the line and what follows (`IsFirstEnding`).
-/

namespace JavaSignatures.Text

/-! ## Parts around a part -/

theorem splitOn_line {separator : Char} {line after : List Char} (hline : separator ∉ line)
    (hafter : ∀ c ∈ after.head?, c = separator) :
    ∃ rest, (line ++ after).splitOn separator = line :: rest := by
  cases after with
  | nil =>
    rw [List.append_nil, List.splitOn_eq_singleton hline]
    exact ⟨[], rfl⟩
  | cons c after =>
    obtain rfl : c = separator := hafter c rfl
    exact ⟨after.splitOn c, List.splitOn_append_cons_self_of_not_mem hline after⟩

/-- What stands before a line is parted from it. -/
theorem splitOn_before {separator : Char} {before : List Char}
    (hbefore : ∀ c ∈ before.getLast?, c = separator) :
    ∃ init, before.splitOn separator = init ++ [[]] ∧
      ∀ rest, (before ++ rest).splitOn separator = init ++ rest.splitOn separator := by
  rcases List.eq_nil_or_concat' before with rfl | ⟨front, c, rfl⟩
  · exact ⟨[], rfl, fun rest => rfl⟩
  · obtain rfl : c = separator := hbefore c (by simp)
    refine ⟨front.splitOn c, List.splitOn_append_cons_self front [], fun rest => ?_⟩
    rw [List.append_assoc, List.singleton_append, List.splitOn_append_cons_self]

theorem intercalate_append_cons_append (separator : Char) (init : List (List Char))
    (part : List Char) (tail : List (List Char)) :
    [separator].intercalate (init ++ part :: tail) =
      init.flatMap (· ++ [separator]) ++ (part ++ tail.flatMap (separator :: ·)) := by
  have hrest : ∀ tail part, [separator].intercalate (part :: tail) =
      part ++ tail.flatMap (separator :: ·) := by
    intro tail
    induction tail with
    | nil => simp
    | cons next rest ih =>
      intro part
      rw [List.intercalate_cons_cons, ih, List.append_assoc]
      rfl
  induction init with
  | nil => exact hrest tail part
  | cons first init ih =>
    rw [List.cons_append, List.intercalate_cons_of_ne_nil (by simp), ih, List.flatMap_cons]
    simp

/-- Parts that each end with a separator are followed by an empty part. -/
theorem splitOn_flatMap {separator : Char} {parts : List (List Char)}
    (h : ∀ part ∈ parts, separator ∉ part) :
    (parts.flatMap (· ++ [separator])).splitOn separator = parts ++ [[]] := by
  have hjoined := intercalate_append_cons_append separator parts [] []
  rw [List.flatMap_nil, List.append_nil, List.append_nil] at hjoined
  rw [← hjoined]
  refine List.splitOn_intercalate separator (fun part hpart => ?_) (by simp)
  rcases List.mem_append.mp hpart with hpart | hpart
  · exact h part hpart
  · rw [List.mem_singleton.mp hpart]
    exact List.not_mem_nil

end JavaSignatures.Text

namespace JavaSignatures.Markup

open JavaSignatures.Character

/-! ## Clean lines -/

/-- A line of words and kept punctuation with single spaces between them. -/
structure IsCleanLine (line : List Char) : Prop where
  kept : ∀ c ∈ line, c = ' ' ∨ isAlphanumeric c = true ∨ c ∈ ['_', '$'] ∨ c ∈ punctuation
  blanks : ∀ c ∈ line, isBlank c = true → c = ' '
  marks : ∀ mark ∈ ['<', '>', '@', '*', '"'], mark ∉ line
  spaced : SpacedApart line
  head : line.head? ≠ some ' '
  last : line.getLast? ≠ some ' '

theorem isCleanLine_of_isPlainLine {line : List Char} (h : IsPlainLine line) :
    IsCleanLine line where
  kept c hc := by
    have hkeep := h.kept c hc
    unfold keep at hkeep
    split at hkeep
    · next hplain => simpa [isNamePart, or_assoc] using Or.inr hplain
    · split at hkeep
      · exact .inl (Option.some.inj hkeep).symm
      · contradiction
  blanks c hc := eq_space_of_isBlank (h.kept c hc)
  marks mark hmark hmem := by
    have hdropped : ∀ mark ∈ ['<', '>', '@', '*', '"'], keep mark = none := by decide +kernel
    have hkept := h.kept mark hmem
    rw [hdropped mark hmark] at hkept
    contradiction
  spaced := h.spaced
  head hhead := absurd (h.trimmed.head ' ' hhead) (by decide)
  last hlast := absurd (h.trimmed.last ' ' hlast) (by decide)

theorem isCleanLine_normalize (summary : Bool) (text : List Char) :
    IsCleanLine (normalize summary text) :=
  isCleanLine_of_isPlainLine (isPlainLine_normalize summary text)

/-! ## The cut -/

/-- The line ends the description: without its decoration it begins with one of the tags that do. -/
def isEndingLine (line : List Char) : Bool := endsDescription (undecorate line)

/-- The line between the two parts of the text is the first that ends the description. -/
structure IsFirstEnding (before line after : List Char) : Prop where
  starts : ∀ c ∈ before.getLast?, c = '\n'
  isOneLine : '\n' ∉ line
  stops : ∀ c ∈ after.head?, c = '\n'
  ends : isEndingLine line = true
  isFirst : ∀ earlier ∈ Text.lines before, isEndingLine earlier = false

theorem isEndingLine_dropReturn (line : List Char) :
    isEndingLine (Text.dropReturn line) = isEndingLine line := by
  rw [isEndingLine, undecorate_dropReturn, isEndingLine]

/-- The lines that end the description are found between the line feeds. -/
theorem any_lines_isEndingLine (text : List Char) :
    (Text.lines text).any isEndingLine = (text.splitOn '\n').any isEndingLine := by
  obtain ⟨init, last, hparts⟩ := Text.exists_concat_splitOn '\n' text
  have hsame : isEndingLine ∘ Text.dropReturn = isEndingLine := by
    funext line
    rw [Function.comp_apply, isEndingLine_dropReturn]
  have hinit : (init.map Text.dropReturn).any isEndingLine = init.any isEndingLine := by
    rw [List.any_map, hsame]
  rw [Text.lines, hparts, List.dropLast_concat, List.getLastD_concat, List.any_append,
    List.any_append, hinit]
  congr 1
  cases last with
  | nil => decide
  | cons c rest => simp

/-- A text with a line that ends the description is cut before the first of them. -/
theorem exists_isFirstEnding {line text : List Char} (hline : line ∈ Text.lines text)
    (hends : isEndingLine line = true) :
    ∃ before first after, text = before ++ (first ++ after) ∧ IsFirstEnding before first after := by
  have hany : (text.splitOn '\n').any isEndingLine = true := by
    rw [← any_lines_isEndingLine]
    exact List.any_eq_true.mpr ⟨line, hline, hends⟩
  obtain ⟨first, hfirst⟩ := Option.isSome_iff_exists.mp
    (List.find?_isSome.mpr (List.any_eq_true.mp hany))
  obtain ⟨hfirst, init, tail, hparts, hinit⟩ := List.find?_eq_some_iff_append.mp hfirst
  have hbreaks : ∀ part ∈ init ++ first :: tail, '\n' ∉ part := fun part hpart =>
    Text.not_mem_of_mem_splitOn (hparts ▸ hpart)
  have htext : ['\n'].intercalate (text.splitOn '\n') = text := List.intercalate_splitOn '\n'
  rw [hparts, Text.intercalate_append_cons_append] at htext
  refine ⟨_, first, _, htext.symm, ?starts, hbreaks first (by simp), ?stops, hfirst, ?isFirst⟩
  case starts => rcases List.eq_nil_or_concat' init with rfl | ⟨front, part, rfl⟩ <;> simp
  case stops => cases tail <;> simp
  case isFirst =>
    have hbefore : (init.flatMap (· ++ ['\n'])).splitOn '\n' = init ++ [[]] :=
      Text.splitOn_flatMap fun part hpart => hbreaks part (List.mem_append_left _ hpart)
    have hlast : isEndingLine [] = false := by decide
    have hnone : (Text.lines (init.flatMap (· ++ ['\n']))).any isEndingLine = false := by
      rw [any_lines_isEndingLine, hbefore, List.any_append,
        List.any_eq_false.mpr (by simpa using hinit)]
      simp [hlast]
    simpa using hnone

/-- Only what stands above the first line that ends the description is described. -/
theorem normalize_of_isFirstEnding (summary : Bool) {before line after : List Char}
    (h : IsFirstEnding before line after) :
    normalize summary (before ++ (line ++ after)) = normalize summary before := by
  obtain ⟨rest, hrest⟩ := Text.splitOn_line h.isOneLine h.stops
  obtain ⟨init, hinit, hsplit⟩ := Text.splitOn_before h.starts
  have hnone : ∀ part ∈ init, (!isEndingLine part) = true := by
    intro part hpart
    have hany : (before.splitOn '\n').any isEndingLine = false := by
      rw [← any_lines_isEndingLine]
      simpa using h.isFirst
    rw [hinit, List.any_append, Bool.or_eq_false_iff] at hany
    simpa using List.any_eq_false.mp hany.1 part hpart
  have hdescribing : describingLines ((init ++ line :: rest).map undecorate) =
      describingLines (init.map undecorate) := by
    have hall : ∀ part ∈ init.map undecorate, (!endsDescription part) = true := by
      intro part hpart
      obtain ⟨raw, hraw, rfl⟩ := List.mem_map.mp hpart
      exact hnone raw hraw
    have hends : ¬(!endsDescription (undecorate line)) = true := by
      rw [← isEndingLine, h.ends]
      decide
    rw [describingLines, List.map_append, List.map_cons, List.takeWhile_append_of_pos hall,
      List.takeWhile_cons_of_neg (p := fun line => !endsDescription line) hends, List.append_nil,
      describingLines, List.takeWhile_eq_self_iff.mpr hall]
  rw [normalize_eq, normalize_eq, hsplit, hrest, hinit, descriptionOf, hdescribing,
    ← descriptionOf, List.map_append]
  exact (plainLine_concat_nil summary _).symm

/-- The normal form of every text is a clean line; of a text with a line that ends the description
it is that of what stands above the first of these lines. -/
theorem isCleanLine_and_normalize_before (summary : Bool) (text : List Char) :
    IsCleanLine (normalize summary text) ∧
      ((∃ line ∈ Text.lines text, isEndingLine line = true) →
        ∃ before line after, text = before ++ (line ++ after) ∧ IsFirstEnding before line after) ∧
      ∀ before line after, text = before ++ (line ++ after) → IsFirstEnding before line after →
        normalize summary text = normalize summary before := by
  refine ⟨isCleanLine_normalize summary text, ?_, ?_⟩
  · rintro ⟨line, hline, hends⟩
    exact exists_isFirstEnding hline hends
  · rintro before line after rfl h
    exact normalize_of_isFirstEnding summary h

end JavaSignatures.Markup
