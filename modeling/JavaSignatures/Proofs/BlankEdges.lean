import JavaSignatures.Proofs.PlainLines

set_option autoImplicit false

/-!
# Blanks around a description

White space around a text does not show in its normal form (`normalize_trim`), and neither do empty
lines around its descriptive part (`plainLine_nil_cons`, `plainLine_concat_nil`).  A space at one
end of the line passes through every step up to the last, which trims.

The lines of a text are taken here as what stands between its line feeds (`normalize_eq`): the
carriage return before a line feed and an empty last line make no difference.
-/

namespace JavaSignatures.Text

/-! ## Spaces around a pass of replacements -/

/-- Spaces at the ends of a text come through unchanged. -/
structure PassesSpaces (f : List Char → List Char) : Prop where
  cons : ∀ text, f (' ' :: text) = ' ' :: f text
  concat : ∀ text, f (text ++ [' ']) = f text ++ [' ']

theorem PassesSpaces.comp {f g : List Char → List Char} (hf : PassesSpaces f)
    (hg : PassesSpaces g) : PassesSpaces (f ∘ g) where
  cons text := by rw [Function.comp_apply, hg.cons, hf.cons, Function.comp_apply]
  concat text := by rw [Function.comp_apply, hg.concat, hf.concat, Function.comp_apply]

/-- The rule takes no part in the spaces around a text, and replaces no more than the text. -/
structure IgnoresSpaces (rule : List Char → Option (List Char × Nat)) : Prop where
  cons : ∀ text, rule (' ' :: text) = none
  concat : ∀ text, rule (text ++ [' ']) = rule text
  count_le : ∀ text replacement count,
    rule text = some (replacement, count) → count ≤ text.length

namespace IgnoresSpaces

variable {rule : List Char → Option (List Char × Nat)}

theorem replaceBy_cons (h : IgnoresSpaces rule) (text : List Char) :
    replaceBy rule (' ' :: text) = ' ' :: replaceBy rule text := by
  rw [replaceBy, replaceFrom, h.cons]
  rfl

theorem replaceFrom_concat (h : IgnoresSpaces rule) {pending : Nat} {text : List Char}
    (hpending : pending ≤ text.length) :
    replaceFrom rule pending (text ++ [' ']) = replaceFrom rule pending text ++ [' '] := by
  induction text generalizing pending with
  | nil =>
    obtain rfl := Nat.le_zero.mp hpending
    simp [replaceFrom, h.cons]
  | cons c rest ih =>
    rw [List.length_cons] at hpending
    cases pending with
    | succ pending => exact ih (Nat.le_of_succ_le_succ hpending)
    | zero =>
      have hrule : rule (c :: (rest ++ [' '])) = rule (c :: rest) := h.concat (c :: rest)
      rw [List.cons_append, replaceFrom, replaceFrom, hrule]
      split
      next replacement count hcount =>
        have hle := h.count_le _ _ _ hcount
        rw [List.length_cons] at hle
        rw [ih (by omega), List.append_assoc]
      next => rw [ih (Nat.zero_le _), List.cons_append]

theorem passesSpaces_replaceBy (h : IgnoresSpaces rule) : PassesSpaces (replaceBy rule) where
  cons := h.replaceBy_cons
  concat _ := h.replaceFrom_concat (Nat.zero_le _)

end IgnoresSpaces

theorem isPrefixOf_concat_space {start : List Char} (hstart : ' ' ∉ start) (text : List Char) :
    start.isPrefixOf (text ++ [' ']) = start.isPrefixOf text := by
  rw [Bool.eq_iff_iff, List.isPrefixOf_iff_prefix, List.isPrefixOf_iff_prefix,
    List.prefix_concat_iff, or_iff_right]
  rintro rfl
  exact hstart (by simp)

theorem after?_concat_space {start : List Char} (hstart : ' ' ∉ start) (text : List Char) :
    after? start (text ++ [' ']) = (after? start text).map (· ++ [' ']) := by
  simp only [after?, isPrefixOf_concat_space hstart]
  split
  next hprefix =>
    have hle := (List.isPrefixOf_iff_prefix.mp hprefix).length_le
    rw [List.drop_append_of_le_length hle]
    rfl
  next => rfl

/-! ## Parts with a character more -/

section Parts

variable {separator : Char} {text : List Char}

theorem intercalate_concat_nil (separator : List Char) {parts : List (List Char)}
    (hne : parts ≠ []) :
    separator.intercalate (parts ++ [[]]) = separator.intercalate parts ++ separator := by
  rw [intercalate_append hne (by simp), List.intercalate_singleton, List.append_nil]

theorem exists_concat_splitOn (separator : Char) (text : List Char) :
    ∃ init last, text.splitOn separator = init ++ [last] :=
  (List.eq_nil_or_concat' _).resolve_left (List.splitOn_ne_nil separator text)

theorem not_mem_of_mem_splitOn {part : List Char} (h : part ∈ text.splitOn separator) :
    separator ∉ part := by
  induction text generalizing part with
  | nil =>
    rw [List.mem_singleton.mp h]
    exact List.not_mem_nil
  | cons c rest ih =>
    rw [List.splitOn_cons_eq_if_modifyHead] at h
    split at h
    next =>
      rcases List.mem_cons.mp h with rfl | h
      · exact List.not_mem_nil
      · exact ih h
    next hc =>
      obtain ⟨first, parts, hparts⟩ :=
        List.exists_cons_of_ne_nil (List.splitOn_ne_nil separator rest)
      rw [hparts] at ih h
      rcases List.mem_cons.mp h with rfl | h
      · rw [List.mem_cons, not_or]
        exact ⟨fun heq => hc (by simp [heq]), ih List.mem_cons_self⟩
      · exact ih (List.mem_cons_of_mem _ h)

theorem splitOn_cons_of_ne {c : Char} (hc : c ≠ separator) (text : List Char) :
    ∃ first rest, text.splitOn separator = first :: rest ∧
      (c :: text).splitOn separator = (c :: first) :: rest := by
  obtain ⟨first, rest, hparts⟩ := List.exists_cons_of_ne_nil (List.splitOn_ne_nil separator text)
  refine ⟨first, rest, hparts, ?_⟩
  rw [List.splitOn_cons_eq_if_modifyHead, if_neg (by simpa using hc), hparts, List.modifyHead_cons]

theorem splitOn_concat_of_ne {c : Char} (hc : c ≠ separator) (text : List Char) :
    ∃ init last, text.splitOn separator = init ++ [last] ∧
      (text ++ [c]).splitOn separator = init ++ [last ++ [c]] := by
  obtain ⟨init, last, hparts⟩ := exists_concat_splitOn separator text
  refine ⟨init, last, hparts, ?_⟩
  have hjoined : text ++ [c] = [separator].intercalate (init ++ [last ++ [c]]) := by
    rw [intercalate_concat_append, ← hparts, List.intercalate_splitOn]
  have hparted : ∀ part ∈ init ++ [last ++ [c]], separator ∉ part := by
    intro part hpart
    rcases List.mem_append.mp hpart with hpart | hpart
    · exact not_mem_of_mem_splitOn (hparts ▸ List.mem_append_left _ hpart)
    · have hlast : separator ∉ last :=
        not_mem_of_mem_splitOn (hparts ▸ List.mem_append_right init List.mem_cons_self)
      rw [List.mem_singleton.mp hpart]
      simp [hlast, Ne.symm hc]
  rw [hjoined, List.splitOn_intercalate separator hparted (by simp)]

end Parts

end JavaSignatures.Text

namespace JavaSignatures.Markup

open JavaSignatures.Character

/-! ## The rules -/

section Rules

variable {p : Char → Bool} {text argument : List Char}

theorem ignoresSpaces_elementRule : Text.IgnoresSpaces elementRule where
  cons _ := rfl
  concat text := by
    cases text with
    | nil => rfl
    | cons c rest =>
      by_cases hc : c = '<'
      · subst hc
        simp only [List.cons_append, elementRule]
        by_cases hclosed : '>' ∈ rest
        · obtain ⟨before, after, rfl, hbefore⟩ := List.eq_append_cons_of_mem hclosed
          rw [List.append_assoc, List.cons_append, Text.takeWhile_ne_append hbefore,
            Text.takeWhile_ne_append hbefore]
          simp
        · simp [hclosed]
      · simp [elementRule, hc]
  count_le text replacement count h := by
    unfold elementRule at h
    split at h
    next rest =>
      split at h
      next hclosed =>
        obtain ⟨before, after, rfl, hbefore⟩ :=
          List.eq_append_cons_of_mem (List.contains_iff_mem.mp hclosed)
        rw [Text.takeWhile_ne_append hbefore] at h
        obtain ⟨-, rfl⟩ := Prod.mk.inj (Option.some.inj h)
        simp
      next => contradiction
    next => contradiction

theorem ignoresSpaces_addressRule : Text.IgnoresSpaces addressRule where
  cons _ := rfl
  concat text := by
    cases text with
    | nil => rfl
    | cons c rest =>
      by_cases hc : c = '\\'
      · subst hc
        simp only [List.cons_append, addressRule]
        rw [Text.isPrefixOf_concat_space (by decide), Text.isPrefixOf_concat_space (by decide)]
      · simp [addressRule, hc]
  count_le text replacement count h := by
    unfold addressRule at h
    split at h
    next rest =>
      split at h
      · obtain ⟨-, rfl⟩ := Prod.mk.inj (Option.some.inj h)
        simp
      · contradiction
    next => contradiction

theorem exists_of_closedRun? (h : closedRun? p text = some argument) :
    ∃ rest, text = argument ++ '}' :: rest := by
  unfold closedRun? at h
  split at h
  next rest hrest =>
    refine ⟨rest, ?_⟩
    rw [← hrest, ← Option.some.inj h, List.takeWhile_append_dropWhile]
  next => contradiction

theorem closedRun?_concat_space (text : List Char) :
    closedRun? p (text ++ [' ']) = closedRun? p text := by
  unfold closedRun?
  rw [List.dropWhile_append, List.takeWhile_append]
  cases hrest : text.dropWhile p with
  | nil => cases hspace : p ' ' <;> simp [hspace]
  | cons c rest =>
    have hlength : (text.takeWhile p).length ≠ text.length := by
      have hall := congrArg List.length (List.takeWhile_append_dropWhile (p := p) (l := text))
      rw [hrest, List.length_append, List.length_cons] at hall
      omega
    rw [if_neg (by simp), if_neg hlength]
    by_cases hc : c = '}'
    · subst hc
      rfl
    · simp [hc]

theorem length_optionalBlank (text : List Char) :
    (optionalBlank text).1.length + (optionalBlank text).2 = text.length := by
  cases text with
  | nil => rfl
  | cons c rest => cases hc : isBlank c <;> simp [optionalBlank, hc]

theorem ignoresSpaces_linkRule {opening : List Char} (hopening : ' ' ∉ opening)
    (hne : opening ≠ []) : Text.IgnoresSpaces (linkRule opening p) where
  cons text := by
    have hnot : Text.after? opening (' ' :: text) = none := by
      refine Option.eq_none_iff_forall_ne_some.mpr fun rest hrest => ?_
      obtain ⟨c, more, rfl⟩ := List.exists_cons_of_ne_nil hne
      have hc := (List.cons.inj (Text.after?_eq_some_iff.mp hrest)).1
      exact hopening (hc ▸ List.mem_cons_self)
    rw [linkRule, hnot]
    rfl
  concat text := by
    rw [linkRule, linkRule, Text.after?_concat_space hopening]
    cases hinside : Text.after? opening text with
    | none => rfl
    | some inside =>
      cases inside with
      | nil => rfl
      | cons c rest =>
        simp only [Option.map_some, Option.bind_eq_bind, Option.bind_some, List.cons_append,
          optionalBlank]
        cases isBlank c with
        | true => simp only [if_true, closedRun?_concat_space]
        | false =>
          have hclosed := closedRun?_concat_space (p := p) (c :: rest)
          rw [List.cons_append] at hclosed
          simp [hclosed]
  count_le text replacement count h := by
    simp only [linkRule, Option.bind_eq_bind, Option.bind_eq_some_iff] at h
    obtain ⟨inside, hinside, argument, hclosed, hcount⟩ := h
    obtain ⟨rest, hrest⟩ := exists_of_closedRun? hclosed
    have hlength := length_optionalBlank inside
    rw [hrest, List.length_append, List.length_cons] at hlength
    split at hcount
    · contradiction
    · obtain ⟨-, rfl⟩ := Prod.mk.inj (Option.some.inj hcount)
      rw [Text.after?_eq_some_iff.mp hinside, List.length_append]
      omega

theorem not_isWord_space : isWord ' ' = false := not_isWord_of_isBlank (by decide)

theorem ignoresSpaces_tagRule : Text.IgnoresSpaces tagRule where
  cons _ := rfl
  concat text := by
    rw [tagRule, tagRule, Text.after?_concat_space (by decide)]
    cases hinside : Text.after? ['{', '@'] text with
    | none => rfl
    | some inside =>
      simp only [Option.map_some, Option.bind_eq_bind, Option.bind_some,
        takeWhile_append_stop not_isWord_space, dropWhile_append_stop not_isWord_space]
      cases (inside.takeWhile isWord).isEmpty with
      | true => rfl
      | false =>
        cases inside.dropWhile isWord with
        | nil => rfl
        | cons c start => simp only [List.cons_append, closedRun?_concat_space]
  count_le text replacement count h := by
    simp only [tagRule, Option.bind_eq_bind, Option.bind_eq_some_iff] at h
    obtain ⟨inside, hinside, h⟩ := h
    split at h
    next c start _ hstart =>
      split at h
      next =>
        obtain ⟨argument, hclosed, hcount⟩ := Option.bind_eq_some_iff.mp h
        obtain ⟨rest, rfl⟩ := exists_of_closedRun? hclosed
        have hlength :=
          congrArg List.length (List.takeWhile_append_dropWhile (p := isWord) (l := inside))
        rw [hstart, List.length_append, List.length_cons, List.length_append, List.length_cons]
          at hlength
        split at hcount
        · contradiction
        · obtain ⟨-, rfl⟩ := Prod.mk.inj (Option.some.inj hcount)
          rw [Text.after?_eq_some_iff.mp hinside, List.length_append]
          simp only [List.length_cons, List.length_nil]
          omega
      next => contradiction
    next => contradiction

theorem ignoresSpaces_inlineRules : ∀ rule ∈ inlineRules, Text.IgnoresSpaces rule := by
  intro rule hrule
  simp only [inlineRules, List.mem_cons, List.not_mem_nil, or_false] at hrule
  rcases hrule with rfl | rfl | rfl | rfl | rfl
  · exact ignoresSpaces_linkRule (by decide) (by decide)
  · exact ignoresSpaces_linkRule (by decide) (by decide)
  · exact ignoresSpaces_linkRule (by decide) (by decide)
  · exact ignoresSpaces_linkRule (by decide) (by decide)
  · exact ignoresSpaces_tagRule

end Rules

/-! ## Spaces around a line -/

section Spaces

/-- What plain text keeps of a descriptive part without its elements and inline tags. -/
def rewritten (text : List Char) : List Char :=
  (inlineRules.foldl (fun text rule => Text.replaceBy rule text)
    (Text.replaceBy elementRule text)).filterMap keep

/-- The plain line that a descriptive part becomes. -/
def plainLine (text : List Char) : List Char :=
  Text.trim (unescape (collapse false (rewritten text)))

theorem passesSpaces_filterMap_keep : Text.PassesSpaces (List.filterMap keep) := by
  have hspace : keep ' ' = some ' ' := by decide
  exact ⟨fun text => by simp [hspace], fun text => by simp [hspace]⟩

theorem passesSpaces_foldl {rules : List (List Char → Option (List Char × Nat))}
    (h : ∀ rule ∈ rules, Text.IgnoresSpaces rule) :
    Text.PassesSpaces (rules.foldl fun text rule => Text.replaceBy rule text) := by
  induction rules with
  | nil => exact ⟨fun _ => rfl, fun _ => rfl⟩
  | cons rule rules ih =>
    have hrules := ih fun other hother => h other (List.mem_cons_of_mem _ hother)
    exact hrules.comp (h rule List.mem_cons_self).passesSpaces_replaceBy

theorem passesSpaces_rewritten : Text.PassesSpaces rewritten :=
  passesSpaces_filterMap_keep.comp
    ((passesSpaces_foldl ignoresSpaces_inlineRules).comp
      ignoresSpaces_elementRule.passesSpaces_replaceBy)

theorem collapse_cons_space (text : List Char) :
    collapse false (' ' :: text) = ' ' :: collapse false text ∨
      collapse false (' ' :: text) = collapse false text := by
  cases text with
  | nil => exact .inl rfl
  | cons c rest =>
    by_cases hc : c = ' '
    · subst hc
      exact .inr (by simp [collapse])
    · exact .inl (by simp [collapse, hc])

theorem collapse_concat_space (space : Bool) (text : List Char) :
    collapse space (text ++ [' ']) = collapse space text ++ [' '] ∨
      collapse space (text ++ [' ']) = collapse space text := by
  induction text generalizing space with
  | nil => cases space <;> simp [collapse]
  | cons c rest ih =>
    rw [List.cons_append, collapse, collapse]
    split
    · cases space
      · exact (ih true).imp (congrArg (' ' :: ·)) (congrArg (' ' :: ·))
      · exact ih true
    · exact (ih false).imp (congrArg (c :: ·)) (congrArg (c :: ·))

theorem isBlank_of_mem_space : ∀ c ∈ [' '], isBlank c = true := by decide

theorem plainLine_cons_space (text : List Char) : plainLine (' ' :: text) = plainLine text := by
  have hunescape := ignoresSpaces_addressRule.passesSpaces_replaceBy
  rw [plainLine, passesSpaces_rewritten.cons, plainLine]
  rcases collapse_cons_space (rewritten text) with h | h
  · rw [h, unescape, hunescape.cons]
    exact Text.trim_blanks_append isBlank_of_mem_space _
  · rw [h]

theorem plainLine_concat_space (text : List Char) :
    plainLine (text ++ [' ']) = plainLine text := by
  have hunescape := ignoresSpaces_addressRule.passesSpaces_replaceBy
  rw [plainLine, passesSpaces_rewritten.concat, plainLine]
  rcases collapse_concat_space false (rewritten text) with h | h
  · rw [h, unescape, hunescape.concat]
    exact Text.trim_append_blanks _ isBlank_of_mem_space
  · rw [h]

end Spaces

/-! ## Empty lines around the descriptive part -/

section Lines

variable {lines : List (List Char)}

/-- The lines of the descriptive part among the undecorated lines of a comment. -/
def describingLines (lines : List (List Char)) : List (List Char) :=
  (lines.takeWhile fun line => !endsDescription line).filter fun line => line.head? != some '@'

/-- The descriptive part of a comment with the given undecorated lines, on one line. -/
def descriptionOf (summary : Bool) (lines : List (List Char)) : List Char :=
  [' '].intercalate (if summary then firstSentence false (describingLines lines)
    else describingLines lines)

theorem describingLines_nil_cons (lines : List (List Char)) :
    describingLines ([] :: lines) = [] :: describingLines lines := by
  have hends : endsDescription [] = false := by decide
  simp only [describingLines, List.takeWhile_cons, hends, Bool.not_false, if_true]
  rfl

theorem describingLines_concat_nil (lines : List (List Char)) :
    describingLines (lines ++ [[]]) = describingLines lines ++ [[]] ∨
      describingLines (lines ++ [[]]) = describingLines lines := by
  have hends : endsDescription [] = false := by decide
  unfold describingLines
  rw [List.takeWhile_append]
  split
  next hlength =>
    left
    rw [(List.takeWhile_prefix _).eq_of_length hlength]
    simp [hends]
  next => exact .inr rfl

theorem firstSentence_concat_nil (seen : Bool) (lines : List (List Char)) :
    firstSentence seen (lines ++ [[]]) = firstSentence seen lines ++ [[]] ∨
      firstSentence seen (lines ++ [[]]) = firstSentence seen lines := by
  induction lines generalizing seen with
  | nil => cases seen <;> simp [firstSentence]
  | cons line rest ih =>
    simp only [List.cons_append, firstSentence]
    split
    · exact .inr rfl
    · exact (ih _).imp (congrArg (line :: ·)) (congrArg (line :: ·))

theorem plainLine_intercalate_nil_cons (lines : List (List Char)) :
    plainLine ([' '].intercalate ([] :: lines)) = plainLine ([' '].intercalate lines) := by
  cases lines with
  | nil => rfl
  | cons line rest => exact plainLine_cons_space _

theorem plainLine_intercalate_concat_nil (lines : List (List Char)) :
    plainLine ([' '].intercalate (lines ++ [[]])) = plainLine ([' '].intercalate lines) := by
  cases lines with
  | nil => rfl
  | cons line rest =>
    rw [Text.intercalate_concat_nil [' '] (List.cons_ne_nil line rest)]
    exact plainLine_concat_space _

/-- An empty line in front of the others does not show. -/
theorem plainLine_nil_cons (summary : Bool) (lines : List (List Char)) :
    plainLine (descriptionOf summary ([] :: lines)) = plainLine (descriptionOf summary lines) := by
  rw [descriptionOf, descriptionOf, describingLines_nil_cons]
  cases summary
  · exact plainLine_intercalate_nil_cons _
  · exact plainLine_intercalate_nil_cons (firstSentence false (describingLines lines))

/-- An empty line behind the others does not show. -/
theorem plainLine_concat_nil (summary : Bool) (lines : List (List Char)) :
    plainLine (descriptionOf summary (lines ++ [[]])) =
      plainLine (descriptionOf summary lines) := by
  rw [descriptionOf, descriptionOf]
  rcases describingLines_concat_nil lines with h | h
  · rw [h]
    cases summary
    · exact plainLine_intercalate_concat_nil _
    · rcases firstSentence_concat_nil false (describingLines lines) with h | h
      · simp only [h, if_true]
        exact plainLine_intercalate_concat_nil _
      · simp only [h, if_true]
  · rw [h]

end Lines

/-! ## White space around a text -/

theorem undecorate_dropReturn (line : List Char) :
    undecorate (Text.dropReturn line) = undecorate line := by
  rw [undecorate, Text.trim_dropReturn, undecorate]

/-- The normal form of a text by what stands between its line feeds. -/
theorem normalize_eq (summary : Bool) (text : List Char) :
    normalize summary text =
      plainLine (descriptionOf summary ((text.splitOn '\n').map undecorate)) := by
  change plainLine (descriptionOf summary ((Text.lines text).map undecorate)) = _
  obtain ⟨init, last, hparts⟩ := Text.exists_concat_splitOn '\n' text
  have hinit : (init.map Text.dropReturn).map undecorate = init.map undecorate := by
    rw [List.map_map]
    refine List.map_congr_left fun line _ => ?_
    rw [Function.comp_apply, undecorate_dropReturn]
  rw [Text.lines, hparts, List.dropLast_concat, List.getLastD_concat, List.map_append,
    List.map_append, hinit]
  split
  next hempty =>
    rw [List.isEmpty_iff.mp hempty, List.map_nil, List.append_nil]
    exact (plainLine_concat_nil summary _).symm
  next => rfl

section Blank

variable {c : Char}

theorem normalize_cons_blank (summary : Bool) (hc : isBlank c = true) (text : List Char) :
    normalize summary (c :: text) = normalize summary text := by
  rw [normalize_eq, normalize_eq]
  by_cases hbreak : c = '\n'
  · rw [hbreak, List.splitOn_cons_eq_if_modifyHead, if_pos (by simp), List.map_cons]
    exact plainLine_nil_cons summary _
  · obtain ⟨first, rest, htext, hcons⟩ := Text.splitOn_cons_of_ne hbreak text
    have hfirst : undecorate (c :: first) = undecorate first := by
      rw [undecorate, ← List.singleton_append, Text.trim_blanks_append (by simpa using hc),
        undecorate]
    rw [htext, hcons, List.map_cons, List.map_cons, hfirst]

theorem normalize_concat_blank (summary : Bool) (hc : isBlank c = true) (text : List Char) :
    normalize summary (text ++ [c]) = normalize summary text := by
  rw [normalize_eq, normalize_eq]
  by_cases hbreak : c = '\n'
  · rw [hbreak, List.splitOn_append_cons_self, List.map_append]
    exact plainLine_concat_nil summary _
  · obtain ⟨init, last, htext, hconcat⟩ := Text.splitOn_concat_of_ne hbreak text
    have hlast : undecorate (last ++ [c]) = undecorate last := by
      rw [undecorate, Text.trim_append_blanks _ (by simpa using hc), undecorate]
    rw [htext, hconcat, List.map_append, List.map_append, List.map_singleton, hlast,
      List.map_singleton]

end Blank

section Blanks

variable {blanks : List Char}

theorem normalize_blanks_append (summary : Bool) (h : ∀ c ∈ blanks, isBlank c = true)
    (text : List Char) : normalize summary (blanks ++ text) = normalize summary text := by
  induction blanks with
  | nil => rfl
  | cons c rest ih =>
    rw [List.cons_append, normalize_cons_blank summary (h c List.mem_cons_self)]
    exact ih fun d hd => h d (List.mem_cons_of_mem _ hd)

theorem normalize_append_blanks (summary : Bool) (h : ∀ c ∈ blanks, isBlank c = true)
    (text : List Char) : normalize summary (text ++ blanks) = normalize summary text := by
  induction blanks generalizing text with
  | nil => rw [List.append_nil]
  | cons c rest ih =>
    rw [← List.singleton_append, ← List.append_assoc,
      ih (fun d hd => h d (List.mem_cons_of_mem _ hd)),
      normalize_concat_blank summary (h c List.mem_cons_self)]

/-- White space around a text does not show. -/
theorem normalize_trim (summary : Bool) (text : List Char) :
    normalize summary (Text.trim text) = normalize summary text := by
  have hfront : ∀ c ∈ text.takeWhile isBlank, isBlank c = true := fun c hc =>
    List.mem_takeWhile_imp hc
  obtain ⟨blanks, hblanks, hrest⟩ := Text.exists_append_trimEnd isBlank (text.dropWhile isBlank)
  conv_rhs => rw [← List.takeWhile_append_dropWhile (p := isBlank) (l := text)]
  rw [normalize_blanks_append summary hfront, hrest, normalize_append_blanks summary hblanks,
    Text.trim]

end Blanks

end JavaSignatures.Markup
