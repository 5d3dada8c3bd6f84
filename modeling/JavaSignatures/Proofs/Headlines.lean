import JavaSignatures.Proofs.SettledDescriptions

set_option autoImplicit false

/-!
# Headlines

The headline of a comment is the beginning of its summary up to the first period, or the whole
summary if that begins with a period or has none (`Describer.isHeadlineOf_headline`).  The summary
is trimmed before the cut, so a headline may end with the space in front of the period it was cut
before (`Describer.headline_leadingPeriod_and_space`).
-/

namespace JavaSignatures

open JavaSignatures.Character

namespace Description

variable {text before after : List Char}

theorem truncate_of_head? (h : text.head? = some '.') : truncate text = text := by
  obtain ⟨rest, rfl⟩ := List.head?_eq_some_iff.mp h
  rfl

theorem truncate_eq_takeWhile (h : text.head? ≠ some '.') :
    truncate text = text.takeWhile (· != '.') := by
  unfold truncate
  split
  · exact absurd rfl h
  · rfl

/-- A text is cut before its first period, unless that is the first character. -/
theorem truncate_append (hne : before ≠ []) (hbefore : '.' ∉ before) :
    truncate (before ++ '.' :: after) = before := by
  have hhead : (before ++ '.' :: after).head? ≠ some '.' := by
    rw [List.head?_append_of_ne_nil _ hne]
    exact fun hperiod => hbefore (List.mem_of_mem_head? hperiod)
  rw [truncate_eq_takeWhile hhead, Text.takeWhile_ne_append hbefore]

/-- A text without a period behind its first character is not cut. -/
theorem truncate_eq_self (h : '.' ∉ text.tail) : truncate text = text := by
  by_cases hhead : text.head? = some '.'
  · exact truncate_of_head? hhead
  · have hall : ∀ c ∈ text, (c != '.') = true := by
      intro c hc
      refine bne_iff_ne.mpr ?_
      rintro rfl
      cases text with
      | nil => contradiction
      | cons d rest =>
        rcases List.mem_cons.mp hc with rfl | hc
        · exact hhead rfl
        · exact h hc
    rw [truncate_eq_takeWhile hhead, List.takeWhile_eq_self_iff.mpr hall]

/-- What is cut off begins with a period. -/
theorem truncate_cases (text : List Char) :
    truncate text = text ∨ ∃ after, text = truncate text ++ '.' :: after := by
  by_cases hhead : text.head? = some '.'
  · exact .inl (truncate_of_head? hhead)
  · have happend := List.takeWhile_append_dropWhile (p := (· != '.')) (l := text)
    rw [truncate_eq_takeWhile hhead]
    cases hrest : text.dropWhile (· != '.') with
    | nil =>
      left
      rwa [hrest, List.append_nil] at happend
    | cons c after =>
      have hc := List.head?_dropWhile_not (· != '.') text
      rw [hrest] at hc
      obtain rfl : c = '.' := by simpa using hc
      exact .inr ⟨after, by rw [← hrest, happend]⟩

/-- A headline of a summary: one line, cut before the first period of the summary unless the summary
begins with one, with white space at its end only where it stands in front of the period. -/
structure IsHeadlineOf (shown headline : List Char) : Prop where
  isPrefix : headline <+: shown
  isCut : ∀ before after, shown = before ++ '.' :: after → before ≠ [] → '.' ∉ before →
    headline = before
  isWhole : shown.head? = some '.' ∨ '.' ∉ shown.tail → headline = shown
  withoutPeriod : shown.head? ≠ some '.' → '.' ∉ headline
  isOneLine : ∀ c ∈ headline, isBlank c = true → c = ' '
  head : ∀ c ∈ headline.head?, isBlank c = false
  last : ∀ c ∈ headline.getLast?, isBlank c = true → ∃ after, shown = headline ++ '.' :: after

theorem isHeadlineOf_truncate (h : IsDescription text) : IsHeadlineOf text (truncate text) where
  isPrefix := truncate_isPrefix text
  isCut before after htext hne hbefore := by rw [htext, truncate_append hne hbefore]
  isWhole hwhole := hwhole.elim truncate_of_head? truncate_eq_self
  withoutPeriod := not_mem_tail_truncate
  isOneLine c hc := h.unmarked.spaces c ((truncate_isPrefix text).subset hc)
  head c hc := h.trimmed.head c (Text.mem_head?_of_isPrefix (truncate_isPrefix text) hc)
  last c hc hblank := by
    rcases truncate_cases text with hwhole | hcut
    · rw [hwhole] at hc
      rw [h.trimmed.last c hc] at hblank
      contradiction
    · exact hcut

end Description

namespace Describer

open Description

/-- The headline of a comment is a headline of its summary. -/
theorem isHeadlineOf_headline (raw : Option String) :
    IsHeadlineOf (describe? {} true raw).toList (headline {} raw).toList := by
  rw [headline, Text.toList_onString]
  refine isHeadlineOf_truncate ?_
  rw [toList_describe?]
  exact isDescription_describe true _

/-- A summary that begins with a period is not cut, and the cut leaves the space in front of the
period. -/
theorem headline_leadingPeriod_and_space :
    describe? {} true (some ".a.b") = ".a.b" ∧ headline {} (some ".a.b") = ".a.b" ∧
      describe? {} true (some "a .b") = "A .b" ∧ headline {} (some "a .b") = "A " := by
  decide

end Describer

end JavaSignatures
