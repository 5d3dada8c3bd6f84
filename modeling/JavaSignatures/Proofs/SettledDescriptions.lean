import JavaSignatures.Comment.Description
import JavaSignatures.Proofs.PlainLines
import JavaSignatures.Proofs.UpperForms

set_option autoImplicit false

/-!
# Descriptions that are described again

The description of a description is the same line again exactly if the line is settled: nothing at
its ends is taken for a leftover of delimiters, plain text keeps all of its characters, and no
address in it has a backslash (`Describer.describe?_describe?_iff`).  A description need not be: the
ends are cleared before the markup is removed, so they show what stood behind the markup
(`Describer.exists_describe?_describe?_ne`).

Of a line without marks every step leaves characters out, the new first letter apart
(`bare_isInfix`, `normalize_sublist`).  A line that comes back whole was therefore left alone by
each of them (`Describer.steps_of_describe_eq_self`).
-/

namespace JavaSignatures

open JavaSignatures.Character Markup
open Text (IsTrimmed)

namespace Description

variable {text part : List Char}

/-! ## Leftovers at the ends -/

theorem bare_isInfix (text : List Char) : bare text <:+: text :=
  (Text.trimEnd_isPrefix ..).isInfix.trans (List.dropWhile_suffix _).isInfix

theorem isTrimmed_bare (text : List Char) : IsTrimmed (bare text) := by
  constructor
  · intro c hc
    have hnot := Text.head?_trimEnd_dropWhile text c hc
    simp only [Bool.or_eq_false_iff] at hnot
    exact hnot.1.1.1
  · intro c hc
    have hnot := Text.getLast?_trimEnd _ c hc
    simp only [Bool.or_eq_false_iff] at hnot
    exact hnot.1.1

theorem bare_eq_self_iff (ht : IsTrimmed text) :
    bare text = text ↔
      (∀ c ∈ text.head?, c ∉ ['}', '-', '/']) ∧ ∀ c ∈ text.getLast?, c ∉ ['-', '/'] := by
  rw [bare, Text.trimEnd_dropWhile_eq_self_iff]
  refine and_congr (forall₂_congr fun c hc => ?_) (forall₂_congr fun c hc => ?_)
  · simp [ht.head c hc, and_assoc]
  · simp [ht.last c hc]

/-! ## The first letter -/

theorem capitalize_cases (text : List Char) :
    capitalize text = text ∨
      ∃ c rest, text = c :: rest ∧ upperForm c ≠ [c] ∧ capitalize text = upperForm c ++ rest := by
  cases text with
  | nil => exact .inl rfl
  | cons c rest =>
    by_cases hc : isLower c = true ∧ upperForm c ≠ [c]
    · exact .inr ⟨c, rest, rfl, hc.2, by rw [capitalize, if_pos hc.1]⟩
    · left
      rw [capitalize]
      split
      · next hlower =>
        rw [not_not.mp fun hne => hc ⟨hlower, hne⟩]
        rfl
      · rfl

/-- The first letter is lost where it is made upper-case. -/
theorem capitalize_eq_self_of_sublist (h : text.Sublist (capitalize text)) :
    capitalize text = text := by
  rcases capitalize_cases text with hself | ⟨c, rest, rfl, hne, hform⟩
  · exact hself
  · have hcount := h.count_le c
    rw [hform, List.count_append, List.count_eq_zero_of_not_mem (not_mem_upperForm hne),
      List.count_cons_self] at hcount
    omega

/-- The text does not begin with a lower-case letter that has another upper-case form. -/
def IsCapitalized (text : List Char) : Prop :=
  ∀ c ∈ text.head?, isLower c = true → upperForm c = [c]

theorem capitalize_eq_self_iff : capitalize text = text ↔ IsCapitalized text := by
  cases text with
  | nil => exact iff_of_true rfl (by simp [IsCapitalized])
  | cons c rest =>
    rw [capitalize]
    split
    · next hlower =>
      rw [← List.singleton_append (x := c), List.append_left_inj]
      simp [IsCapitalized, hlower]
    · next hlower => simp [IsCapitalized, hlower]

theorem isCapitalized_capitalize (text : List Char) : IsCapitalized (capitalize text) := by
  rcases capitalize_cases text with hself | ⟨c, rest, rfl, hne, hform⟩
  · rw [hself]
    exact capitalize_eq_self_iff.mp hself
  · intro d hd _
    rw [hform, List.head?_append_of_ne_nil _ (upperForm_ne_nil c)] at hd
    exact (upperForm_of_mem hne (List.mem_of_mem_head? hd)).1

theorem IsCapitalized.isPrefix (h : IsCapitalized text) (hpart : part <+: text) :
    IsCapitalized part :=
  fun c hc => h c (Text.mem_head?_of_isPrefix hpart hc)

theorem isTrimmed_capitalize (h : IsTrimmed text) : IsTrimmed (capitalize text) := by
  rcases capitalize_cases text with hself | ⟨c, rest, rfl, hne, hform⟩
  · rwa [hself]
  · have hblank : ∀ d ∈ upperForm c, isBlank d = false := fun d hd => (upperForm_of_mem hne hd).2.1
    rw [hform]
    constructor
    · intro d hd
      rw [List.head?_append_of_ne_nil _ (upperForm_ne_nil c)] at hd
      exact hblank d (List.mem_of_mem_head? hd)
    · intro d hd
      cases rest with
      | nil =>
        rw [List.append_nil] at hd
        exact hblank d (List.mem_of_getLast? hd)
      | cons next rest =>
        rw [List.getLast?_append_of_ne_nil _ (by simp)] at hd
        exact h.last d (by rwa [List.getLast?_cons_cons])

theorem spacedApart_capitalize (h : SpacedApart text) : SpacedApart (capitalize text) := by
  rcases capitalize_cases text with hself | ⟨c, rest, rfl, hne, hform⟩
  · rwa [hself]
  · rw [hform]
    refine spacedApart_append (fun hd => ?_) (List.isChain_cons.mp h).2
    exact absurd (upperForm_of_mem hne hd).2.1 (by decide)

theorem isUnmarked_capitalize (h : IsUnmarked text) : IsUnmarked (capitalize text) := by
  rcases capitalize_cases text with hself | ⟨c, rest, rfl, hne, hform⟩
  · rwa [hself]
  · have hrest := h.subset (List.subset_cons_self c rest)
    rw [hform]
    constructor
    · intro mark hmark hmem
      rcases List.mem_append.mp hmem with hmem | hmem
      · exact (upperForm_of_mem hne hmem).2.2 hmark
      · exact hrest.marks mark hmark hmem
    · intro d hd hblank
      rcases List.mem_append.mp hd with hd | hd
      · exact absurd hblank (by simp [(upperForm_of_mem hne hd).2.1])
      · exact hrest.spaces d hd hblank

/-! ## The final period -/

theorem dropPeriod_cases (text : List Char) :
    dropPeriod text = text ∨
      dropPeriod text = text.dropLast ∧ text.dropLast.all isPlain = true := by
  unfold dropPeriod
  split
  · next h => exact .inr ⟨rfl, (Bool.and_eq_true_iff.mp h).2⟩
  · exact .inl rfl

theorem dropPeriod_isPrefix (text : List Char) : dropPeriod text <+: text := by
  rcases dropPeriod_cases text with h | ⟨h, -⟩
  · exact ⟨[], by simpa using h⟩
  · have hbegins := List.dropLast_prefix text
    rwa [← h] at hbegins

/-- Plain words have no final period. -/
theorem dropPeriod_of_isPlain (h : ∀ c ∈ text, isPlain c = true) : dropPeriod text = text := by
  rw [dropPeriod, if_neg]
  intro hperiod
  rw [Bool.and_eq_true, beq_iff_eq] at hperiod
  exact absurd (h '.' (List.mem_of_getLast? hperiod.1)) (by decide)

/-! ## Descriptions -/

/-- What every description is, whatever it describes. -/
structure IsDescription (line : List Char) : Prop where
  unmarked : IsUnmarked line
  spaced : SpacedApart line
  trimmed : IsTrimmed line
  capitalized : IsCapitalized line
  withoutPeriod : dropPeriod line = line

theorem isDescription_of_isPlainLine (h : IsPlainLine text) :
    IsDescription (Text.trim (dropPeriod (capitalize text))) := by
  have htrimmed := isTrimmed_capitalize h.trimmed
  have hspaced := spacedApart_capitalize h.spaced
  have hbegins : Text.trim (dropPeriod (capitalize text)) <+: capitalize text :=
    (Text.trim_isPrefix fun c hc =>
      htrimmed.head c (Text.mem_head?_of_isPrefix (dropPeriod_isPrefix _) hc)).trans
      (dropPeriod_isPrefix _)
  exact {
    unmarked := (isUnmarked_capitalize (isUnmarked_of_kept h.kept)).subset hbegins.subset
    spaced := hspaced.prefix hbegins
    trimmed := Text.isTrimmed_trim _
    capitalized := (isCapitalized_capitalize text).isPrefix hbegins
    withoutPeriod := by
      rcases dropPeriod_cases (capitalize text) with hself | ⟨hform, hplain⟩
      · rw [hself, Text.trim_eq_self_iff.mpr htrimmed, hself]
      · refine dropPeriod_of_isPlain fun c hc => List.all_eq_true.mp hplain c ?_
        rw [← hform]
        exact (Text.trim_sublist _).subset hc }

/-- A line that is taken as it is: its ends are no leftovers of delimiters, all of its characters
are kept, and its addresses have no backslash before them. -/
structure IsSettled (line : List Char) : Prop where
  start : ∀ c ∈ line.head?, c ∉ ['}', '-', '/']
  ending : ∀ c ∈ line.getLast?, c ∉ ['-', '/']
  kept : ∀ c ∈ line, keep c = some c
  addresses : ¬HasEscapedAddress line

end Description

namespace Describer

open Description

variable {summary : Bool} {line : List Char}

theorem describe_eq (summary : Bool) (text : List Char) :
    describe {} summary text =
      Text.trim (dropPeriod (capitalize (Markup.normalize summary (bare text)))) := rfl

theorem isDescription_describe (summary : Bool) (text : List Char) :
    IsDescription (describe {} summary text) :=
  isDescription_of_isPlainLine (isPlainLine_normalize summary (bare text))

/-- A description comes back whole only if clearing its ends and normalizing it changes nothing. -/
theorem steps_of_describe_eq_self (h : IsDescription line)
    (hself : describe {} summary line = line) :
    bare line = line ∧ Markup.normalize summary line = line := by
  have hbare : (bare line).Sublist line := (bare_isInfix line).sublist
  have hnormal : (Markup.normalize summary (bare line)).Sublist (bare line) :=
    normalize_sublist summary (h.unmarked.subset hbare.subset) (isTrimmed_bare line)
  have hfinish : line.Sublist (capitalize (Markup.normalize summary (bare line))) := by
    conv_lhs => rw [← hself, describe_eq]
    exact (Text.trim_sublist _).trans (dropPeriod_isPrefix _).sublist
  -- the first letter stays, and no other step puts anything in
  rw [capitalize_eq_self_of_sublist ((hnormal.trans hbare).trans hfinish)] at hfinish
  have hline : bare line = line := hbare.antisymm (hfinish.trans hnormal)
  rw [hline] at hnormal hfinish
  exact ⟨hline, hnormal.antisymm hfinish⟩

/-- The lines that are described by themselves. -/
theorem describe_eq_self_iff (summary : Bool) :
    describe {} summary line = line ↔ IsDescription line ∧ IsSettled line := by
  constructor
  · intro hself
    have h : IsDescription line := hself ▸ isDescription_describe summary line
    obtain ⟨hbare, hnormal⟩ := steps_of_describe_eq_self h hself
    obtain ⟨hstart, hending⟩ := (bare_eq_self_iff h.trimmed).mp hbare
    obtain ⟨hplain, haddresses⟩ := (normalize_eq_self_iff summary).mp hnormal
    exact ⟨h, hstart, hending, hplain.kept, haddresses⟩
  · rintro ⟨h, hsettled⟩
    have hbare := (bare_eq_self_iff h.trimmed).mpr ⟨hsettled.start, hsettled.ending⟩
    have hplain : IsPlainLine line := ⟨hsettled.kept, h.spaced, h.trimmed⟩
    have hnormal := (normalize_eq_self_iff summary).mpr ⟨hplain, hsettled.addresses⟩
    rw [describe_eq, hbare, hnormal, capitalize_eq_self_iff.mpr h.capitalized, h.withoutPeriod,
      Text.trim_eq_self_iff.mpr h.trimmed]

theorem toList_describe? (summary : Bool) (raw : Option String) :
    (describe? {} summary raw).toList = describe {} summary (raw.getD "").toList := by
  cases raw with
  | none => cases summary <;> decide +kernel
  | some raw => exact Text.toList_onString _ raw

/-- The lines that are described by themselves are the settled ones among those that have the form
of a description.  Every description has that form, also the empty one of a missing comment, so
describing it again gives the same line exactly if it is settled. -/
theorem describe?_describe?_iff (summary : Bool) :
    (∀ line : String, describe? {} summary (some line) = line ↔
      IsDescription line.toList ∧ IsSettled line.toList) ∧
    ∀ raw : Option String,
      let shown := describe? {} summary raw
      IsDescription shown.toList ∧
        (describe? {} summary (some shown) = shown ↔ IsSettled shown.toList) := by
  have hlines (line : String) : describe? {} summary (some line) = line ↔
      IsDescription line.toList ∧ IsSettled line.toList := by
    rw [← describe_eq_self_iff summary, ← String.toList_inj, toList_describe?, Option.getD_some]
  refine ⟨hlines, ?_⟩
  intro raw shown
  have hshown : IsDescription shown.toList := by
    rw [toList_describe?]
    exact isDescription_describe summary (raw.getD "").toList
  exact ⟨hshown, (hlines shown).trans (and_iff_right hshown)⟩

/-- The dash behind the markup is shown (`- x`), and taken off when that is described (`X`). -/
theorem exists_describe?_describe?_ne : ∃ raw, ∀ summary,
    describe? {} summary (some (describe? {} summary raw)) ≠ describe? {} summary raw :=
  ⟨some "<b>- x", by decide +kernel⟩

end Describer

end JavaSignatures
