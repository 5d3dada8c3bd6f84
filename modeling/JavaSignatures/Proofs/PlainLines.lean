import JavaSignatures.Comment.Markup
import JavaSignatures.Proofs.CharacterClasses
import JavaSignatures.Proofs.TextParts
import Mathlib.Data.List.Chain

set_option autoImplicit false

/-!
# Plain lines

What the normalization of markup gives for any text (`isPlainLine_normalize`), and what it does to a
line that has no markup in it (`normalize_of_unmarked`): there only the steps for plain text are
left.
-/

namespace JavaSignatures.Text

variable {rule : List Char → Option (List Char × Nat)}

/-- A pass of a rule that applies nowhere changes nothing. -/
theorem replaceBy_eq_self {text : List Char} (h : ∀ rest, rest <:+ text → rule rest = none) :
    replaceBy rule text = text := by
  unfold replaceBy
  induction text with
  | nil => rfl
  | cons c rest ih =>
    have htail := ih fun other hother => h other (hother.trans (List.suffix_cons c rest))
    rw [replaceFrom, h _ List.suffix_rfl, htail]

/-- The same for a rule that needs a mark to apply, and a text without it. -/
theorem replaceBy_of_not_mem {mark : Char} (hrule : ∀ text, mark ∉ text → rule text = none)
    {text : List Char} (h : mark ∉ text) : replaceBy rule text = text :=
  replaceBy_eq_self fun rest hrest => hrule rest fun hmark => h (hrest.subset hmark)

end JavaSignatures.Text

namespace JavaSignatures.Markup

open JavaSignatures.Character

/-! ## Characters of plain text -/

section Keep

variable {c d : Char}

theorem keep_eq_some (h : keep c = some d) : d = c ∨ isBlank c = true ∧ d = ' ' := by
  unfold keep at h
  split at h
  · exact .inl (Option.some.inj h).symm
  · split at h
    · next hblank => exact .inr ⟨hblank, (Option.some.inj h).symm⟩
    · contradiction

theorem keep_of_keep (h : keep c = some d) : keep d = some d := by
  rcases keep_eq_some h with rfl | ⟨-, rfl⟩
  · exact h
  · decide +kernel

/-- The space is the only blank of plain text. -/
theorem eq_space_of_isBlank (h : keep c = some c) (hc : isBlank c = true) : c = ' ' := by
  have hpunctuation : punctuation.contains c = false :=
    eq_false_of_isBlank (by decide +kernel) hc
  have hkeep : keep c = some ' ' := by
    rw [keep, not_isNamePart_of_isBlank hc, hpunctuation, hc]
    rfl
  exact (Option.some.inj (hkeep.symm.trans h)).symm

end Keep

/-! ## Single spaces -/

/-- No two spaces stand next to each other. -/
def SpacedApart (text : List Char) : Prop :=
  text.IsChain fun c d => ¬(c = ' ' ∧ d = ' ')

theorem spacedApart_append {before after : List Char} (hbefore : ' ' ∉ before)
    (hafter : SpacedApart after) : SpacedApart (before ++ after) := by
  induction before with
  | nil => exact hafter
  | cons c rest ih =>
    rw [List.mem_cons, not_or] at hbefore
    exact List.isChain_cons.mpr ⟨fun d _ hspaces => hbefore.1 hspaces.1.symm, ih hbefore.2⟩

theorem collapse_sublist (space : Bool) (text : List Char) :
    (collapse space text).Sublist text := by
  induction text generalizing space with
  | nil => exact List.Sublist.slnil
  | cons c rest ih =>
    rw [collapse]
    split
    · next hc =>
      rw [eq_of_beq hc]
      cases space
      · exact (ih true).cons_cons ' '
      · exact (ih true).cons ' '
    · exact (ih false).cons_cons c

theorem head?_collapse_true (text : List Char) : (collapse true text).head? ≠ some ' ' := by
  induction text with
  | nil => simp [collapse]
  | cons c rest ih =>
    rw [collapse]
    split
    · exact ih
    · next hc => simpa using hc

theorem spacedApart_collapse (space : Bool) (text : List Char) :
    SpacedApart (collapse space text) := by
  induction text generalizing space with
  | nil => exact List.isChain_nil
  | cons c rest ih =>
    rw [collapse]
    split
    · cases space
      · refine List.isChain_cons.mpr ⟨fun d hd hspaces => ?_, ih true⟩
        exact head?_collapse_true rest (hspaces.2 ▸ hd)
      · exact ih true
    · next hc =>
      exact List.isChain_cons.mpr ⟨fun d _ hspaces => hc (by simp [hspaces.1]), ih false⟩

theorem collapse_eq_self {space : Bool} {text : List Char} (h : SpacedApart text)
    (hspace : space = true → text.head? ≠ some ' ') : collapse space text = text := by
  induction text generalizing space with
  | nil => rfl
  | cons c rest ih =>
    obtain ⟨hhead, hrest⟩ := List.isChain_cons.mp h
    rw [collapse]
    split
    · next hc =>
      obtain rfl := eq_of_beq hc
      have htail : collapse true rest = rest :=
        ih hrest fun _ hspace => hhead ' ' hspace ⟨rfl, rfl⟩
      cases space
      · simp [htail]
      · exact absurd rfl (hspace rfl)
    · rw [ih hrest (by simp)]

/-! ## The backslash before an address -/

/-- The text begins with an address that has a backslash before it. -/
def IsEscapedAddress (text : List Char) : Prop :=
  "\\http:".toList <+: text ∨ "\\https:".toList <+: text

instance (text : List Char) : Decidable (IsEscapedAddress text) :=
  inferInstanceAs (Decidable (_ ∨ _))

/-- Somewhere in the text is an address with a backslash before it. -/
def HasEscapedAddress (text : List Char) : Prop :=
  "\\http:".toList <:+: text ∨ "\\https:".toList <:+: text

instance (text : List Char) : Decidable (HasEscapedAddress text) :=
  inferInstanceAs (Decidable (_ ∨ _))

/-- The text without the backslashes before addresses. -/
abbrev unescape (text : List Char) : List Char := Text.replaceBy addressRule text

theorem hasEscapedAddress_cons (c : Char) (rest : List Char) :
    HasEscapedAddress (c :: rest) ↔ IsEscapedAddress (c :: rest) ∨ HasEscapedAddress rest := by
  simp only [HasEscapedAddress, IsEscapedAddress, List.infix_cons_iff]
  tauto

theorem isEscapedAddress_cons_iff {c : Char} {rest : List Char} :
    IsEscapedAddress (c :: rest) ↔
      c = '\\' ∧ ("http:".toList <+: rest ∨ "https:".toList <+: rest) := by
  change '\\' :: "http:".toList <+: c :: rest ∨ '\\' :: "https:".toList <+: c :: rest ↔ _
  rw [List.cons_prefix_cons, List.cons_prefix_cons, ← and_or_left, eq_comm]

theorem addressRule_cons (c : Char) (rest : List Char) :
    addressRule (c :: rest) = if IsEscapedAddress (c :: rest) then some ([], 1) else none := by
  simp only [isEscapedAddress_cons_iff, ← List.isPrefixOf_iff_prefix]
  by_cases hc : c = '\\'
  · subst hc
    simp only [addressRule, true_and, Bool.or_eq_true]
  · rw [if_neg fun h => hc h.1, addressRule]
    exact fun other h => hc (List.cons.inj h).1

theorem unescape_cons (c : Char) (rest : List Char) :
    unescape (c :: rest) =
      if IsEscapedAddress (c :: rest) then unescape rest else c :: unescape rest := by
  simp only [unescape, Text.replaceBy, Text.replaceFrom, addressRule_cons]
  split <;> simp_all

theorem unescape_sublist (text : List Char) : (unescape text).Sublist text := by
  induction text with
  | nil => exact List.Sublist.slnil
  | cons c rest ih =>
    rw [unescape_cons]
    split
    · exact ih.cons c
    · exact ih.cons_cons c

theorem unescape_eq_self_iff {text : List Char} :
    unescape text = text ↔ ¬HasEscapedAddress text := by
  induction text with
  | nil => exact iff_of_true rfl (by decide)
  | cons c rest ih =>
    rw [unescape_cons, hasEscapedAddress_cons]
    split
    · next hescaped =>
      refine iff_of_false (fun h => ?_) (by simp [hescaped])
      have hlength := (unescape_sublist rest).length_le
      rw [h, List.length_cons] at hlength
      omega
    · next hnot => simp [hnot, ih]

theorem head?_unescape {text : List Char} (h : (unescape text).head? = some ' ') :
    text.head? = some ' ' := by
  cases text with
  | nil => exact h
  | cons c rest =>
    rw [unescape_cons] at h
    split at h
    · next hescaped =>
      -- the address that is left begins with a letter, and nothing is taken off it
      have hletter : rest.head? = some 'h' := by
        obtain ⟨-, ⟨tail, rfl⟩ | ⟨tail, rfl⟩⟩ := isEscapedAddress_cons_iff.mp hescaped <;> rfl
      obtain ⟨tail, rfl⟩ := List.head?_eq_some_iff.mp hletter
      have hnot : ¬IsEscapedAddress ('h' :: tail) := fun hescaped =>
        absurd (isEscapedAddress_cons_iff.mp hescaped).1 (by decide)
      rw [unescape_cons, if_neg hnot] at h
      exact absurd h (by simp)
    · exact h

theorem spacedApart_unescape {text : List Char} (h : SpacedApart text) :
    SpacedApart (unescape text) := by
  induction text with
  | nil => exact h
  | cons c rest ih =>
    obtain ⟨hhead, hrest⟩ := List.isChain_cons.mp h
    rw [unescape_cons]
    split
    · exact ih hrest
    · refine List.isChain_cons.mpr ⟨fun d hd hspaces => ?_, ih hrest⟩
      exact hhead ' ' (head?_unescape (hspaces.2 ▸ hd)) ⟨hspaces.1, rfl⟩

/-! ## Lines without markup -/

/-- None of the marks of comments is in the text, and spaces are its only blanks. -/
structure IsUnmarked (text : List Char) : Prop where
  marks : ∀ mark ∈ ['<', '@', '*'], mark ∉ text
  spaces : ∀ c ∈ text, isBlank c = true → c = ' '

theorem IsUnmarked.subset {text part : List Char} (h : IsUnmarked text) (hpart : part ⊆ text) :
    IsUnmarked part where
  marks mark hmark hmem := h.marks mark hmark (hpart hmem)
  spaces c hc := h.spaces c (hpart hc)

theorem isUnmarked_of_kept {text : List Char} (h : ∀ c ∈ text, keep c = some c) :
    IsUnmarked text where
  marks mark hmark hmem := by
    have hdropped : ∀ mark ∈ ['<', '@', '*'], keep mark ≠ some mark := by decide +kernel
    exact hdropped mark hmark (h mark hmem)
  spaces c hc := eq_space_of_isBlank (h c hc)

section Unmarked

variable {text : List Char}

theorem undecorate_eq_self (h : Text.IsTrimmed text) (hstar : '*' ∉ text) :
    undecorate text = text := by
  have hhead : text.dropWhile (· == '*') = text := by
    refine Text.dropWhile_of_head? fun c hc => beq_eq_false_iff_ne.mpr ?_
    rintro rfl
    exact hstar (List.mem_of_mem_head? hc)
  have hlast : Text.trimEnd (· == '*') text = text := by
    refine Text.trimEnd_eq_self_iff.mpr fun c hc => beq_eq_false_iff_ne.mpr ?_
    rintro rfl
    exact hstar (List.mem_of_getLast? hc)
  have htrim := Text.trim_eq_self_iff.mpr h
  rw [undecorate, htrim, hhead, hlast, htrim]

theorem endsDescription_eq_false (h : '@' ∉ text) : endsDescription text = false := by
  simp only [endsDescription, List.any_eq_false, List.isPrefixOf_iff_prefix]
  intro tag htag hbegins
  have hmark : ∀ tag ∈ endingTags, '@' ∈ tag := by decide
  exact h (hbegins.subset (hmark tag htag))

theorem descriptionLines_of_unmarked (h : IsUnmarked text) (ht : Text.IsTrimmed text) :
    descriptionLines text = if text.isEmpty then [] else [text] := by
  have hbreak : '\n' ∉ text := fun hmem => absurd (h.spaces _ hmem (by decide)) (by decide)
  have hat : '@' ∉ text := h.marks '@' (by decide)
  have hhead : text.head? ≠ some '@' := fun hc => hat (List.mem_of_mem_head? hc)
  have hlines : Text.lines text = if text.isEmpty then [] else [text] := by
    rw [Text.lines, List.splitOn_eq_singleton hbreak]
    rfl
  rw [descriptionLines, hlines]
  split
  · rfl
  · simp [undecorate_eq_self ht (h.marks '*' (by decide)), endsDescription_eq_false hat, hhead]

theorem description_of_unmarked (summary : Bool) (h : IsUnmarked text)
    (ht : Text.IsTrimmed text) : description summary text = text := by
  rw [description, descriptionLines_of_unmarked h ht]
  cases text with
  | nil => cases summary <;> rfl
  | cons c rest => cases summary <;> simp [firstSentence, List.intercalate_singleton]

theorem elementRule_eq_none (h : '<' ∉ text) : elementRule text = none := by
  unfold elementRule
  split
  · exact absurd List.mem_cons_self h
  · rfl

theorem after?_eq_none {start : List Char} {mark : Char} (hmark : mark ∈ start)
    (h : mark ∉ text) : Text.after? start text = none := by
  refine Option.eq_none_iff_forall_ne_some.mpr fun rest hrest => ?_
  rw [Text.after?_eq_some_iff.mp hrest] at h
  exact h (List.mem_append_left rest hmark)

theorem inlineRule_eq_none {rule : List Char → Option (List Char × Nat)}
    (hrule : rule ∈ inlineRules) (h : '@' ∉ text) : rule text = none := by
  have hlink : ∀ opening p, '@' ∈ opening → linkRule opening p text = none := by
    intro opening p hat
    rw [linkRule, after?_eq_none hat h]
    rfl
  have htag : tagRule text = none := by
    rw [tagRule, after?_eq_none (by decide : '@' ∈ ['{', '@']) h]
    rfl
  simp only [inlineRules, List.mem_cons, List.not_mem_nil, or_false] at hrule
  rcases hrule with rfl | rfl | rfl | rfl | rfl
  · exact hlink _ _ (by decide)
  · exact hlink _ _ (by decide)
  · exact hlink _ _ (by decide)
  · exact hlink _ _ (by decide)
  · exact htag

/-- The rules for inline tags change nothing without an `@`. -/
theorem unwrap_of_not_mem {rules : List (List Char → Option (List Char × Nat))}
    (hrules : ∀ rule ∈ rules, rule ∈ inlineRules) (h : '@' ∉ text) :
    rules.foldl (fun text rule => Text.replaceBy rule text) text = text :=
  List.foldlRecOn rules (fun text rule => Text.replaceBy rule text)
    (motive := fun unwrapped => unwrapped = text) rfl fun unwrapped hunwrapped rule hrule => by
      rw [hunwrapped]
      exact Text.replaceBy_of_not_mem
        (fun other hother => inlineRule_eq_none (hrules rule hrule) hother) h

/-- Of a trimmed line without marks only the steps for plain text are left. -/
theorem normalize_of_unmarked (summary : Bool) (h : IsUnmarked text) (ht : Text.IsTrimmed text) :
    normalize summary text = Text.trim (unescape (collapse false (text.filterMap keep))) := by
  rw [normalize, description_of_unmarked summary h ht,
    Text.replaceBy_of_not_mem (fun _ => elementRule_eq_none) (h.marks '<' (by decide)),
    unwrap_of_not_mem (fun _ => id) (h.marks '@' (by decide))]

theorem filterMap_keep_sublist (h : IsUnmarked text) : (text.filterMap keep).Sublist text := by
  induction text with
  | nil => exact List.Sublist.slnil
  | cons c rest ih =>
    have hrest := ih (h.subset (List.subset_cons_self c rest))
    cases hc : keep c with
    | none =>
      rw [List.filterMap_cons_none hc]
      exact hrest.cons c
    | some d =>
      have hsame : d = c := by
        rcases keep_eq_some hc with hsame | ⟨hblank, hspace⟩
        · exact hsame
        · rw [hspace, h.spaces c List.mem_cons_self hblank]
      rw [List.filterMap_cons_some hc, hsame]
      exact hrest.cons_cons c

theorem normalize_sublist (summary : Bool) (h : IsUnmarked text) (ht : Text.IsTrimmed text) :
    (normalize summary text).Sublist text := by
  rw [normalize_of_unmarked summary h ht]
  exact (Text.trim_sublist _).trans ((unescape_sublist _).trans
    ((collapse_sublist _ _).trans (filterMap_keep_sublist h)))

end Unmarked

/-! ## Plain lines -/

/-- A line of plain text, with single spaces between the words. -/
structure IsPlainLine (line : List Char) : Prop where
  kept : ∀ c ∈ line, keep c = some c
  spaced : SpacedApart line
  trimmed : Text.IsTrimmed line

/-- Whatever the text, its normal form is a plain line. -/
theorem isPlainLine_normalize (summary : Bool) (text : List Char) :
    IsPlainLine (normalize summary text) := by
  unfold normalize
  set unwrapped := inlineRules.foldl (fun text rule => Text.replaceBy rule text)
    (Text.replaceBy elementRule (description summary text))
  have hkept : ∀ c ∈ unwrapped.filterMap keep, keep c = some c := by
    intro c hc
    obtain ⟨d, -, hd⟩ := List.mem_filterMap.mp hc
    exact keep_of_keep hd
  have hsublist := (Text.trim_sublist _).trans ((unescape_sublist _).trans
    (collapse_sublist false (unwrapped.filterMap keep)))
  have hspaced := spacedApart_unescape (spacedApart_collapse false (unwrapped.filterMap keep))
  exact ⟨fun c hc => hkept c (hsublist.subset hc), hspaced.infix (Text.trim_isInfix _),
    Text.isTrimmed_trim _⟩

/-- The texts that are their own normal forms. -/
theorem normalize_eq_self_iff (summary : Bool) {text : List Char} :
    normalize summary text = text ↔ IsPlainLine text ∧ ¬HasEscapedAddress text := by
  have normal (h : IsPlainLine text) : normalize summary text = Text.trim (unescape text) := by
    have hkeep : text.filterMap keep = text := by
      rw [List.filterMap_congr h.kept, List.filterMap_some]
    rw [normalize_of_unmarked summary (isUnmarked_of_kept h.kept) h.trimmed, hkeep,
      collapse_eq_self h.spaced (by simp)]
  constructor
  · intro h
    have hplain : IsPlainLine text := h ▸ isPlainLine_normalize summary text
    refine ⟨hplain, unescape_eq_self_iff.mp ((unescape_sublist text).antisymm ?_)⟩
    conv_lhs => rw [← h, normal hplain]
    exact Text.trim_sublist _
  · rintro ⟨hplain, haddress⟩
    rw [normal hplain, unescape_eq_self_iff.mpr haddress, Text.trim_eq_self_iff.mpr hplain.trimmed]

end JavaSignatures.Markup
