import JavaSignatures.Report.Api
import JavaSignatures.Proofs.CharacterClasses
import JavaSignatures.Proofs.TextParts

set_option autoImplicit false

/-!
# Names with dashes

A name such as `HTTPServer` is cut into words, which are shown in lower case with dashes between
them.  A word begins at a capital behind a character that is no dash, and behind another capital
only in front of a lower-case letter (`IsBoundary`); the name is cut there and nowhere else
(`IsWordCut`).  So a name in ASCII loses nothing but its dashes, underscores and capitals, no dash
is put beside another one or at an end, and a name that is shown comes out the same when it is shown
again (`dashName_of_isAscii`).
-/

namespace JavaSignatures.Report

open JavaSignatures.Character

/-! ## Where words begin -/

/-- A word begins between the two parts of a name: at a capital behind a character that is no dash,
and behind another capital only in front of a lower-case letter. -/
def IsBoundary (before after : List Char) : Prop :=
  ∃ p ∈ before.getLast?, ∃ c ∈ after.head?,
    isUpper c = true ∧ isDash p = false ∧
      (isUpper p = true → ∃ d ∈ after.tail.head?, isLower d = true)

/-- The words of a text: it is cut at its boundaries and nowhere else. -/
structure IsWordCut (text : List Char) (words : List (List Char)) : Prop where
  flatten : words.flatten = text
  ne_nil : ∀ word ∈ words, word ≠ []
  isBoundary_iff : ∀ before after, before ++ after = text →
    (IsBoundary before after ↔ ∃ first rest, first ++ rest = words ∧ first ≠ [] ∧ rest ≠ [] ∧
      first.flatten = before ∧ rest.flatten = after)

/-- A word begins with the text behind the character. -/
def startsWord (p : Char) : List Char → Bool
  | [] => false
  | c :: rest => beginsWord (some p) c rest

/-- The words of a text. -/
def wordsOf : List Char → List (List Char)
  | [] => []
  | c :: rest =>
    if startsWord c rest then [c] :: wordsOf rest
    else (c :: (wordsOf rest).headD []) :: (wordsOf rest).tail

section Boundary

variable {c p : Char} {before after rest : List Char}

theorem isBoundary_singleton_iff : IsBoundary [p] rest ↔ startsWord p rest = true := by
  cases rest with
  | nil => simp [IsBoundary, startsWord]
  | cons c rest =>
    cases hp : isUpper p <;> cases hnext : rest.head? <;>
      simp [IsBoundary, startsWord, beginsWord, hp, hnext, and_comm]

/-- Only the last character in front of a boundary matters. -/
theorem isBoundary_cons_iff (h : before ≠ []) :
    IsBoundary (c :: before) after ↔ IsBoundary before after := by
  obtain ⟨p, more, rfl⟩ := List.exists_cons_of_ne_nil h
  rw [IsBoundary, IsBoundary, List.getLast?_cons_cons]

theorem IsBoundary.before_ne_nil (h : IsBoundary before after) : before ≠ [] := by
  rintro rfl
  obtain ⟨p, hp, -⟩ := h
  contradiction

theorem IsBoundary.after_ne_nil (h : IsBoundary before after) : after ≠ [] := by
  rintro rfl
  obtain ⟨p, -, c, hc, -⟩ := h
  contradiction

end Boundary

/-! ## The words of a text -/

section Words

variable {c : Char} {rest : List Char}

theorem wordsOf_cons_of_startsWord (h : startsWord c rest = true) :
    wordsOf (c :: rest) = [c] :: wordsOf rest := if_pos h

theorem wordsOf_cons_of_not_startsWord (h : ¬startsWord c rest = true) :
    wordsOf (c :: rest) = (c :: (wordsOf rest).headD []) :: (wordsOf rest).tail := if_neg h

theorem flatten_wordsOf (text : List Char) : (wordsOf text).flatten = text := by
  induction text with
  | nil => rfl
  | cons c rest ih =>
    by_cases hstarts : startsWord c rest = true
    · rw [wordsOf_cons_of_startsWord hstarts, List.flatten_cons, ih]
      rfl
    · conv_rhs => rw [← ih]
      rw [wordsOf_cons_of_not_startsWord hstarts]
      cases wordsOf rest <;> rfl

theorem wordsOf_ne_nil {text : List Char} (h : text ≠ []) : wordsOf text ≠ [] := by
  intro hnone
  have hflatten := flatten_wordsOf text
  rw [hnone] at hflatten
  exact h hflatten.symm

theorem ne_nil_of_mem_wordsOf {text word : List Char} (h : word ∈ wordsOf text) : word ≠ [] := by
  induction text with
  | nil => contradiction
  | cons c rest ih =>
    by_cases hstarts : startsWord c rest = true
    · rw [wordsOf_cons_of_startsWord hstarts] at h
      rcases List.mem_cons.mp h with rfl | h
      · simp
      · exact ih h
    · rw [wordsOf_cons_of_not_startsWord hstarts] at h
      rcases List.mem_cons.mp h with rfl | h
      · simp
      · exact ih (List.mem_of_mem_tail h)

/-- Between two words there is a boundary. -/
theorem isBoundary_of_wordsOf {text : List Char} {first more : List (List Char)}
    (h : first ++ more = wordsOf text) (hfirst : first ≠ []) (hmore : more ≠ []) :
    IsBoundary first.flatten more.flatten := by
  induction text generalizing first with
  | nil => exact absurd (List.append_eq_nil_iff.mp h).1 hfirst
  | cons c rest ih =>
    obtain ⟨word, first, rfl⟩ := List.exists_cons_of_ne_nil hfirst
    have hinside : ∀ front, front ++ more = wordsOf rest → front ≠ [] →
        IsBoundary (c :: front.flatten) more.flatten := by
      intro front hfront hne
      have hbetween := ih hfront hne
      exact (isBoundary_cons_iff hbetween.before_ne_nil).mpr hbetween
    by_cases hstarts : startsWord c rest = true
    · rw [wordsOf_cons_of_startsWord hstarts, List.cons_append, List.cons.injEq] at h
      obtain ⟨rfl, h⟩ := h
      by_cases hempty : first = []
      · subst hempty
        rw [List.nil_append] at h
        rw [h, flatten_wordsOf]
        exact isBoundary_singleton_iff.mpr hstarts
      · exact hinside first h hempty
    · rw [wordsOf_cons_of_not_startsWord hstarts, List.cons_append, List.cons.injEq] at h
      obtain ⟨rfl, h⟩ := h
      -- the character belongs to the first word of the rest
      cases hwords : wordsOf rest with
      | nil =>
        rw [hwords, List.tail_nil, List.append_eq_nil_iff] at h
        exact absurd h.2 hmore
      | cons word others =>
        rw [hwords, List.tail_cons] at h
        exact hinside (word :: first) (by rw [hwords, List.cons_append, h]) (by simp)

/-- At a boundary a word ends. -/
theorem exists_wordsOf_of_isBoundary {before after : List Char} (h : IsBoundary before after) :
    ∃ first more, first ++ more = wordsOf (before ++ after) ∧ first ≠ [] ∧ more ≠ [] ∧
      first.flatten = before ∧ more.flatten = after := by
  induction before with
  | nil => exact absurd rfl h.before_ne_nil
  | cons c before ih =>
    by_cases hempty : before = []
    · subst hempty
      refine ⟨[[c]], wordsOf after, ?_, by simp, wordsOf_ne_nil h.after_ne_nil, rfl,
        flatten_wordsOf after⟩
      exact (wordsOf_cons_of_startsWord (isBoundary_singleton_iff.mp h)).symm
    · obtain ⟨first, more, hwords, hfirst, hmore, hbefore, hafter⟩ :=
        ih ((isBoundary_cons_iff hempty).mp h)
      obtain ⟨word, first, rfl⟩ := List.exists_cons_of_ne_nil hfirst
      rw [List.cons_append]
      by_cases hstarts : startsWord c (before ++ after) = true
      · refine ⟨[c] :: word :: first, more, ?_, by simp, hmore, by rw [← hbefore]; rfl, hafter⟩
        rw [wordsOf_cons_of_startsWord hstarts, ← hwords]
        rfl
      · refine ⟨(c :: word) :: first, more, ?_, by simp, hmore, by rw [← hbefore]; rfl, hafter⟩
        rw [wordsOf_cons_of_not_startsWord hstarts, ← hwords]
        rfl

theorem isWordCut_wordsOf (text : List Char) : IsWordCut text (wordsOf text) where
  flatten := flatten_wordsOf text
  ne_nil _ := ne_nil_of_mem_wordsOf
  isBoundary_iff before after htext := by
    subst htext
    constructor
    · exact exists_wordsOf_of_isBoundary
    · rintro ⟨first, more, hwords, hfirst, hmore, rfl, rfl⟩
      exact isBoundary_of_wordsOf hwords hfirst hmore

end Words

/-! ## Dashes -/

section Dashes

variable {c p : Char} {text rest : List Char}

/-- The character with a dash in place of an underscore. -/
def withDash (c : Char) : Char := if isDash c then '-' else c

/-- Words in lower case with dashes between them and in place of underscores. -/
def shownWords (words : List (List Char)) : List Char :=
  ['-'].intercalate (words.map (List.map fun c => (withDash c).toLower))

theorem isDash_of_isUpper (h : isUpper c = true) : isDash c = false := by
  by_contra hdash
  rw [Bool.not_eq_false, isDash, Bool.or_eq_true, beq_iff_eq, beq_iff_eq] at hdash
  rcases hdash with rfl | rfl <;> exact absurd h (by decide)

theorem beginsWord_of_not_isUpper (previous : Option Char) (h : isUpper c = false)
    (rest : List Char) : beginsWord previous c rest = false := by
  rw [beginsWord, h, Bool.false_and]

theorem dashed_none_cons (c : Char) (rest : List Char) :
    dashed none (c :: rest) = withDash c :: dashed (some c) rest := by
  have hnone : beginsWord none c rest = false := Bool.and_false _
  rw [dashed, hnone, withDash]
  split <;> rfl

/-- Behind a character there is a dash just if a word begins. -/
theorem dashed_some (p : Char) (rest : List Char) :
    dashed (some p) rest = (if startsWord p rest then ['-'] else []) ++ dashed none rest := by
  cases rest with
  | nil => rfl
  | cons c rest =>
    rw [dashed_none_cons, dashed, startsWord, withDash]
    cases hdash : isDash c with
    | true =>
      have hupper : isUpper c = false := by
        by_contra hupper
        rw [isDash_of_isUpper (by simpa using hupper)] at hdash
        contradiction
      simp [beginsWord_of_not_isUpper (some p) hupper]
    | false => cases beginsWord (some p) c rest <;> rfl

theorem dashed_none (text : List Char) :
    dashed none text = ['-'].intercalate ((wordsOf text).map (List.map withDash)) := by
  induction text with
  | nil => rfl
  | cons c rest ih =>
    rw [dashed_none_cons, dashed_some, ih]
    by_cases hstarts : startsWord c rest = true
    · have hrest : rest ≠ [] := by
        rintro rfl
        contradiction
      obtain ⟨word, others, hwords⟩ := List.exists_cons_of_ne_nil (wordsOf_ne_nil hrest)
      rw [if_pos hstarts, wordsOf_cons_of_startsWord hstarts, hwords]
      rfl
    · rw [if_neg hstarts, wordsOf_cons_of_not_startsWord hstarts]
      cases wordsOf rest with
      | nil => rfl
      | cons word others => exact (Text.intercalate_append_cons ['-'] [withDash c] _ _).symm

theorem mem_dashed {previous : Option Char} (h : c ∈ dashed previous text) :
    c = '-' ∨ c ∈ text ∧ isDash c = false := by
  induction text generalizing previous with
  | nil => contradiction
  | cons d rest ih =>
    rw [dashed, List.mem_append] at h
    rcases h with h | h
    · cases hdash : isDash d with
      | true => exact .inl (by simpa [hdash] using h)
      | false =>
        have hshown : c = '-' ∨ c = d := by
          cases hbegins : beginsWord previous d rest <;> simp [hdash, hbegins] at h <;> simp [h]
        refine hshown.imp_right ?_
        rintro rfl
        exact ⟨List.mem_cons_self, hdash⟩
    · exact (ih h).imp_right fun ⟨hmem, hdash⟩ => ⟨List.mem_cons_of_mem _ hmem, hdash⟩

/-- Without capitals and underscores there is nothing to do. -/
theorem dashed_eq_self (previous : Option Char)
    (h : ∀ c ∈ text, isUpper c = false ∧ c ≠ '_') : dashed previous text = text := by
  induction text generalizing previous with
  | nil => rfl
  | cons c rest ih =>
    obtain ⟨⟨hupper, hscore⟩, hrest⟩ := List.forall_mem_cons.mp h
    rw [dashed, beginsWord_of_not_isUpper previous hupper, ih (some c) hrest]
    by_cases hdash : c = '-'
    · subst hdash
      rfl
    · have hnone : isDash c = false := by simp [isDash, hdash, hscore]
      rw [hnone]
      rfl

end Dashes

/-! ## Names in ASCII -/

section Ascii

variable {c : Char} {text : List Char}

theorem toLower_of_isAscii (h : isAscii c = true) :
    isAscii c.toLower = true ∧ isUpper c.toLower = false ∧ isDash c.toLower = isDash c ∧
      (isUpper c = false → c.toLower = c) :=
  of_isAscii (P := fun c => isAscii c.toLower = true ∧ isUpper c.toLower = false ∧
    isDash c.toLower = isDash c ∧ (isUpper c = false → c.toLower = c)) (by decide +kernel) h

theorem isAscii_of_mem_dashed (h : ∀ c ∈ text, isAscii c = true) :
    ∀ c ∈ dashed none text, isAscii c = true := by
  intro c hc
  rcases mem_dashed hc with rfl | ⟨hmem, -⟩
  · rfl
  · exact h c hmem

theorem toList_dashName (name : String) :
    (dashName name).toList = lowerText (dashed none name.toList) := Text.toList_onString ..

theorem toList_dashName_of_isAscii {name : String} (h : ∀ c ∈ name.toList, isAscii c = true) :
    (dashName name).toList = shownWords (wordsOf name.toList) := by
  rw [toList_dashName, lowerText_of_isAscii (isAscii_of_mem_dashed h), dashed_none,
    Text.map_intercalate, List.map_map, List.map_comp_map]
  rfl

theorem of_mem_dashName {name : String} (h : ∀ c ∈ name.toList, isAscii c = true) :
    ∀ c ∈ (dashName name).toList, isAscii c = true ∧ isUpper c = false ∧ c ≠ '_' := by
  intro c hc
  rw [toList_dashName, lowerText_of_isAscii (isAscii_of_mem_dashed h)] at hc
  obtain ⟨d, hd, rfl⟩ := List.mem_map.mp hc
  obtain ⟨hascii, hupper, hsame, -⟩ := toLower_of_isAscii (isAscii_of_mem_dashed h d hd)
  refine ⟨hascii, hupper, fun hscore => ?_⟩
  rcases mem_dashed hd with rfl | ⟨-, hdash⟩
  · exact absurd hscore (by decide)
  · rw [hscore, hdash] at hsame
    contradiction

theorem dashName_eq_self {name : String}
    (h : ∀ c ∈ name.toList, isAscii c = true ∧ isUpper c = false ∧ c ≠ '_') :
    dashName name = name := by
  have hascii : ∀ c ∈ name.toList, isAscii c = true := fun c hc => (h c hc).1
  rw [← String.toList_inj, toList_dashName, dashed_eq_self none fun c hc => (h c hc).2,
    lowerText_of_isAscii hascii]
  refine (List.map_congr_left fun c hc => ?_).trans (List.map_id _)
  obtain ⟨hc, hupper, -⟩ := h c hc
  exact (toLower_of_isAscii hc).2.2.2 hupper

theorem withDash_of_not_isDash (h : isDash c = false) : withDash c = c := by
  rw [withDash, h]
  rfl

/-- Dashes are shown for dashes and underscores only. -/
theorem toLower_withDash_bne (h : isAscii c = true) :
    ((withDash c).toLower != '-') = !isDash c.toLower := by
  obtain ⟨-, -, hsame, -⟩ := toLower_of_isAscii h
  cases hdash : isDash c with
  | true =>
    rw [hsame, withDash, hdash]
    rfl
  | false =>
    have hne : c.toLower ≠ '-' := by
      intro hlower
      rw [hlower, hdash] at hsame
      contradiction
    rw [hsame, hdash, withDash_of_not_isDash hdash]
    exact bne_iff_ne.mpr hne

theorem filter_shownWords {words : List (List Char)} (h : ∀ c ∈ words.flatten, isAscii c = true) :
    (shownWords words).filter (· != '-') =
      (words.flatten.map Char.toLower).filter fun c => !isDash c := by
  have hseparator : ∀ c ∈ ['-'], (c != '-') = false := by decide
  have hsame : ∀ c ∈ words.flatten, ((· != '-') ∘ fun c => (withDash c).toLower) c =
      ((fun c => !isDash c) ∘ Char.toLower) c := fun c hc => toLower_withDash_bne (h c hc)
  rw [shownWords, Text.filter_intercalate hseparator, ← List.map_flatten, List.filter_map,
    List.filter_map, List.filter_congr hsame]
  refine List.map_congr_left fun c hc => ?_
  obtain ⟨hmem, hkept⟩ := List.mem_filter.mp hc
  obtain ⟨-, -, hdash, -⟩ := toLower_of_isAscii (h c hmem)
  rw [Function.comp_apply, hdash, Bool.not_eq_true'] at hkept
  rw [withDash_of_not_isDash hkept]

end Ascii

/-! ## The dashes between words -/

section Between

variable {words first rest : List (List Char)}

/-- A dash between the two texts is at no end and beside no other dash. -/
def IsApart (before after : List Char) : Prop :=
  (∃ c ∈ before.getLast?, c ≠ '-') ∧ ∃ c ∈ after.head?, c ≠ '-'

theorem shownWords_append (hfirst : first ≠ []) (hrest : rest ≠ []) :
    shownWords (first ++ rest) = shownWords first ++ '-' :: shownWords rest := by
  rw [shownWords, List.map_append, Text.intercalate_append (by simpa) (by simpa), List.append_assoc]
  rfl

theorem head?_shownWords (h : ∀ word ∈ words, word ≠ []) :
    (shownWords words).head? = words.flatten.head?.map fun c => (withDash c).toLower := by
  rw [shownWords, Text.head?_intercalate (by simpa using h), ← List.map_flatten, List.head?_map]

theorem getLast?_shownWords (h : ∀ word ∈ words, word ≠ []) :
    (shownWords words).getLast? = words.flatten.getLast?.map fun c => (withDash c).toLower := by
  rw [shownWords, Text.getLast?_intercalate (by simpa using h), ← List.map_flatten,
    List.getLast?_map]

/-- At a boundary neither side shows a dash. -/
theorem IsBoundary.isApart_shownWords (h : IsBoundary first.flatten rest.flatten)
    (hfirst : ∀ word ∈ first, word ≠ []) (hrest : ∀ word ∈ rest, word ≠ [])
    (hascii : ∀ c ∈ (first ++ rest).flatten, isAscii c = true) :
    IsApart (shownWords first) (shownWords rest) := by
  obtain ⟨p, hp, c, hc, hupper, hdash, -⟩ := h
  rw [List.flatten_append, List.forall_mem_append] at hascii
  have hshown : ∀ {d : Char}, isAscii d = true → isDash d = false → (withDash d).toLower ≠ '-' := by
    intro d hd hnone
    obtain ⟨-, -, hsame, -⟩ := toLower_of_isAscii hd
    rw [← bne_iff_ne, toLower_withDash_bne hd, hsame, hnone]
    rfl
  constructor
  · refine ⟨(withDash p).toLower, ?_, hshown (hascii.1 p (List.mem_of_mem_getLast? hp)) hdash⟩
    rw [getLast?_shownWords hfirst]
    exact Option.mem_map_of_mem _ hp
  · refine ⟨(withDash c).toLower, ?_,
      hshown (hascii.2 c (List.mem_of_mem_head? hc)) (isDash_of_isUpper hupper)⟩
    rw [head?_shownWords hrest]
    exact Option.mem_map_of_mem _ hc

end Between

/-- A name in ASCII is shown without capitals and underscores.  Nothing but its dashes and
underscores is lost, and its capitals become lower-case letters.  Dashes are put in between words:
in front of capitals behind characters that are no dashes, so that none of them comes to stand
beside another dash or at an end.  What is shown stays the same when it is shown again. -/
theorem dashName_of_isAscii (name : String) (h : ∀ c ∈ name.toList, isAscii c = true) :
    (∀ c ∈ (dashName name).toList, isUpper c = false ∧ c ≠ '_') ∧
    (dashName name).toList.filter (· != '-') =
      (name.toList.map Char.toLower).filter (fun c => !isDash c) ∧
    (∃ words, IsWordCut name.toList words ∧ (dashName name).toList = shownWords words ∧
      ∀ first rest, first ++ rest = words → first ≠ [] → rest ≠ [] →
        (dashName name).toList = shownWords first ++ '-' :: shownWords rest ∧
          IsApart (shownWords first) (shownWords rest)) ∧
    dashName (dashName name) = dashName name := by
  have hcut := isWordCut_wordsOf name.toList
  have hform := toList_dashName_of_isAscii h
  have hletters := of_mem_dashName h
  have hascii : ∀ c ∈ (wordsOf name.toList).flatten, isAscii c = true := by
    rw [hcut.flatten]
    exact h
  refine ⟨fun c hc => (hletters c hc).2, ?_, ⟨wordsOf name.toList, hcut, hform, ?_⟩, ?_⟩
  · rw [hform, filter_shownWords hascii, hcut.flatten]
  · intro first rest hwords hfirst hrest
    rw [← hwords] at hform hascii
    have htext : first.flatten ++ rest.flatten = name.toList := by
      rw [← hcut.flatten, ← hwords, List.flatten_append]
    have hboundary : IsBoundary first.flatten rest.flatten :=
      (hcut.isBoundary_iff _ _ htext).mpr ⟨first, rest, hwords, hfirst, hrest, rfl, rfl⟩
    have hne : ∀ word ∈ first ++ rest, word ≠ [] := hwords ▸ hcut.ne_nil
    rw [List.forall_mem_append] at hne
    exact ⟨hform.trans (shownWords_append hfirst hrest),
      hboundary.isApart_shownWords hne.1 hne.2 hascii⟩
  · exact dashName_eq_self hletters

/-- A run of capitals and an underscore in front of a capital. -/
theorem dashName_serverName :
    let name := "myHTTPServer_V2"
    (∀ c ∈ name.toList, isAscii c = true) ∧ dashName name = "my-http-server-v2" ∧
      (∃ words, IsWordCut name.toList words ∧ shownWords words = "my-http-server-v2".toList) ∧
      dashName "my-http-server-v2" = "my-http-server-v2" := by
  intro name
  have hascii : ∀ c ∈ name.toList, isAscii c = true := by decide
  have hname : dashName name = "my-http-server-v2" := by decide +kernel
  obtain ⟨-, -, ⟨words, hcut, hshown, -⟩, hagain⟩ := dashName_of_isAscii name hascii
  rw [hname] at hshown hagain
  exact ⟨hascii, hname, ⟨words, hcut, hshown.symm⟩, hagain⟩

end JavaSignatures.Report
