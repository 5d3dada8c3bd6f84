import JavaSignatures.Text
import Mathlib.Data.List.DropRight

set_option autoImplicit false

/-!
# The ends, parts and lines of a text

What trimming, splitting and joining do to texts that are put together from others.  A text is
trimmed if neither of its ends is a blank (`IsTrimmed`); blanks around a text do not change what it
is trimmed to, and lines that are joined are read back (`lines_intercalate`).
-/

namespace JavaSignatures

/-! ## Runs up to an element that ends them -/

section Runs

variable {α : Type} {p : α → Bool} {front : List α} {stop : α}

theorem takeWhile_append_stop (hstop : p stop = false) (front rest : List α) :
    (front ++ stop :: rest).takeWhile p = front.takeWhile p := by
  induction front with
  | nil => simp [hstop]
  | cons first front ih => cases hfirst : p first <;> simp [hfirst, ih]

theorem dropWhile_append_stop (hstop : p stop = false) (front rest : List α) :
    (front ++ stop :: rest).dropWhile p = front.dropWhile p ++ stop :: rest := by
  induction front with
  | nil => simp [hstop]
  | cons first front ih => cases hfirst : p first <;> simp [hfirst, ih]

theorem takeWhile_run (hfront : ∀ item ∈ front, p item = true) (hstop : p stop = false)
    (rest : List α) : (front ++ stop :: rest).takeWhile p = front := by
  rw [takeWhile_append_stop hstop, List.takeWhile_eq_self_iff.mpr hfront]

theorem dropWhile_run (hfront : ∀ item ∈ front, p item = true) (hstop : p stop = false)
    (rest : List α) : (front ++ stop :: rest).dropWhile p = stop :: rest := by
  rw [dropWhile_append_stop hstop, List.dropWhile_eq_nil_iff.mpr hfront, List.nil_append]

end Runs

namespace Text

open JavaSignatures.Character

section Decidable

variable {p : Char → Prop} [DecidablePred p]

/-- What holds of the characters of a text is decided along the text, not over all characters. -/
instance (priority := high) decidableForallMem (text : List Char) : Decidable (∀ c ∈ text, p c) :=
  List.decidableBAll p text

/-- The same for the character at one of its ends. -/
instance (priority := high) decidableForallEnd (c? : Option Char) : Decidable (∀ c ∈ c?, p c) :=
  Option.decidableForallMem c?

end Decidable

/-! ## Trimming -/

/-- What is trimmed at the end is a list without the longest part at its end that satisfies `p`. -/
theorem trimEnd_eq_rdropWhile (p : Char → Bool) (text : List Char) :
    trimEnd p text = text.rdropWhile p := rfl

theorem trimEnd_isPrefix (p : Char → Bool) (text : List Char) : trimEnd p text <+: text :=
  List.rdropWhile_prefix p text

theorem trimEnd_append_of_all {p : Char → Bool} (text : List Char) {tail : List Char}
    (h : ∀ c ∈ tail, p c = true) : trimEnd p (text ++ tail) = trimEnd p text := by
  simp only [trimEnd, List.reverse_append]
  rw [List.dropWhile_append_of_pos fun c hc => h c (List.mem_reverse.mp hc)]

theorem trimEnd_eq_nil_iff {p : Char → Bool} {text : List Char} :
    trimEnd p text = [] ↔ ∀ c ∈ text, p c = true :=
  List.rdropWhile_eq_nil_iff

/-- What ends with a character that stays is not trimmed. -/
theorem trimEnd_append_of_stays {p : Char → Bool} {text : List Char}
    (h : ∀ c ∈ text, p c = false) (tail : List Char) :
    trimEnd p (text ++ tail) = text ++ trimEnd p tail := by
  simp only [trimEnd, List.reverse_append]
  by_cases htail : tail.reverse.dropWhile p = []
  · have hall : ∀ c ∈ tail.reverse, p c = true := List.dropWhile_eq_nil_iff.mp htail
    have hstays : text.reverse.dropWhile p = text.reverse := by
      cases hr : text.reverse with
      | nil => rfl
      | cons c rest =>
        have hc : p c = false := h c (by rw [← List.mem_reverse, hr]; simp)
        simp [hc]
    rw [List.dropWhile_append_of_pos hall, htail, hstays]
    simp
  · rw [List.dropWhile_append, if_neg (by simpa using htail)]
    simp

theorem mem_trimEnd_or {p : Char → Bool} {text : List Char} {c : Char} (h : c ∈ text) :
    p c = true ∨ c ∈ trimEnd p text := by
  rw [← List.rdropWhile_append_rtakeWhile (p := p) (l := text), List.mem_append] at h
  exact h.symm.imp_left List.mem_rtakeWhile_imp

theorem trimEnd_eq_self_iff {p : Char → Bool} {text : List Char} :
    trimEnd p text = text ↔ ∀ c ∈ text.getLast?, p c = false := by
  rw [trimEnd_eq_rdropWhile, List.rdropWhile_eq_self_iff]
  cases text using List.reverseRecOn <;> simp

/-- What is trimmed away satisfies the class. -/
theorem exists_append_trimEnd (p : Char → Bool) (text : List Char) :
    ∃ tail, (∀ c ∈ tail, p c = true) ∧ text = trimEnd p text ++ tail :=
  ⟨text.rtakeWhile p, fun _ => List.mem_rtakeWhile_imp, List.rdropWhile_append_rtakeWhile.symm⟩

theorem dropWhile_of_head? {p : Char → Bool} {text : List Char}
    (h : ∀ c ∈ text.head?, p c = false) : text.dropWhile p = text := by
  cases text with
  | nil => rfl
  | cons c rest => rw [List.dropWhile_cons_of_neg]; simpa using h

theorem mem_head?_of_isPrefix {part text : List Char} (h : part <+: text) {c : Char}
    (hc : c ∈ part.head?) : c ∈ text.head? := by
  obtain ⟨tail, rfl⟩ := h
  rw [List.head?_append, show part.head? = some c from hc]
  rfl

section BothEnds

variable {p q : Char → Bool} {text : List Char}

theorem head?_trimEnd_dropWhile (text : List Char) :
    ∀ c ∈ (trimEnd q (text.dropWhile p)).head?, p c = false := by
  intro c hc
  have hhead : (text.dropWhile p).head? = some c :=
    mem_head?_of_isPrefix (trimEnd_isPrefix q _) hc
  have hnot := List.head?_dropWhile_not p text
  rwa [hhead] at hnot

theorem getLast?_trimEnd (text : List Char) : ∀ c ∈ (trimEnd q text).getLast?, q c = false :=
  trimEnd_eq_self_iff.mp (List.rdropWhile_idempotent q text)

theorem trimEnd_dropWhile_eq_self_iff :
    trimEnd q (text.dropWhile p) = text ↔
      (∀ c ∈ text.head?, p c = false) ∧ ∀ c ∈ text.getLast?, q c = false := by
  constructor
  · intro h
    rw [← h]
    exact ⟨head?_trimEnd_dropWhile text, getLast?_trimEnd _⟩
  · rintro ⟨hhead, hlast⟩
    rw [dropWhile_of_head? hhead, trimEnd_eq_self_iff.mpr hlast]

end BothEnds

/-- Neither end of the text is a blank. -/
structure IsTrimmed (text : List Char) : Prop where
  head : ∀ c ∈ text.head?, isBlank c = false
  last : ∀ c ∈ text.getLast?, isBlank c = false

section Trim

variable {text : List Char}

theorem isTrimmed_trim (text : List Char) : IsTrimmed (trim text) :=
  ⟨head?_trimEnd_dropWhile text, getLast?_trimEnd _⟩

theorem trim_eq_self_iff : trim text = text ↔ IsTrimmed text := by
  rw [trim, trimEnd_dropWhile_eq_self_iff]
  exact ⟨fun h => ⟨h.1, h.2⟩, fun h => ⟨h.head, h.last⟩⟩

theorem trim_isInfix (text : List Char) : trim text <:+: text :=
  (trimEnd_isPrefix ..).isInfix.trans (List.dropWhile_suffix _).isInfix

theorem trim_sublist (text : List Char) : (trim text).Sublist text := (trim_isInfix text).sublist

theorem trim_isPrefix (h : ∀ c ∈ text.head?, isBlank c = false) : trim text <+: text := by
  rw [trim, dropWhile_of_head? h]
  exact trimEnd_isPrefix isBlank text

theorem trim_blanks_append {blanks : List Char} (h : ∀ c ∈ blanks, isBlank c = true)
    (text : List Char) : trim (blanks ++ text) = trim text := by
  rw [trim, trim, List.dropWhile_append_of_pos h]

theorem trim_append_blanks {blanks : List Char} (text : List Char)
    (h : ∀ c ∈ blanks, isBlank c = true) : trim (text ++ blanks) = trim text := by
  unfold trim
  by_cases htext : text.dropWhile isBlank = []
  · have hall := List.dropWhile_eq_nil_iff.mp htext
    rw [List.dropWhile_append_of_pos hall, htext, List.dropWhile_eq_nil_iff.mpr h]
  · rw [List.dropWhile_append, if_neg (by simpa using htext), trimEnd_append_of_all _ h]

end Trim

/-! ## Copies at the beginning and at the end -/

section Ends

variable {start : List Char}

theorem dropStartsFrom_append (done rest : List Char) :
    dropStartsFrom start done.length (done ++ rest) = dropStartsFrom start 0 rest := by
  induction done with
  | nil => rfl
  | cons c done ih => exact ih

theorem dropStarts_append (hne : start ≠ []) (rest : List Char) :
    dropStarts start (start ++ rest) = dropStarts start rest := by
  cases start with
  | nil => exact absurd rfl hne
  | cons c more =>
    have hprefix : (c :: more).isPrefixOf (c :: (more ++ rest)) = true :=
      List.isPrefixOf_iff_prefix.mpr ⟨rest, rfl⟩
    unfold dropStarts
    rw [List.cons_append, dropStartsFrom, if_pos hprefix]
    exact dropStartsFrom_append more rest

theorem dropStarts_eq_self {text : List Char} (h : ¬start <+: text) :
    dropStarts start text = text := by
  cases text with
  | nil => rfl
  | cons c rest =>
    rw [dropStarts, dropStartsFrom, if_neg]
    rwa [List.isPrefixOf_iff_prefix]

theorem dropEnds_append {ending : List Char} (hne : ending ≠ []) (text : List Char) :
    dropEnds ending (text ++ ending) = dropEnds ending text := by
  unfold dropEnds
  rw [List.reverse_append, dropStarts_append (by simpa using hne)]

theorem dropEnds_eq_self {ending text : List Char} (h : ¬ending <:+ text) :
    dropEnds ending text = text := by
  unfold dropEnds
  rw [dropStarts_eq_self (by rwa [List.reverse_prefix]), List.reverse_reverse]

end Ends

/-! ## Parts -/

theorem takeWhile_ne_append {mark : Char} {before : List Char} (h : mark ∉ before)
    (after : List Char) : (before ++ mark :: after).takeWhile (· != mark) = before := by
  have hall : ∀ c ∈ before, (c != mark) = true := by
    intro c hc
    exact bne_iff_ne.mpr fun heq => h (heq ▸ hc)
  exact takeWhile_run hall (by simp) after

theorem intercalate_append_cons (separator start part : List Char) (parts : List (List Char)) :
    separator.intercalate ((start ++ part) :: parts) =
      start ++ separator.intercalate (part :: parts) := by
  cases parts with
  | nil => simp
  | cons next rest => simp only [List.intercalate_cons_cons, List.append_assoc]

section Intercalate

variable {separator : List Char} {parts : List (List Char)}

theorem map_intercalate (f : Char → Char) (separator : List Char) (parts : List (List Char)) :
    (separator.intercalate parts).map f =
      (separator.map f).intercalate (parts.map (List.map f)) := by
  induction parts with
  | nil => rfl
  | cons part rest ih =>
    cases rest with
    | nil => simp
    | cons next rest =>
      rw [List.intercalate_cons_cons, List.map_append, List.map_append, ih]
      simp only [List.map_cons, List.intercalate_cons_cons]

theorem intercalate_append {first rest : List (List Char)} (hfirst : first ≠ [])
    (hrest : rest ≠ []) :
    separator.intercalate (first ++ rest) =
      separator.intercalate first ++ separator ++ separator.intercalate rest := by
  induction first with
  | nil => exact absurd rfl hfirst
  | cons part first ih =>
    cases first with
    | nil => rw [List.singleton_append, List.intercalate_cons_of_ne_nil hrest,
        List.intercalate_singleton]
    | cons next first =>
      have hmore := ih (by simp)
      rw [List.cons_append, List.cons_append, List.intercalate_cons_cons, ← List.cons_append, hmore,
        List.intercalate_cons_cons]
      simp only [List.append_assoc]

theorem intercalate_concat_append (separator : List Char) (parts : List (List Char))
    (part ending : List Char) :
    separator.intercalate (parts ++ [part ++ ending]) =
      separator.intercalate (parts ++ [part]) ++ ending := by
  by_cases hparts : parts = []
  · rw [hparts]
    simp
  · rw [intercalate_append hparts (by simp), intercalate_append hparts (by simp),
      List.intercalate_singleton, List.intercalate_singleton, ← List.append_assoc]

/-- What leaves out the separator sees the parts one behind the other. -/
theorem filter_intercalate {p : Char → Bool} (h : ∀ c ∈ separator, p c = false)
    (parts : List (List Char)) :
    (separator.intercalate parts).filter p = parts.flatten.filter p := by
  induction parts with
  | nil => rfl
  | cons part rest ih =>
    cases rest with
    | nil => simp
    | cons next rest =>
      have hnone : separator.filter p = [] :=
        List.filter_eq_nil_iff.mpr fun c hc => by simp [h c hc]
      rw [List.intercalate_cons_cons, List.filter_append, List.filter_append, hnone,
        List.append_nil, ih]
      simp only [List.flatten_cons, List.filter_append]

theorem head?_intercalate (h : ∀ part ∈ parts, part ≠ []) :
    (separator.intercalate parts).head? = parts.flatten.head? := by
  match parts with
  | [] => rfl
  | [part] => simp
  | part :: next :: rest =>
    have hpart : part ≠ [] := h part (by simp)
    rw [List.intercalate_cons_cons, List.append_assoc, List.head?_append_of_ne_nil _ hpart,
      List.flatten_cons, List.head?_append_of_ne_nil _ hpart]

theorem getLast?_intercalate (h : ∀ part ∈ parts, part ≠ []) :
    (separator.intercalate parts).getLast? = parts.flatten.getLast? := by
  rcases List.eq_nil_or_concat' parts with rfl | ⟨first, last, rfl⟩
  · rfl
  · have hlast : last ≠ [] := h last (by simp)
    rw [List.flatten_concat, List.getLast?_append_of_ne_nil _ hlast]
    by_cases hfirst : first = []
    · rw [hfirst]
      simp
    · rw [intercalate_append hfirst (by simp), List.intercalate_singleton,
        List.getLast?_append_of_ne_nil _ hlast]

end Intercalate

theorem cut?_append_cons {separator : Char → Bool} {before : List Char}
    (h : ∀ c ∈ before, separator c = false) {mark : Char} (hmark : separator mark = true)
    (after : List Char) : cut? separator (before ++ mark :: after) = some (before, after) := by
  have hkept : ∀ c ∈ before, (!separator c) = true := fun c hc => by simp [h c hc]
  unfold cut?
  rw [dropWhile_run hkept (by simp [hmark]), takeWhile_run hkept (by simp [hmark])]

theorem cut?_eq_none {separator : Char → Bool} {text : List Char}
    (h : ∀ c ∈ text, separator c = false) : cut? separator text = none := by
  unfold cut?
  rw [List.dropWhile_eq_nil_iff.mpr fun c hc => by simp [h c hc]]

/-! ## Lines -/

theorem trim_dropReturn (line : List Char) : trim (dropReturn line) = trim line := by
  unfold dropReturn
  split
  · next hlast =>
    obtain ⟨start, rfl⟩ := List.getLast?_eq_some_iff.mp (eq_of_beq hlast)
    rw [List.dropLast_concat, trim_append_blanks]
    decide +kernel
  · rfl

/-- Lines that are joined are read back; the last one must not be empty. -/
theorem lines_intercalate {parts : List (List Char)} {last : List Char}
    (hparts : ∀ part ∈ parts, '\n' ∉ part) (hlast : '\n' ∉ last) (hne : last ≠ []) :
    lines (['\n'].intercalate (parts ++ [last])) = parts.map dropReturn ++ [last] := by
  have hall : ∀ part ∈ parts ++ [last], '\n' ∉ part := by
    intro part hpart
    rcases List.mem_append.mp hpart with h | h
    · exact hparts part h
    · rwa [List.mem_singleton.mp h]
  unfold lines
  rw [List.splitOn_intercalate '\n' hall (by simp)]
  simp [hne]

end Text

end JavaSignatures
