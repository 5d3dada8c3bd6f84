import JavaSignatures.Proofs.CharacterClasses
import JavaSignatures.Proofs.Substitution
import JavaSignatures.Proofs.TextParts
import JavaSignatures.TypeRef

set_option autoImplicit false

/-!
# Names that a rendered type mentions

A rendered type mentions what stands in it as a whole: the text itself, or a type argument at any
depth, brackets behind it left out.  `mentions_applied_iff` says what a type with arguments
mentions.  Substituting a type for a variable takes the mentions of the variable away and gives no
other variable one (`mentions_substitute_iff`), and leaving out the implicit package keeps all
mentions (`mentions_dropImplicitPackage_iff`).
-/

namespace JavaSignatures.Name

open JavaSignatures.Character
open Text (mem_trimEnd_or trimEnd_append_of_all trimEnd_append_of_stays trimEnd_eq_nil_iff)

/-! ## Whole texts and arguments -/

/-- The characters between a type and its arguments. -/
def isTypeSeparator (c : Char) : Bool := c == '<' || c == ',' || c == '>'

/-- The whole texts in a rendered type, behind a part of one that has been read: each ends at a
comma, at a closing bracket or with the type.  What ends at an opening bracket is a type in front of
its arguments and no whole text. -/
def atomsFrom (piece : List Char) : List Char → List (List Char)
  | [] => [piece]
  | c :: rest =>
    if c == '<' then atomsFrom [] rest
    else if isTypeSeparator c then piece :: atomsFrom [] rest
    else atomsFrom (piece ++ [c]) rest

/-- The whole texts in a rendered type. -/
def atoms (text : List Char) : List (List Char) := atomsFrom [] text

/-- A blank or a bracket. -/
def isTrailing (c : Char) : Bool := isBlank c || c == '[' || c == ']'

/-- A whole text without blanks in front of it and brackets behind it. -/
def core (atom : List Char) : List Char := Text.trimEnd isTrailing (atom.dropWhile isBlank)

/-- What a rendered type mentions. -/
def mentioned (text : List Char) : List (List Char) := (atoms text).map core

/-- The rendered type is the name, or has it as a type argument at some depth. -/
def Mentions (text name : String) : Prop := name.toList ∈ mentioned text.toList

instance (text name : String) : Decidable (Mentions text name) :=
  inferInstanceAs (Decidable (_ ∈ _))

/-- The name is mentioned by the text when arguments follow it: its last whole text is then the type
in front of the arguments. -/
def MentionsInFront (text name : String) : Prop :=
  name.toList ∈ (mentioned text.toList).dropLast

instance (text name : String) : Decidable (MentionsInFront text name) :=
  inferInstanceAs (Decidable (_ ∈ _))

/-- A text without separators, the kind of text that is a name and not a type with arguments. -/
def SeparatorFree (text : List Char) : Prop := ∀ c ∈ text, isTypeSeparator c = false

/-! ## Whole texts of a composed text -/

theorem atomsFrom_ne_nil (piece text : List Char) : atomsFrom piece text ≠ [] := by
  induction text generalizing piece with
  | nil => simp [atomsFrom]
  | cons c rest ih =>
    unfold atomsFrom
    split
    · exact ih _
    · split
      · simp
      · exact ih _

theorem atomsFrom_of_separatorFree (piece : List Char) {text : List Char}
    (h : SeparatorFree text) : atomsFrom piece text = [piece ++ text] := by
  induction text generalizing piece with
  | nil => simp [atomsFrom]
  | cons c rest ih =>
    have hc : isTypeSeparator c = false := h c (by simp)
    have hopen : (c == '<') = false := by
      simp only [isTypeSeparator, Bool.or_eq_false_iff] at hc
      exact hc.1.1
    simp only [atomsFrom, hopen, hc, Bool.false_eq_true, if_false]
    rw [ih _ fun d hd => h d (List.mem_cons_of_mem _ hd)]
    simp

/-- A comma or a closing bracket ends a whole text. -/
theorem atomsFrom_append_end (piece first rest : List Char) {c : Char} (hopen : c ≠ '<')
    (hc : isTypeSeparator c = true) :
    atomsFrom piece (first ++ c :: rest) = atomsFrom piece first ++ atoms rest := by
  induction first generalizing piece with
  | nil => simp [atomsFrom, atoms, hopen, hc]
  | cons d first ih =>
    simp only [List.cons_append, atomsFrom]
    split
    · exact ih _
    · split
      · rw [ih, List.cons_append]
      · exact ih _

/-- An opening bracket makes what stands in front of it no whole text. -/
theorem atomsFrom_append_open (piece first rest : List Char) :
    atomsFrom piece (first ++ '<' :: rest) = (atomsFrom piece first).dropLast ++ atoms rest := by
  induction first generalizing piece with
  | nil => simp [atomsFrom, atoms]
  | cons d first ih =>
    simp only [List.cons_append, atomsFrom]
    split
    · exact ih _
    · split
      · rw [ih, List.dropLast_cons_of_ne_nil (atomsFrom_ne_nil _ _), List.cons_append]
      · exact ih _

/-- A text is free of separators, or falls into a part that is and what follows the separator behind
it. -/
theorem separatorFree_or_split (text : List Char) :
    SeparatorFree text ∨ ∃ first c rest, text = first ++ c :: rest ∧ SeparatorFree first ∧
      isTypeSeparator c = true := by
  induction text with
  | nil => exact Or.inl fun c hc => absurd hc (by simp)
  | cons d text ih =>
    by_cases hd : isTypeSeparator d = true
    · exact Or.inr ⟨[], d, text, rfl, fun c hc => absurd hc (by simp), hd⟩
    · have hd' : isTypeSeparator d = false := by simpa using hd
      rcases ih with hfree | ⟨first, c, rest, rfl, hfirst, hc⟩
      · refine Or.inl fun c hc => ?_
        rcases List.mem_cons.mp hc with rfl | hc
        · exact hd'
        · exact hfree c hc
      · refine Or.inr ⟨d :: first, c, rest, rfl, fun e he => ?_, hc⟩
        rcases List.mem_cons.mp he with rfl | he
        · exact hd'
        · exact hfirst e he

/-- A function that reads both sides of each separator apart acts on the whole texts one by one. -/
theorem atoms_of_split {f : List Char → List Char}
    (hfree : ∀ text, SeparatorFree text → SeparatorFree (f text))
    (hsplit : ∀ c, isTypeSeparator c = true → ∀ first rest, f (first ++ c :: rest) =
      f first ++ c :: f rest) (text : List Char) : atoms (f text) = (atoms text).map f := by
  induction hlength : text.length using Nat.strongRecOn generalizing text with
  | ind length ih =>
    subst hlength
    rcases separatorFree_or_split text with htext | ⟨first, c, rest, rfl, hfirst, hc⟩
    · rw [atoms, atoms, atomsFrom_of_separatorFree _ (hfree text htext),
        atomsFrom_of_separatorFree _ htext]
      rfl
    · have hrest : atoms (f rest) = (atoms rest).map f := ih rest.length (by simp; omega) rest rfl
      rw [hsplit c hc, atoms, atoms]
      by_cases hopen : c = '<'
      · subst hopen
        rw [atomsFrom_append_open, atomsFrom_append_open, hrest,
          atomsFrom_of_separatorFree _ hfirst, atomsFrom_of_separatorFree _ (hfree first hfirst)]
        simp
      · rw [atomsFrom_append_end _ _ _ hopen hc, atomsFrom_append_end _ _ _ hopen hc, hrest,
          atomsFrom_of_separatorFree _ hfirst, atomsFrom_of_separatorFree _ (hfree first hfirst)]
        simp

/-! ## Whole texts without what stands around them -/

theorem core_append_blanks {blanks : List Char} (h : ∀ c ∈ blanks, isBlank c = true)
    (atom : List Char) : core (blanks ++ atom) = core atom := by
  rw [core, List.dropWhile_append_of_pos h, core]

theorem isTrailing_of_isBlank {c : Char} (h : isBlank c = true) : isTrailing c = true := by
  simp [isTrailing, h]

theorem core_append_brackets (atom : List Char) {tail : List Char}
    (h : ∀ c ∈ tail, isTrailing c = true) : core (atom ++ tail) = core atom := by
  by_cases hblank : atom.dropWhile isBlank = []
  · have hall : ∀ c ∈ atom, isBlank c = true := List.dropWhile_eq_nil_iff.mp hblank
    have htail : ∀ c ∈ tail.dropWhile isBlank, isTrailing c = true :=
      fun c hc => h c ((List.dropWhile_suffix isBlank).subset hc)
    rw [core_append_blanks hall, core, core, hblank, trimEnd_eq_nil_iff.mpr htail]
    rfl
  · rw [core, List.dropWhile_append, if_neg (by simpa using hblank), trimEnd_append_of_all _ h,
      core]

/-- A text of several characters that cannot be left out stays, behind blanks and in front of what
begins with none of a name: the whole is a name just if this text is the name and nothing but blanks
and brackets follows. -/
theorem core_eq_iff {blanks text rest name : List Char}
    (hblanks : ∀ c ∈ blanks, isBlank c = true) (hne : text ≠ [])
    (htext : ∀ c ∈ text, isTrailing c = false) (hrest : StopsName rest)
    (hname : ∀ c ∈ name, isNamePart c = true) :
    core (blanks ++ (text ++ rest)) = name ↔ text = name ∧ ∀ c ∈ rest, isTrailing c = true := by
  have hcore : core (blanks ++ (text ++ rest)) = text ++ Text.trimEnd isTrailing rest := by
    rw [core_append_blanks hblanks, core]
    cases text with
    | nil => exact absurd rfl hne
    | cons c text =>
      have hc : isBlank c = false := by
        have := htext c (by simp)
        simp only [isTrailing, Bool.or_eq_false_iff] at this
        exact this.1.1
      rw [List.cons_append, List.dropWhile_cons_of_neg (by simp [hc]), ← List.cons_append,
        trimEnd_append_of_stays htext]
  rw [hcore]
  constructor
  · intro h
    -- what is left of `rest` begins with a character of no name, so nothing is left
    have hnil : Text.trimEnd isTrailing rest = [] := by
      cases htrim : Text.trimEnd isTrailing rest with
      | nil => rfl
      | cons c more =>
        have hstart := Text.trimEnd_isPrefix isTrailing rest
        rw [htrim] at hstart
        obtain ⟨after, hafter⟩ := hstart
        have hfalse : isNamePart c = false := hrest c (by rw [← hafter]; rfl)
        rw [hname c (by rw [← h, htrim]; simp)] at hfalse
        exact absurd hfalse (by simp)
    rw [hnil, List.append_nil] at h
    exact ⟨h, trimEnd_eq_nil_iff.mp hnil⟩
  · rintro ⟨rfl, hall⟩
    rw [trimEnd_eq_nil_iff.mpr hall, List.append_nil]

/-- What begins with a character of no name, blanks aside, is no name. -/
theorem core_ne_of_other {blanks name : List Char} {c : Char} (rest : List Char)
    (hblanks : ∀ c ∈ blanks, isBlank c = true) (hblank : isBlank c = false)
    (hc : isNamePart c = false) (hne : name ≠ []) (hname : ∀ c ∈ name, isNamePart c = true) :
    core (blanks ++ c :: rest) ≠ name := by
  intro h
  rw [core_append_blanks hblanks, core, List.dropWhile_cons_of_neg (by simp [hblank])] at h
  cases name with
  | nil => exact hne rfl
  | cons d name =>
    have hstart := Text.trimEnd_isPrefix isTrailing (c :: rest)
    rw [h] at hstart
    obtain ⟨rfl, -⟩ := List.cons_prefix_cons.mp hstart
    rw [hname d (by simp)] at hc
    exact absurd hc (by simp)

theorem not_isTrailing_of_isNamePart {c : Char} (h : isNamePart c = true) :
    isTrailing c = false := by
  rw [Bool.eq_false_iff]
  intro ht
  have hfalse : isNamePart c = false := by
    simp only [isTrailing, Bool.or_eq_true, beq_iff_eq] at ht
    rcases ht with (hb | rfl) | rfl
    · exact not_isNamePart_of_isBlank hb
    · decide
    · decide
  rw [h] at hfalse
  exact absurd hfalse (by simp)

/-! ## Mentions and substitution -/

section Substitute

variable {identifier replacement : List Char}
variable (hidentifier : identifier ≠ []) (hname : ∀ c ∈ identifier, isNamePart c = true)

variable (replacement) in
include hidentifier hname in
/-- What belongs to no name stays, and what follows is read like a text of its own. -/
theorem substituteFrom_append_of_other {text : List Char}
    (htext : ∀ c ∈ text, isNamePart c = false ∧ c ≠ '.') (rest : List Char) :
    substituteFrom identifier replacement none true 0 (text ++ rest) =
      text ++ substituteFrom identifier replacement none true 0 rest := by
  induction text with
  | nil => rfl
  | cons c text ih =>
    obtain ⟨hc, hdot⟩ := htext c (by simp)
    rw [List.cons_append, substituteFrom_other hidentifier hname _ hc,
      substituteFrom_behind hidentifier hname hc hdot,
      ih fun d hd => htext d (List.mem_cons_of_mem _ hd)]
    rfl

/-- A text that can stand in the place of a type variable: it has characters, and no blanks,
brackets or commas. -/
def IsOpaque (text : List Char) : Prop :=
  text ≠ [] ∧ ∀ c ∈ text, isTypeSeparator c = false ∧ isTrailing c = false

instance (text : List Char) : Decidable (IsOpaque text) :=
  haveI : Decidable (∀ c ∈ text, isTypeSeparator c = false ∧ isTrailing c = false) :=
    List.decidableBAll _ text
  inferInstanceAs (Decidable (_ ∧ _))

variable (replacement) in
include hidentifier hname in
/-- A text that begins with a name character falls into a run and what follows it, and only the run
is looked at for the identifier. -/
theorem exists_run (text : List Char) {c : Char} (hc : isNamePart c = true) :
    ∃ run rest, c :: text = run ++ rest ∧ run ≠ [] ∧ (∀ d ∈ run, isNamePart d = true) ∧
      StopsName rest ∧
      substituteFrom identifier replacement none true 0 (c :: text) =
        (if run = identifier then replacement else run) ++
          substituteFrom identifier replacement none true 0 rest := by
  have hall : ∀ d ∈ c :: text.takeWhile isNamePart, isNamePart d = true := by
    intro d hd
    rcases List.mem_cons.mp hd with rfl | hd
    · exact hc
    · exact List.mem_takeWhile_imp hd
  have hstops : StopsName (text.dropWhile isNamePart) := stopsName_dropWhile text
  have hsplit : c :: text = (c :: text.takeWhile isNamePart) ++ text.dropWhile isNamePart := by
    simp
  refine ⟨c :: text.takeWhile isNamePart, text.dropWhile isNamePart, hsplit, by simp, hall, hstops,
    ?_⟩
  rw [hsplit, substituteFrom_run hidentifier hname (by simp) (by simp) hall hstops]
  simp

theorem isNamePart_or_other_of_isTrailing {c : Char} (h : isTrailing c = true) :
    isNamePart c = false ∧ c ≠ '.' := by
  constructor
  · rw [Bool.eq_false_iff]
    intro hc
    rw [not_isTrailing_of_isNamePart hc] at h
    exact absurd h (by simp)
  · rintro rfl
    exact absurd h (by decide)

include hidentifier hname in
/-- Substitution leaves nothing but blanks and brackets just where there was nothing else. -/
theorem isTrailing_substituteFrom_iff (hreplacement : IsOpaque replacement) {text : List Char} :
    (∀ c ∈ substituteFrom identifier replacement none true 0 text, isTrailing c = true) ↔
      ∀ c ∈ text, isTrailing c = true := by
  obtain ⟨hne, hsolid⟩ := hreplacement
  constructor
  · intro h
    induction text with
    | nil => simp
    | cons c text ih =>
      by_cases hc : isNamePart c = true
      · -- the run, or what replaces it, is there and is no blank or bracket
        obtain ⟨run, rest, -, hrunne, hrun, -, hsub⟩ :=
          exists_run replacement hidentifier hname text hc
        rw [hsub] at h
        have hpiece : ∃ d ∈ (if run = identifier then replacement else run),
            isTrailing d = false := by
          split
          · obtain ⟨d, hd⟩ := List.exists_mem_of_ne_nil _ hne
            exact ⟨d, hd, (hsolid d hd).2⟩
          · obtain ⟨d, hd⟩ := List.exists_mem_of_ne_nil _ hrunne
            exact ⟨d, hd, not_isTrailing_of_isNamePart (hrun d hd)⟩
        obtain ⟨d, hd, hfalse⟩ := hpiece
        rw [h d (List.mem_append_left _ hd)] at hfalse
        exact absurd hfalse (by simp)
      · have hc' : isNamePart c = false := by simpa using hc
        rw [substituteFrom_other hidentifier hname _ hc'] at h
        have htrailing : isTrailing c = true := h c (by simp)
        have hdot := (isNamePart_or_other_of_isTrailing htrailing).2
        rw [substituteFrom_behind hidentifier hname hc' hdot] at h
        intro d hd
        rcases List.mem_cons.mp hd with rfl | hd
        · exact htrailing
        · exact ih (fun e he => h e (List.mem_cons_of_mem _ he)) d hd
  · intro h
    have hsame := substituteFrom_append_of_other replacement hidentifier hname
      (fun c hc => isNamePart_or_other_of_isTrailing (h c hc)) []
    rw [List.append_nil, substituteFrom_nil hidentifier, List.append_nil] at hsame
    rwa [hsame]

include hidentifier hname in
theorem stopsName_substituteFrom {text : List Char} (h : StopsName text) :
    StopsName (substituteFrom identifier replacement none true 0 text) := by
  cases text with
  | nil => rwa [substituteFrom_nil hidentifier]
  | cons c text =>
    have hc : isNamePart c = false := h c (by simp)
    rw [substituteFrom_other hidentifier hname _ hc]
    intro d hd
    rw [List.head?_cons, Option.mem_some_iff] at hd
    exact hd ▸ hc

include hidentifier hname in
/-- A whole text is a name after a substitution just if it was that name before and the name is not
the one that was replaced. -/
theorem core_substituteFrom_iff (hreplacement : IsOpaque replacement) {name : List Char}
    (hne : name ≠ []) (hnamePart : ∀ c ∈ name, isNamePart c = true) (hother : replacement ≠ name)
    (atom : List Char) :
    core (substituteFrom identifier replacement none true 0 atom) = name ↔
      core atom = name ∧ name ≠ identifier := by
  have hblanks : ∀ c ∈ atom.takeWhile isBlank, isBlank c = true := fun c hc =>
    List.mem_takeWhile_imp hc
  have hskip : ∀ c ∈ atom.takeWhile isBlank, isNamePart c = false ∧ c ≠ '.' := fun c hc =>
    isNamePart_or_other_of_isTrailing (isTrailing_of_isBlank (hblanks c hc))
  have hfirst := List.head?_dropWhile_not isBlank atom
  rw [← List.takeWhile_append_dropWhile (p := isBlank) (l := atom),
    substituteFrom_append_of_other replacement hidentifier hname hskip]
  cases hdrop : atom.dropWhile isBlank with
  | nil =>
    rw [substituteFrom_nil hidentifier, core_append_blanks hblanks]
    have hnil : core ([] : List Char) ≠ name := fun h => hne h.symm
    simp [hnil]
  | cons c rest =>
    have hblank : isBlank c = false := by
      rw [hdrop] at hfirst
      simpa using hfirst
    by_cases hc : isNamePart c = true
    · obtain ⟨run, rest, hsplit, hrunne, hrun, hstops, hsub⟩ :=
        exists_run replacement hidentifier hname rest hc
      have hrunstays : ∀ d ∈ run, isTrailing d = false := fun d hd =>
        not_isTrailing_of_isNamePart (hrun d hd)
      rw [hsub, hsplit, core_eq_iff hblanks hrunne hrunstays hstops hnamePart]
      by_cases hsame : run = identifier
      · rw [if_pos hsame, core_eq_iff hblanks hreplacement.1 (fun d hd => (hreplacement.2 d hd).2)
          (stopsName_substituteFrom hidentifier hname hstops) hnamePart]
        constructor
        · exact fun h => absurd h.1 hother
        · rintro ⟨⟨hrunname, -⟩, hnotidentifier⟩
          exact absurd (hrunname.symm.trans hsame) hnotidentifier
      · rw [if_neg hsame, core_eq_iff hblanks hrunne hrunstays
          (stopsName_substituteFrom hidentifier hname hstops) hnamePart,
          isTrailing_substituteFrom_iff hidentifier hname hreplacement]
        constructor
        · rintro ⟨rfl, hall⟩
          exact ⟨⟨rfl, hall⟩, hsame⟩
        · exact fun h => h.1
    · have hc' : isNamePart c = false := by simpa using hc
      rw [substituteFrom_other hidentifier hname _ hc']
      have hleft := core_ne_of_other (substituteFrom identifier replacement (some c) true 0 rest)
        hblanks hblank hc' hne hnamePart
      have hright := core_ne_of_other rest hblanks hblank hc' hne hnamePart
      simp [hleft, hright]

theorem not_isNamePart_of_isTypeSeparator {c : Char} (h : isTypeSeparator c = true) :
    isNamePart c = false ∧ c ≠ '.' := by
  simp only [isTypeSeparator, Bool.or_eq_true, beq_iff_eq] at h
  rcases h with (rfl | rfl) | rfl <;> exact ⟨by decide, by decide⟩

include hidentifier hname in
theorem atoms_substituteFrom (hreplacement : IsOpaque replacement) (text : List Char) :
    atoms (substituteFrom identifier replacement none true 0 text) =
      (atoms text).map (substituteFrom identifier replacement none true 0) := by
  refine atoms_of_split ?_ ?_ text
  · intro text hfree c hc
    rcases mem_substituteFrom hc with hc | hc
    · exact hfree c hc
    · exact (hreplacement.2 c hc).1
  · intro c hc first rest
    obtain ⟨hpart, hdot⟩ := not_isNamePart_of_isTypeSeparator hc
    exact substituteFrom_append_cons hidentifier hname hpart hdot (by simp) first rest

end Substitute

theorem isNamePart_of_isSimple {name : String} (h : isSimple name = true) :
    name.toList ≠ [] ∧ ∀ c ∈ name.toList, isNamePart c = true := by
  unfold isSimple at h
  cases hname : name.toList with
  | nil => simp [hname] at h
  | cons c rest =>
    rw [hname] at h
    simp only [Bool.and_eq_true, List.all_eq_true] at h
    refine ⟨by simp, fun d hd => ?_⟩
    rcases List.mem_cons.mp hd with rfl | hd
    · exact isNamePart_of_isNameStart h.1
    · exact h.2 d hd

/-- Putting a text in the place of a type variable takes away the mentions of the variable and
nothing else, and gives no other variable a mention. -/
theorem mentions_substitute_iff {identifier replacement name : String}
    (hidentifier : isSimple identifier = true) (hreplacement : IsOpaque replacement.toList)
    (hname : isSimple name = true) (hother : replacement ≠ name) (text : String) :
    Mentions (substitute identifier replacement text) name ↔
      Mentions text name ∧ name ≠ identifier := by
  obtain ⟨hidne, hidpart⟩ := isNamePart_of_isSimple hidentifier
  obtain ⟨hne, hpart⟩ := isNamePart_of_isSimple hname
  have hother' : replacement.toList ≠ name.toList := fun h => hother (String.toList_inj.mp h)
  have hiff := core_substituteFrom_iff hidne hidpart hreplacement hne hpart hother'
  simp only [Mentions, mentioned, substitute, Text.toList_onString, List.mem_map]
  rw [atoms_substituteFrom hidne hidpart hreplacement]
  constructor
  · rintro ⟨atom, hatom, hcore⟩
    obtain ⟨before, hbefore, rfl⟩ := List.mem_map.mp hatom
    obtain ⟨hcore, hne'⟩ := (hiff before).mp hcore
    exact ⟨⟨before, hbefore, hcore⟩, fun h => hne' (by rw [h])⟩
  · rintro ⟨⟨atom, hatom, hcore⟩, hne'⟩
    exact ⟨_, List.mem_map_of_mem hatom,
      (hiff atom).mpr ⟨hcore, fun h => hne' (String.toList_inj.mp h)⟩⟩

/-! ## Mentions and the implicit package -/

/-- A text without the package that needs no import. -/
def withoutPackage (text : List Char) : List Char := Text.replace implicitPackage.toList [] text

/-- A longer name in the rendered type becomes the name when the implicit package is left out. -/
def Uncovers (text name : String) : Prop :=
  ∃ atom ∈ atoms text.toList, withoutPackage atom ≠ atom ∧ core (withoutPackage atom) = name.toList

instance (text name : String) : Decidable (Uncovers text name) :=
  inferInstanceAs (Decidable (∃ atom ∈ _, _))

theorem atoms_withoutPackage (text : List Char) :
    atoms (withoutPackage text) = (atoms text).map withoutPackage := by
  refine atoms_of_split (fun text hfree c hc => hfree c (mem_of_mem_replace hc)) ?_ text
  intro c hc first rest
  refine replace_append_cons (by decide) ?_ first rest
  simp only [isTypeSeparator, Bool.or_eq_true, beq_iff_eq] at hc
  rcases hc with (rfl | rfl) | rfl <;> decide

/-- What a whole text has around its core are blanks and brackets. -/
theorem isTrailing_or_mem_core {atom : List Char} {c : Char} (h : c ∈ atom) :
    isTrailing c = true ∨ c ∈ core atom := by
  rw [← List.takeWhile_append_dropWhile (p := isBlank) (l := atom)] at h
  rcases List.mem_append.mp h with h | h
  · exact Or.inl (isTrailing_of_isBlank (List.mem_takeWhile_imp h))
  · exact mem_trimEnd_or h

/-- A whole text that is an identifier has no package. -/
theorem withoutPackage_of_core {name atom : List Char} (hpart : ∀ c ∈ name, isNamePart c = true)
    (h : core atom = name) : withoutPackage atom = atom := by
  refine replace_eq_self (c := '.') (by decide) fun hdot => ?_
  rcases isTrailing_or_mem_core hdot with htrailing | hmem
  · exact absurd htrailing (by decide)
  · rw [h] at hmem
    exact absurd (hpart _ hmem) (by decide)

theorem mentions_dropImplicitPackage_iff {name : String} (hname : isSimple name = true)
    (text : String) :
    Mentions (dropImplicitPackage text) name ↔ Mentions text name ∨ Uncovers text name := by
  obtain ⟨hne, hpart⟩ := isNamePart_of_isSimple hname
  have hlist : (dropImplicitPackage text).toList = withoutPackage text.toList :=
    Text.toList_onString _ text
  simp only [Mentions, mentioned, hlist, atoms_withoutPackage, List.map_map, List.mem_map,
    Function.comp_apply]
  constructor
  · rintro ⟨atom, hatom, hcore⟩
    by_cases hsame : withoutPackage atom = atom
    · exact Or.inl ⟨atom, hatom, by rw [← hcore, hsame]⟩
    · exact Or.inr ⟨atom, hatom, hsame, hcore⟩
  · rintro (⟨atom, hatom, hcore⟩ | ⟨atom, hatom, -, hcore⟩)
    · exact ⟨atom, hatom, by rw [withoutPackage_of_core hpart hcore, hcore]⟩
    · exact ⟨atom, hatom, hcore⟩

/-! ## Mentions in types with arguments -/

theorem mentioned_append_end (first rest : List Char) {c : Char} (hopen : c ≠ '<')
    (hc : isTypeSeparator c = true) :
    mentioned (first ++ c :: rest) = mentioned first ++ mentioned rest := by
  rw [mentioned, atoms, atomsFrom_append_end _ _ _ hopen hc, List.map_append]
  rfl

theorem mentioned_append_open (first rest : List Char) :
    mentioned (first ++ '<' :: rest) = (mentioned first).dropLast ++ mentioned rest := by
  rw [mentioned, atoms, atomsFrom_append_open, List.map_append, List.map_dropLast]
  rfl

/-- Blanks in front of a part that has been read do not matter. -/
theorem map_core_atomsFrom {blanks : List Char} (h : ∀ c ∈ blanks, isBlank c = true)
    (piece text : List Char) :
    (atomsFrom (blanks ++ piece) text).map core = (atomsFrom piece text).map core := by
  induction text generalizing piece with
  | nil => simp [atomsFrom, core_append_blanks h]
  | cons c text ih =>
    simp only [atomsFrom]
    split
    · rfl
    · split
      · simp [core_append_blanks h]
      · rw [List.append_assoc]
        exact ih _

theorem mentioned_cons_space (text : List Char) : mentioned (' ' :: text) = mentioned text := by
  have hall : ∀ c ∈ [' '], isBlank c = true := by
    intro c hc
    obtain rfl := List.mem_singleton.mp hc
    decide
  have hblanks := map_core_atomsFrom hall [] text
  have hspace : isTypeSeparator ' ' = false := by decide
  simpa [mentioned, atoms, atomsFrom, hspace] using hblanks

theorem mentioned_append_brackets (text : List Char) {tail : List Char}
    (hfree : SeparatorFree tail) (htail : ∀ c ∈ tail, isTrailing c = true) :
    mentioned (text ++ tail) = mentioned text := by
  have hfrom : ∀ piece, (atomsFrom piece (text ++ tail)).map core =
      (atomsFrom piece text).map core := by
    induction text with
    | nil =>
      intro piece
      rw [List.nil_append, atomsFrom_of_separatorFree _ hfree]
      simp [atomsFrom, core_append_brackets piece htail]
    | cons c text ih =>
      intro piece
      simp only [List.cons_append, atomsFrom]
      split
      · exact ih _
      · split
        · simp [ih]
        · exact ih _
  exact hfrom []

theorem mentions_append_brackets (text name : String) (dimensions : Nat) :
    Mentions (text ++ TypeRef.brackets dimensions) name ↔ Mentions text name := by
  have hall : ∀ c ∈ (TypeRef.brackets dimensions).toList, c = '[' ∨ c = ']' := by
    induction dimensions with
    | zero => simp [TypeRef.brackets]
    | succ dimensions ih => simpa [TypeRef.brackets] using ih
  have hsame : mentioned (text ++ TypeRef.brackets dimensions).toList = mentioned text.toList := by
    rw [String.toList_append]
    refine mentioned_append_brackets _ (fun c hc => ?_) (fun c hc => ?_)
    · rcases hall c hc with rfl | rfl <;> decide
    · rcases hall c hc with rfl | rfl <;> decide
  rw [Mentions, Mentions, hsame]

/-- Arguments are mentioned one by one. -/
theorem mentioned_intercalate {arguments : List String} (hne : arguments ≠ []) :
    mentioned (", ".intercalate arguments).toList =
      arguments.flatMap fun argument => mentioned argument.toList := by
  induction arguments with
  | nil => exact absurd rfl hne
  | cons argument rest ih =>
    cases rest with
    | nil => simp
    | cons next rest =>
      have hlist : (", ".intercalate (argument :: next :: rest)).toList =
          argument.toList ++ ',' :: ' ' :: (", ".intercalate (next :: rest)).toList := by
        simp
      rw [hlist, mentioned_append_end _ _ (by decide) (by decide), mentioned_cons_space,
        ih (by simp)]
      rfl

theorem mentions_applied_iff (base : String) {arguments : List String} (hne : arguments ≠ [])
    {name : String} (hname : name ≠ "") :
    Mentions (TypeRef.applied base arguments) name ↔
      MentionsInFront base name ∨ ∃ argument ∈ arguments, Mentions argument name := by
  have hlist : (TypeRef.applied base arguments).toList =
      base.toList ++ '<' :: ((", ".intercalate arguments).toList ++ '>' :: []) := by
    simp [TypeRef.applied]
  have hnil : name.toList ∉ mentioned [] := by
    have hmentioned : mentioned [] = [[]] := rfl
    rw [hmentioned, List.mem_singleton]
    exact fun h => hname (String.toList_eq_nil_iff.mp h)
  rw [Mentions, hlist, mentioned_append_open, mentioned_append_end _ _ (by decide) (by decide),
    mentioned_intercalate hne, List.mem_append, List.mem_append, List.mem_flatMap]
  constructor
  · rintro (hfront | hargument | hempty)
    · exact Or.inl hfront
    · exact Or.inr hargument
    · exact absurd hempty hnil
  · rintro (hfront | hargument)
    · exact Or.inl hfront
    · exact Or.inr (Or.inl hargument)

/-- A text that can stand in the place of a type variable mentions itself and nothing else. -/
theorem mentions_iff_of_isOpaque {text name : String} (h : IsOpaque text.toList) :
    Mentions text name ↔ text = name := by
  obtain ⟨hne, hsolid⟩ := h
  have hcore : core text.toList = text.toList := by
    have hstays := trimEnd_append_of_stays (p := isTrailing) (fun c hc => (hsolid c hc).2) []
    have hblank : text.toList.dropWhile isBlank = text.toList := by
      cases hlist : text.toList with
      | nil => rfl
      | cons c rest =>
        have hc : isTrailing c = false := (hsolid c (by simp [hlist])).2
        have hc' : isBlank c = false := by
          simp only [isTrailing, Bool.or_eq_false_iff] at hc
          exact hc.1.1
        simp [hc']
    rw [core, hblank]
    simpa [Text.trimEnd_eq_rdropWhile] using hstays
  have hmentioned : mentioned text.toList = [text.toList] := by
    rw [mentioned, atoms, atomsFrom_of_separatorFree _ fun c hc => (hsolid c hc).1]
    simp [hcore]
  rw [Mentions, hmentioned, List.mem_singleton, String.toList_inj, eq_comm]

theorem isOpaque_of_isSimple {name : String} (h : isSimple name = true) :
    IsOpaque name.toList := by
  obtain ⟨hne, hpart⟩ := isNamePart_of_isSimple h
  refine ⟨hne, fun c hc => ⟨?_, not_isTrailing_of_isNamePart (hpart c hc)⟩⟩
  rw [Bool.eq_false_iff]
  intro hseparator
  have hfalse := (not_isNamePart_of_isTypeSeparator hseparator).1
  rw [hpart c hc] at hfalse
  exact absurd hfalse (by simp)

end JavaSignatures.Name
