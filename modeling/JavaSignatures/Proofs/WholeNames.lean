import JavaSignatures.Proofs.Substitution

set_option autoImplicit false

/-!
# Whole identifiers of a text

A text is read as runs of characters of names and the characters between them.  A run that no period
stands in front of is a whole identifier of the text (`wholeNames`), and a function on names acts on
a text by acting on each of these (`mapWhole`).  Substitution is of this kind
(`substitute_eq_mapWhole`), and so is any number of substitutions one after the other, for what is
put in the place of an identifier is never read together with what stands around it
(`mapWhole_mapWhole`).
-/

namespace JavaSignatures.Name

open JavaSignatures.Character

/-- The text is one run of characters of names. -/
def IsRun (text : String) : Prop := text.toList ≠ [] ∧ ∀ c ∈ text.toList, isNamePart c = true

instance (text : String) : Decidable (IsRun text) :=
  have : Decidable (∀ c ∈ text.toList, isNamePart c = true) := List.decidableBAll _ text.toList
  inferInstanceAs (Decidable (_ ∧ _))

theorem stopsName_cons {c : Char} (hc : isNamePart c = false) (rest : List Char) :
    StopsName (c :: rest) := by
  intro d hd
  rw [List.head?_cons, Option.mem_some_iff] at hd
  exact hd ▸ hc

theorem forall_isNamePart_concat {run : List Char} (hrun : ∀ c ∈ run, isNamePart c = true)
    {c : Char} (hc : isNamePart c = true) : ∀ d ∈ run ++ [c], isNamePart d = true :=
  List.forall_mem_append.mpr ⟨hrun, by simpa using hc⟩

/-! ## What a function on names does to a text -/

/-- The run is no whole identifier: it is empty, or a period stands in front of it. -/
def isPassed (before : Option Char) (run : List Char) : Bool := run.isEmpty || before == some '.'

/-- What a run becomes. -/
def mapRun (f : String → String) (before : Option Char) (run : List Char) : List Char :=
  if isPassed before run then run else (f (String.ofList run)).toList

/-- Applies `f` to each whole identifier of a text, behind a run that has been read and the
character in front of it. -/
def mapWholeFrom (f : String → String) (before : Option Char) (run : List Char) :
    List Char → List Char
  | [] => mapRun f before run
  | c :: rest =>
    if isNamePart c then mapWholeFrom f before (run ++ [c]) rest
    else mapRun f before run ++ c :: mapWholeFrom f (some c) [] rest

/-- Applies `f` to each whole identifier of the text. -/
def mapWhole (f : String → String) (text : String) : String :=
  Text.onString (mapWholeFrom f none []) text

/-- The run, if it is a whole identifier. -/
def keptRun (before : Option Char) (run : List Char) : List String :=
  if isPassed before run then [] else [String.ofList run]

/-- The whole identifiers of a text, behind a run that has been read and the character in front of
it. -/
def wholeNamesFrom (before : Option Char) (run : List Char) : List Char → List String
  | [] => keptRun before run
  | c :: rest =>
    if isNamePart c then wholeNamesFrom before (run ++ [c]) rest
    else keptRun before run ++ wholeNamesFrom (some c) [] rest

/-- The whole identifiers of the text. -/
def wholeNames (text : String) : List String := wholeNamesFrom none [] text.toList

section

variable {f g : String → String}

theorem toList_mapWhole (text : String) :
    (mapWhole f text).toList = mapWholeFrom f none [] text.toList :=
  Text.toList_onString _ text

theorem mapRun_nil (before : Option Char) : mapRun f before [] = [] := rfl

theorem mapRun_id (before : Option Char) (run : List Char) : mapRun id before run = run := by
  unfold mapRun
  split
  · rfl
  · exact String.toList_ofList

theorem mapRun_congr {before : Option Char} {run : List Char}
    (h : ∀ name ∈ keptRun before run, f name = g name) :
    mapRun f before run = mapRun g before run := by
  unfold keptRun at h
  unfold mapRun
  split
  · rfl
  · next hpassed => rw [h _ (by simp [hpassed])]

theorem mapWholeFrom_id (before : Option Char) (run text : List Char) :
    mapWholeFrom id before run text = run ++ text := by
  induction text generalizing before run with
  | nil => simp [mapWholeFrom, mapRun_id]
  | cons c rest ih =>
    rw [mapWholeFrom]
    split
    · rw [ih]
      simp
    · rw [mapRun_id, ih]
      rfl

/-- Only what becomes of the whole identifiers matters. -/
theorem mapWholeFrom_congr {before : Option Char} {run text : List Char}
    (h : ∀ name ∈ wholeNamesFrom before run text, f name = g name) :
    mapWholeFrom f before run text = mapWholeFrom g before run text := by
  induction text generalizing before run with
  | nil => exact mapRun_congr h
  | cons c rest ih =>
    rw [wholeNamesFrom] at h
    rw [mapWholeFrom, mapWholeFrom]
    split
    · next hc => exact ih (by simpa [hc] using h)
    · next hc =>
      rw [if_neg hc, List.forall_mem_append] at h
      rw [ih h.2, mapRun_congr h.1]

theorem mapWhole_congr {text : String} (h : ∀ name ∈ wholeNames text, f name = g name) :
    mapWhole f text = mapWhole g text :=
  congrArg String.ofList (mapWholeFrom_congr h)

/-- A text stays if its whole identifiers do. -/
theorem mapWhole_eq_self {text : String} (h : ∀ name ∈ wholeNames text, f name = name) :
    mapWhole f text = text := by
  have hid : mapWhole f text = mapWhole id text := mapWhole_congr h
  rw [hid, mapWhole, Text.onString, mapWholeFrom_id, List.nil_append, String.ofList_toList]

/-! ## Whole identifiers are runs -/

theorem isRun_of_mem_keptRun {before : Option Char} {run : List Char}
    (hrun : ∀ c ∈ run, isNamePart c = true) {name : String} (h : name ∈ keptRun before run) :
    IsRun name := by
  unfold keptRun at h
  split at h
  · exact absurd h (List.not_mem_nil)
  · next hpassed =>
    obtain rfl := List.mem_singleton.mp h
    rw [isPassed, Bool.or_eq_true, not_or, List.isEmpty_iff] at hpassed
    rw [IsRun, String.toList_ofList]
    exact ⟨hpassed.1, hrun⟩

theorem isRun_of_mem_wholeNamesFrom {before : Option Char} {run text : List Char}
    (hrun : ∀ c ∈ run, isNamePart c = true) {name : String}
    (h : name ∈ wholeNamesFrom before run text) : IsRun name := by
  induction text generalizing before run with
  | nil => exact isRun_of_mem_keptRun hrun h
  | cons c rest ih =>
    rw [wholeNamesFrom] at h
    split at h
    · next hc => exact ih (forall_isNamePart_concat hrun hc) h
    · rcases List.mem_append.mp h with h | h
      · exact isRun_of_mem_keptRun hrun h
      · exact ih (by simp) h

theorem isRun_of_mem_wholeNames {text name : String} (h : name ∈ wholeNames text) : IsRun name :=
  isRun_of_mem_wholeNamesFrom (by simp) h

theorem wholeNamesFrom_run {before : Option Char} {run text : List Char}
    (htext : ∀ c ∈ text, isNamePart c = true) :
    wholeNamesFrom before run text = keptRun before (run ++ text) := by
  induction text generalizing run with
  | nil => rw [wholeNamesFrom, List.append_nil]
  | cons c rest ih =>
    rw [wholeNamesFrom, if_pos (htext c (by simp)),
      ih fun d hd => htext d (List.mem_cons_of_mem _ hd)]
    simp

/-- A run has itself as its only whole identifier. -/
theorem wholeNames_of_isRun {name : String} (h : IsRun name) : wholeNames name = [name] := by
  have hpassed : isPassed none name.toList = false := by
    simpa [isPassed] using h.1
  rw [wholeNames, wholeNamesFrom_run h.2, List.nil_append, keptRun, hpassed]
  simp

/-! ## Composed texts -/

/-- A text is read apart from what follows it, if that begins with no character of a name. -/
theorem mapWholeFrom_append {rest : List Char} (hrest : StopsName rest) (before : Option Char)
    (run text : List Char) :
    mapWholeFrom f before run (text ++ rest) =
      mapWholeFrom f before run text ++ mapWholeFrom f none [] rest := by
  induction text generalizing before run with
  | nil =>
    cases rest with
    | nil => simp [mapWholeFrom, mapRun_nil]
    | cons c rest =>
      have hc : isNamePart c = false := hrest c (by simp)
      simp [mapWholeFrom, hc, mapRun_nil]
  | cons c text ih =>
    rw [List.cons_append, mapWholeFrom, mapWholeFrom]
    split
    · exact ih _ _
    · rw [ih, List.append_assoc, List.cons_append]

/-- What stands in front of a text matters only if it is a period. -/
theorem mapWholeFrom_before {before other : Option Char} (hbefore : before ≠ some '.')
    (hother : other ≠ some '.') (run text : List Char) :
    mapWholeFrom f before run text = mapWholeFrom f other run text := by
  have hsame : ∀ run, mapRun f before run = mapRun f other run := by
    intro run
    unfold mapRun isPassed
    simp [hbefore, hother]
  induction text generalizing run with
  | nil => exact hsame run
  | cons c rest ih =>
    rw [mapWholeFrom, mapWholeFrom, hsame, ih]

/-- Both sides of a character that belongs to no name and is no period are read apart. -/
theorem mapWholeFrom_append_cons {c : Char} (hc : isNamePart c = false) (hdot : c ≠ '.')
    (text rest : List Char) :
    mapWholeFrom f none [] (text ++ c :: rest) =
      mapWholeFrom f none [] text ++ c :: mapWholeFrom f none [] rest := by
  have hbehind : mapWholeFrom f (some c) [] rest = mapWholeFrom f none [] rest :=
    mapWholeFrom_before (by simpa using hdot) (by simp) [] rest
  rw [mapWholeFrom_append (stopsName_cons hc rest), ← hbehind]
  congr 1
  rw [mapWholeFrom, if_neg (by simp [hc]), mapRun_nil, List.nil_append]

theorem mapWholeFrom_append_marks {marks : List Char} (hne : marks ≠ [])
    (hmarks : ∀ c ∈ marks, isNamePart c = false ∧ c ≠ '.') (text rest : List Char) :
    mapWholeFrom f none [] (text ++ (marks ++ rest)) =
      mapWholeFrom f none [] text ++ (marks ++ mapWholeFrom f none [] rest) := by
  induction marks generalizing text with
  | nil => exact absurd rfl hne
  | cons c marks ih =>
    obtain ⟨⟨hc, hdot⟩, hmore⟩ := List.forall_mem_cons.mp hmarks
    rw [List.cons_append, mapWholeFrom_append_cons hc hdot]
    cases marks with
    | nil => rfl
    | cons d marks =>
      have hbehind := ih (by simp) hmore []
      rw [List.nil_append] at hbehind
      rw [hbehind]
      rfl

/-- The texts around a mark that has no character of a name and no period are read apart. -/
theorem mapWhole_append_mark {mark : String} (hne : mark.toList ≠ [])
    (hmark : ∀ c ∈ mark.toList, isNamePart c = false ∧ c ≠ '.') (text rest : String) :
    mapWhole f (text ++ mark ++ rest) = mapWhole f text ++ mark ++ mapWhole f rest := by
  refine String.toList_inj.mp ?_
  simp only [toList_mapWhole, String.toList_append, List.append_assoc]
  exact mapWholeFrom_append_marks hne hmark text.toList rest.toList

/-- A run is read as a whole. -/
theorem mapWholeFrom_run {before : Option Char} {run text : List Char}
    (htext : ∀ c ∈ text, isNamePart c = true) :
    mapWholeFrom f before run text = mapRun f before (run ++ text) := by
  induction text generalizing run with
  | nil => rw [mapWholeFrom, List.append_nil]
  | cons c rest ih =>
    rw [mapWholeFrom, if_pos (htext c (by simp)),
      ih fun d hd => htext d (List.mem_cons_of_mem _ hd)]
    simp

theorem mapWhole_of_isRun {name : String} (h : IsRun name) : mapWhole f name = f name := by
  have hpassed : isPassed none name.toList = false := by
    simpa [isPassed] using h.1
  rw [mapWhole, Text.onString, mapWholeFrom_run h.2, List.nil_append, mapRun, hpassed]
  simp

/-- What one function makes of a run is read by the next one as a text of its own. -/
theorem mapWholeFrom_mapRun {before : Option Char} {run : List Char}
    (hrun : ∀ c ∈ run, isNamePart c = true) :
    mapWholeFrom g before [] (mapRun f before run) =
      mapRun (fun name => mapWhole g (f name)) before run := by
  unfold mapRun
  split
  · next hpassed => rw [mapWholeFrom_run hrun, List.nil_append, mapRun, if_pos hpassed]
  · next hpassed =>
    have hbefore : before ≠ some '.' := by
      rintro rfl
      simp [isPassed] at hpassed
    have hnone : none ≠ some '.' := by simp
    rw [mapWholeFrom_before hbefore hnone, toList_mapWhole]

theorem mapWholeFrom_mapWholeFrom (before : Option Char) {run : List Char}
    (hrun : ∀ c ∈ run, isNamePart c = true) (text : List Char) :
    mapWholeFrom g before [] (mapWholeFrom f before run text) =
      mapWholeFrom (fun name => mapWhole g (f name)) before run text := by
  induction text generalizing before run with
  | nil => exact mapWholeFrom_mapRun hrun
  | cons c rest ih =>
    rw [mapWholeFrom, mapWholeFrom]
    split
    · next hc => exact ih before (forall_isNamePart_concat hrun hc)
    · next hc =>
      rw [mapWholeFrom_append (stopsName_cons (by simpa using hc) _), mapWholeFrom_mapRun hrun,
        mapWholeFrom, if_neg hc, mapRun_nil, List.nil_append, ih (some c) (by simp)]

theorem mapWhole_mapWhole (text : String) :
    mapWhole g (mapWhole f text) = mapWhole (fun name => mapWhole g (f name)) text := by
  refine String.toList_inj.mp ?_
  rw [toList_mapWhole, toList_mapWhole, toList_mapWhole]
  exact mapWholeFrom_mapWholeFrom none (by simp) _

end

/-! ## Substitution -/

section Substitute

variable {identifier : String} (h : IsRun identifier) (replacement : String)

/-- Puts the replacement in the place of the identifier alone. -/
def replaceName (identifier replacement name : String) : String :=
  if name = identifier then replacement else name

include h in
/-- A run, which may be empty, is replaced if it is the identifier and no period stands in front of
it. -/
theorem substituteFrom_append_run {before : Option Char}
    (hbefore : ∀ b ∈ before, isNamePart b = false) {run rest : List Char}
    (hrun : ∀ c ∈ run, isNamePart c = true) (hrest : StopsName rest) :
    substituteFrom identifier.toList replacement.toList before true 0 (run ++ rest) =
      mapRun (replaceName identifier replacement) before run ++
        substituteFrom identifier.toList replacement.toList none true 0 rest := by
  by_cases hempty : run = []
  · subst hempty
    rw [List.nil_append, mapRun_nil, List.nil_append]
    exact substituteFrom_before h.1 h.2 hrest _ _
  · have hname : String.ofList run = identifier ↔ run = identifier.toList := by
      rw [← String.toList_inj, String.toList_ofList]
    rw [substituteFrom_run h.1 h.2 hbefore hempty hrun hrest]
    congr 1
    unfold mapRun isPassed replaceName
    by_cases hdot : before = some '.'
    · simp [hdot]
    · by_cases hsame : run = identifier.toList
      · simp [hdot, hsame, h.1]
      · simp [hempty, hdot, hsame, hname]

include h in
theorem substituteFrom_eq_mapWholeFrom {before : Option Char}
    (hbefore : ∀ b ∈ before, isNamePart b = false) {run : List Char}
    (hrun : ∀ c ∈ run, isNamePart c = true) (text : List Char) :
    substituteFrom identifier.toList replacement.toList before true 0 (run ++ text) =
      mapWholeFrom (replaceName identifier replacement) before run text := by
  induction text generalizing before run with
  | nil =>
    have hnil : StopsName [] := by simp [StopsName]
    rw [substituteFrom_append_run h replacement hbefore hrun hnil, substituteFrom_nil h.1,
      List.append_nil, mapWholeFrom]
  | cons c rest ih =>
    rw [mapWholeFrom]
    split
    · next hc =>
      rw [List.append_cons]
      exact ih hbefore (forall_isNamePart_concat hrun hc)
    · next hc =>
      have hc' : isNamePart c = false := by simpa using hc
      have hrest : substituteFrom identifier.toList replacement.toList (some c) true 0 rest =
          mapWholeFrom (replaceName identifier replacement) (some c) [] rest :=
        @ih (some c) (by simpa using hc') [] (by simp)
      rw [substituteFrom_append_run h replacement hbefore hrun (stopsName_cons hc' rest),
        substituteFrom_other h.1 h.2 none hc', hrest]

include h in
/-- Substitution replaces the whole identifiers that are the given one. -/
theorem substitute_eq_mapWhole (text : String) :
    substitute identifier replacement text =
      mapWhole (replaceName identifier replacement) text := by
  have hlist : substituteFrom identifier.toList replacement.toList none true 0 text.toList =
      mapWholeFrom (replaceName identifier replacement) none [] text.toList :=
    @substituteFrom_eq_mapWholeFrom _ h replacement none (by simp) [] (by simp) text.toList
  exact congrArg String.ofList hlist

end Substitute

end JavaSignatures.Name
