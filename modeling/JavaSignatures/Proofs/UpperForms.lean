import JavaSignatures.Character.Case

set_option autoImplicit false

/-!
# Upper-case forms stay as they are

The upper-case form of a character may be several characters, but none of them has an upper-case
form other than itself, and none is a blank or one of the marks that comments are made of
(`upperForm_of_mem`).  The tables are compared run by run: the images of a shift end before a run,
begin behind it, or fall between its members (`Shift.avoids`).
-/

namespace JavaSignatures.Character

/-- The shift takes no character into the run. -/
def Shift.avoids (shift : Shift) (run : Run) : Bool :=
  run.last.blt (shift.apply shift.first) || (shift.apply shift.last).blt run.first ||
    (shift.step.beq 2 || shift.first.beq shift.last) && run.step.beq 2 &&
      Nat.blt 0 (shift.apply shift.first) && ((shift.apply shift.first + run.first) % 2).beq 1

theorem Run.contains_iff {run : Run} {code : Nat} :
    run.contains code = true ↔
      run.first ≤ code ∧ code ≤ run.last ∧ (code - run.first) % run.step = 0 := by
  simp [contains, and_assoc]

theorem Shift.not_contains_apply {shift : Shift} {run : Run} (h : shift.avoids run = true)
    {code : Nat} (hcode : shift.run.contains code = true) :
    run.contains (shift.apply code) = false := by
  simp only [avoids, Bool.or_eq_true, Bool.and_eq_true, Nat.blt_eq, Nat.beq_eq] at h
  rw [Run.contains_iff] at hcode
  obtain ⟨hfirst, hlast, hstep⟩ := hcode
  simp only [Shift.run] at hfirst hlast hstep
  have low : shift.apply shift.first ≤ shift.apply code := by simp only [apply]; omega
  have high : shift.apply code ≤ shift.apply shift.last := by simp only [apply]; omega
  rw [Bool.eq_false_iff]
  intro hin
  obtain ⟨hfirst', hlast', hstep'⟩ := Run.contains_iff.mp hin
  rcases h with (hbefore | hbehind) | ⟨⟨⟨hmove, hrun⟩, hpos⟩, hparity⟩
  · omega
  · omega
  · have even : (code - shift.first) % 2 = 0 := by
      rcases hmove with hmove | hmove
      · rwa [hmove] at hstep
      · omega
    rw [hrun] at hstep'
    simp only [apply] at hpos hparity hstep' hfirst'
    omega

/-- The shift that takes the letters of ASCII to upper case. -/
def asciiShift : Shift := ⟨'a'.toNat, 'z'.toNat, 1, -32⟩

/-- All shifts to upper case. -/
def upperShifts : List Shift := asciiShift :: CaseTable.toUpper

/-- The code points between two others. -/
def Run.between (range : Nat × Nat) : Run := ⟨range.1, range.2, 1⟩

/-- The characters that a shift or a longer form changes. -/
def changedToUpper : List Run :=
  upperShifts.map Shift.run ++ CaseTable.toUpperLong.map fun entry => .between (entry.1, entry.1)

/-- What no upper-case form of another character has in it: the characters before the letters of
ASCII, the blanks, and what has an upper-case form of its own. -/
def neverInForms : List Run :=
  .between (0, '@'.toNat) :: (Table.blanks.map Run.between ++ changedToUpper)

theorem upperShifts_avoid :
    (upperShifts.all fun shift => neverInForms.all fun run => shift.avoids run) = true := by
  decide +kernel

theorem toUpperLong_avoid :
    (CaseTable.toUpperLong.all fun entry => entry.2.all fun code => !inRuns neverInForms code)
      = true := by
  decide +kernel

variable {c d : Char}

theorem upperForm_ascii : ∀ code < 128,
    upperForm (Char.ofNat code) = [Char.ofNat code] ∨
      asciiShift.run.contains code = true ∧
        upperForm (Char.ofNat code) = [Char.ofNat (asciiShift.apply code)] := by
  decide +kernel

/-- The upper-case form of a character is the character itself, its image under a shift, or a longer
form. -/
theorem upperForm_cases (c : Char) :
    upperForm c = [c] ∨
      (∃ shift ∈ upperShifts, shift.run.contains c.toNat = true ∧
        upperForm c = [Char.ofNat (shift.apply c.toNat)]) ∨
      ∃ entry ∈ CaseTable.toUpperLong, entry.1 = c.toNat ∧
        upperForm c = entry.2.map Char.ofNat := by
  by_cases hascii : isAscii c = true
  · have hform := upperForm_ascii c.toNat (of_decide_eq_true hascii)
    rw [Char.ofNat_toNat] at hform
    exact hform.imp_right fun hshift => .inl ⟨asciiShift, List.mem_cons_self, hshift⟩
  · rw [upperForm, if_neg hascii, form]
    split
    next entry hentry =>
      have hkey := List.find?_some hentry
      exact .inr (.inr ⟨entry, List.mem_of_find?_eq_some hentry, eq_of_beq hkey, rfl⟩)
    next hnone =>
      split
      next code hcode =>
        obtain ⟨shift, hshift, rfl⟩ := Option.map_eq_some_iff.mp hcode
        have hrun := List.find?_some hshift
        have hmem : shift ∈ upperShifts :=
          List.mem_cons_of_mem _ (List.mem_of_find?_eq_some hshift)
        exact .inr (.inl ⟨shift, hmem, hrun, rfl⟩)
      next => exact .inl rfl

theorem Run.contains_between {range : Nat × Nat} {code : Nat} :
    (between range).contains code = (decide (range.1 ≤ code) && decide (code ≤ range.2)) := by
  rw [between, contains, Nat.mod_one, beq_self_eq_true, Bool.and_true]

theorem upperForm_eq_self (h : inRuns changedToUpper c.toNat = false) : upperForm c = [c] := by
  have hnot : ∀ run ∈ changedToUpper, run.contains c.toNat = false := by
    simpa only [inRuns, List.any_eq_false, Bool.not_eq_true] using h
  rcases upperForm_cases c with hself | ⟨shift, hshift, hrun, -⟩ | ⟨entry, hentry, hkey, -⟩
  · exact hself
  · rw [hnot _ (List.mem_append_left _ (List.mem_map_of_mem hshift))] at hrun
    contradiction
  · have hcontains := hnot _ (List.mem_append_right _ (List.mem_map_of_mem hentry))
    simp [Run.contains_between, hkey] at hcontains

theorem isBlank_eq_inRuns : isBlank c = inRuns (Table.blanks.map Run.between) c.toNat := by
  simp only [isBlank, inRanges, inRuns, List.any_map, Function.comp_def, Run.contains_between]

theorem toNat_ofNat (code : Nat) : (Char.ofNat code).toNat = code ∨ Char.ofNat code = '\x00' := by
  by_cases hvalid : code.isValidChar
  · left
    rw [Char.ofNat, dif_pos hvalid]
    rfl
  · right
    rw [Char.ofNat, dif_neg hvalid]
    rfl

theorem upperForm_ofNat {code : Nat} (h : inRuns neverInForms code = false) :
    upperForm (Char.ofNat code) = [Char.ofNat code] ∧ isBlank (Char.ofNat code) = false ∧
      Char.ofNat code ∉ ['<', '@', '*'] := by
  rcases toNat_ofNat code with hcode | hzero
  · rw [← hcode] at h
    simp only [neverInForms, inRuns, List.any_cons, List.any_append, Bool.or_eq_false_iff,
      Run.contains_between] at h
    obtain ⟨hmarks, hblank, hchanged⟩ := h
    refine ⟨upperForm_eq_self hchanged, isBlank_eq_inRuns.trans hblank, fun hmark => ?_⟩
    simp only [List.mem_cons, List.not_mem_nil, or_false] at hmark
    rcases hmark with hmark | hmark | hmark <;>
    · rw [hmark] at hmarks
      contradiction
  · rw [hzero]
    decide

/-- A character of an upper-case form that is not the character itself has no other upper-case form;
it is no blank and none of the marks of comments. -/
theorem upperForm_of_mem (h : upperForm c ≠ [c]) (hd : d ∈ upperForm c) :
    upperForm d = [d] ∧ isBlank d = false ∧ d ∉ ['<', '@', '*'] := by
  rcases upperForm_cases c with hself | ⟨shift, hshift, hrun, hform⟩ | ⟨entry, hentry, -, hform⟩
  · exact absurd hself h
  · rw [hform, List.mem_singleton] at hd
    subst hd
    have havoid := List.all_eq_true.mp upperShifts_avoid shift hshift
    exact upperForm_ofNat (List.any_eq_false.mpr fun run hmem => by
      simpa using Shift.not_contains_apply (List.all_eq_true.mp havoid run hmem) hrun)
  · rw [hform] at hd
    obtain ⟨code, hcode, rfl⟩ := List.mem_map.mp hd
    have havoid := List.all_eq_true.mp toUpperLong_avoid entry hentry
    exact upperForm_ofNat (by simpa using List.all_eq_true.mp havoid code hcode)

theorem upperForm_ne_nil (c : Char) : upperForm c ≠ [] := by
  have hlong : (CaseTable.toUpperLong.all fun entry => !entry.2.isEmpty) = true := by decide +kernel
  rcases upperForm_cases c with hself | ⟨shift, -, -, hform⟩ | ⟨entry, hentry, -, hform⟩
  · simp [hself]
  · simp [hform]
  · simpa [hform] using List.all_eq_true.mp hlong entry hentry

/-- No character is part of an upper-case form that is not the character itself. -/
theorem not_mem_upperForm (h : upperForm c ≠ [c]) : c ∉ upperForm c :=
  fun hc => h (upperForm_of_mem h hc).1

end JavaSignatures.Character
