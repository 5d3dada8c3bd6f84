import JavaSignatures.Character.Class

set_option autoImplicit false

/-!
# Character classes that share no character

Blanks are few, so a class without blanks is found by looking at each of them
(`eq_false_of_isBlank`).  The tables have no blanks and nothing of ASCII
(`not_inRanges_of_isBlank`, `not_inRanges_of_isAscii`): their ranges are compared once with those of
the blanks (`tables_apart`), and the classes on ASCII are decided by themselves.
-/

namespace JavaSignatures.Character

/-! ## Tables -/

/-- The ranges are behind ASCII, and blanks stand in front of or behind each of them. -/
def standsApart (ranges : List (Nat × Nat)) : Bool :=
  ranges.all fun range => Nat.blt 127 range.1 &&
    Table.blanks.all fun blanks => range.2.blt blanks.1 || blanks.2.blt range.1

/-- The tables of the characters of names and words. -/
def namingTables : List (List (Nat × Nat)) :=
  [Table.letters, Table.marks, Table.digits, Table.otherNumbers, Table.connectors,
    Table.otherStarts, Table.otherContinues]

theorem tables_apart : namingTables.all standsApart = true := by
  decide +kernel

theorem apart_of_mem {ranges : List (Nat × Nat)} {range : Nat × Nat} (h : ranges ∈ namingTables)
    (hrange : range ∈ ranges) :
    127 < range.1 ∧ ∀ blanks ∈ Table.blanks, range.2 < blanks.1 ∨ blanks.2 < range.1 := by
  have hapart := List.all_eq_true.mp (List.all_eq_true.mp tables_apart ranges h) range hrange
  simpa only [Bool.and_eq_true, Nat.blt_eq, List.all_eq_true, Bool.or_eq_true] using hapart

variable {c : Char}

theorem not_inRanges_of_isBlank (ranges : List (Nat × Nat)) (h : ranges ∈ namingTables)
    (hc : isBlank c = true) : inRanges ranges c.toNat = false := by
  obtain ⟨blanks, hblanks, hin⟩ := List.any_eq_true.mp hc
  refine List.any_eq_false.mpr fun range hrange => ?_
  have happart := (apart_of_mem h hrange).2 blanks hblanks
  simp only [Bool.and_eq_true, decide_eq_true_eq] at hin ⊢
  omega

theorem not_inRanges_of_isAscii (ranges : List (Nat × Nat)) (h : ranges ∈ namingTables)
    (hc : isAscii c = true) : inRanges ranges c.toNat = false := by
  rw [isAscii, decide_eq_true_eq] at hc
  refine List.any_eq_false.mpr fun range hrange => ?_
  have hfirst := (apart_of_mem h hrange).1
  simp only [Bool.and_eq_true, decide_eq_true_eq]
  omega

/-! ## Blanks -/

/-- The code points of closed ranges. -/
def codePoints (ranges : List (Nat × Nat)) : List Nat :=
  ranges.flatMap fun range => List.range' range.1 (range.2 + 1 - range.1)

theorem mem_codePoints_of_inRanges {ranges : List (Nat × Nat)} {code : Nat}
    (h : inRanges ranges code = true) : code ∈ codePoints ranges := by
  obtain ⟨range, hrange, hbounds⟩ := List.any_eq_true.mp h
  simp only [Bool.and_eq_true, decide_eq_true_eq] at hbounds
  refine List.mem_flatMap.mpr ⟨range, hrange, List.mem_range'_1.mpr ?_⟩
  omega

/-- A class that no code point of a blank is in has no blanks. -/
theorem eq_false_of_isBlank {p : Char → Bool}
    (h : (codePoints Table.blanks).all (fun code => !p (Char.ofNat code)) = true) {c : Char}
    (hc : isBlank c = true) : p c = false := by
  have hcode := List.all_eq_true.mp h c.toNat (mem_codePoints_of_inRanges hc)
  rw [Char.ofNat_toNat] at hcode
  simpa using hcode

section Blank

variable (h : isBlank c = true)
include h

theorem not_isAlpha_of_isBlank : c.isAlpha = false := eq_false_of_isBlank (by decide) h

theorem ne_of_isBlank : c ≠ '_' ∧ c ≠ '$' := by
  have hnot : isBlank '_' = false ∧ isBlank '$' = false := by decide
  constructor
  · rintro rfl
    exact absurd h (by simp [hnot.1])
  · rintro rfl
    exact absurd h (by simp [hnot.2])

theorem not_isAlphabetic_of_isBlank : isAlphabetic c = false := by
  have hletters := not_inRanges_of_isBlank Table.letters (by simp [namingTables]) h
  have hmarks := not_inRanges_of_isBlank Table.marks (by simp [namingTables]) h
  simp [isAlphabetic, not_isAlpha_of_isBlank h, hletters, hmarks]

theorem not_isDigit_of_isBlank : isDigit c = false := by
  have hascii : c.isDigit = false := eq_false_of_isBlank (by decide) h
  have hdigits := not_inRanges_of_isBlank Table.digits (by simp [namingTables]) h
  simp [isDigit, hascii, hdigits]

theorem not_isConnector_of_isBlank : isConnector c = false := by
  have hconnectors :=
    not_inRanges_of_isBlank Table.connectors (by simp [namingTables]) h
  simp [isConnector, hconnectors, ne_of_isBlank h]

theorem not_isNamePart_of_isBlank : isNamePart c = false := by
  have hnumbers := not_inRanges_of_isBlank Table.otherNumbers (by simp [namingTables]) h
  simp [isNamePart, isAlphanumeric, not_isAlphabetic_of_isBlank h, not_isDigit_of_isBlank h,
    hnumbers, ne_of_isBlank h]

theorem not_isWord_of_isBlank : isWord c = false := by
  have hmarks := not_inRanges_of_isBlank Table.marks (by simp [namingTables]) h
  have hjoiner : isJoiner c = false := eq_false_of_isBlank (by decide) h
  simp [isWord, not_isAlphabetic_of_isBlank h, hmarks, not_isDigit_of_isBlank h,
    not_isConnector_of_isBlank h, hjoiner]

theorem not_isIdentifierPart_of_isBlank : isIdentifierPart c = false := by
  have hmarks := not_inRanges_of_isBlank Table.marks (by simp [namingTables]) h
  have hstarts := not_inRanges_of_isBlank Table.otherStarts (by simp [namingTables]) h
  have hothers :=
    not_inRanges_of_isBlank Table.otherContinues (by simp [namingTables]) h
  have hcent : (c.toNat == 0xA2) = false :=
    eq_false_of_isBlank (p := fun c => c.toNat == 0xA2) (by decide) h
  simp [isIdentifierPart, isIdentifierStart, not_isAlpha_of_isBlank h,
    not_isAlphabetic_of_isBlank h, hstarts, not_isDigit_of_isBlank h, not_isConnector_of_isBlank h,
    hcent, hmarks, hothers, ne_of_isBlank h]

end Blank

/-! ## ASCII -/

/-- What is decided for each of the first 128 characters. -/
theorem of_isAscii {P : Char → Prop} (h : ∀ code < 128, P (Char.ofNat code))
    (hc : isAscii c = true) : P c := by
  have hcode := h c.toNat (of_decide_eq_true hc)
  rwa [Char.ofNat_toNat] at hcode

/-- In ASCII words are made of letters, digits and underscores. -/
theorem isWord_of_isAscii (h : isAscii c = true) : isWord c = (c.isAlphanum || c == '_') := by
  have hmarks := not_inRanges_of_isAscii Table.marks (by simp [namingTables]) h
  have hconnectors :=
    not_inRanges_of_isAscii Table.connectors (by simp [namingTables]) h
  have hjoiner : isJoiner c = false := by
    rw [isAscii, decide_eq_true_eq] at h
    simp only [isJoiner, Bool.or_eq_false_iff, beq_eq_false_iff_ne]
    omega
  simp [isWord, isAlphabetic, isDigit, isConnector, h, hmarks, hconnectors, hjoiner,
    Char.isAlphanum]

end JavaSignatures.Character
