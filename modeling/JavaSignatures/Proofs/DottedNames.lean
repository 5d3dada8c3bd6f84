import JavaSignatures.Proofs.Decoding
import JavaSignatures.Proofs.Substitution

set_option autoImplicit false

/-!
# Dotted names and the implicit package

A rendered type is read as dotted names, runs of characters of names and periods, and the characters
between them.  Taking out the implicit package acts on each dotted name by itself
(`withoutPackage_eq_mapDotted`).  It is meant for the package in front of a type, at the beginning
of a dotted name (`dropFromType`); a text comes out the same just if the implicit package stands
nowhere else in it (`dropImplicitPackage_eq_dropFromTypes_iff`).
-/

namespace JavaSignatures.Name

open JavaSignatures.Character

/-! ## Dotted names of a text -/

/-- The character can stand in a dotted name. -/
def isDottedPart (c : Char) : Bool := isNamePart c || c == '.'

/-- Applies `f` to each dotted name of a text, behind a part of one that has been read. -/
def mapDottedFrom (f : List Char → List Char) (run : List Char) : List Char → List Char
  | [] => f run
  | c :: rest =>
    if isDottedPart c then mapDottedFrom f (run ++ [c]) rest
    else f run ++ c :: mapDottedFrom f [] rest

/-- Applies `f` to each dotted name of the text. -/
def mapDotted (f : List Char → List Char) (text : List Char) : List Char := mapDottedFrom f [] text

/-- The dotted name that has been read, if there is one. -/
def keptDotted (run : List Char) : List (List Char) := if run.isEmpty then [] else [run]

/-- The dotted names of a text, behind a part of one that has been read. -/
def dottedNamesFrom (run : List Char) : List Char → List (List Char)
  | [] => keptDotted run
  | c :: rest =>
    if isDottedPart c then dottedNamesFrom (run ++ [c]) rest
    else keptDotted run ++ dottedNamesFrom [] rest

/-- The dotted names of the text. -/
def dottedNames (text : List Char) : List (List Char) := dottedNamesFrom [] text

/-- Both sides of a character between dotted names are read apart. -/
theorem dottedNamesFrom_append_cons {c : Char} (hc : isDottedPart c = false)
    (run text rest : List Char) :
    dottedNamesFrom run (text ++ c :: rest) = dottedNamesFrom run text ++ dottedNames rest := by
  induction text generalizing run with
  | nil => simp [dottedNamesFrom, dottedNames, hc]
  | cons d text ih =>
    rw [List.cons_append, dottedNamesFrom, dottedNamesFrom]
    split
    · exact ih _
    · rw [ih, List.append_assoc]

/-- So are both sides of a mark of such characters. -/
theorem dottedNames_append_mark {mark : List Char} (hne : mark ≠ [])
    (hmark : ∀ c ∈ mark, isDottedPart c = false) (text rest : List Char) :
    dottedNames (text ++ (mark ++ rest)) = dottedNames text ++ dottedNames rest := by
  induction mark generalizing text with
  | nil => exact absurd rfl hne
  | cons c mark ih =>
    obtain ⟨hc, hmore⟩ := List.forall_mem_cons.mp hmark
    rw [List.cons_append, dottedNames, dottedNamesFrom_append_cons hc]
    cases mark with
    | nil => rfl
    | cons d mark =>
      have hbehind := ih (by simp) hmore []
      rw [List.nil_append] at hbehind
      rw [hbehind]
      rfl

/-! ## Functions on dotted names -/

/-- The function makes dotted names of dotted names. -/
def KeepsDotted (f : List Char → List Char) : Prop :=
  ∀ run, (∀ c ∈ run, isDottedPart c = true) → ∀ c ∈ f run, isDottedPart c = true

section

variable {f g : List Char → List Char}

theorem forall_isDottedPart_concat {run : List Char} (hrun : ∀ c ∈ run, isDottedPart c = true)
    {c : Char} (hc : isDottedPart c = true) : ∀ d ∈ run ++ [c], isDottedPart d = true :=
  List.forall_mem_append.mpr ⟨hrun, by simpa using hc⟩

theorem not_mem_of_isDottedPart {run : List Char} (hrun : ∀ c ∈ run, isDottedPart c = true)
    {c : Char} (hc : isDottedPart c = false) : c ∉ run := by
  intro hmem
  rw [hrun c hmem] at hc
  exact absurd hc (by simp)

theorem forall_keptDotted_iff (hempty : f [] = g []) (run : List Char) :
    (∀ name ∈ keptDotted run, f name = g name) ↔ f run = g run := by
  cases run with
  | nil => simp [keptDotted, hempty]
  | cons c run => simp [keptDotted]

/-- The characters between dotted names tell the names apart, so what becomes of a text tells what
becomes of each of its dotted names. -/
theorem mapDottedFrom_eq_iff (hf : KeepsDotted f) (hg : KeepsDotted g) (hempty : f [] = g [])
    {run : List Char} (hrun : ∀ c ∈ run, isDottedPart c = true) (text : List Char) :
    mapDottedFrom f run text = mapDottedFrom g run text ↔
      ∀ name ∈ dottedNamesFrom run text, f name = g name := by
  induction text generalizing run with
  | nil => exact (forall_keptDotted_iff hempty run).symm
  | cons c rest ih =>
    rw [mapDottedFrom, mapDottedFrom, dottedNamesFrom]
    cases hc : isDottedPart c with
    | true => exact ih (forall_isDottedPart_concat hrun hc)
    | false =>
      have hnil := @ih [] (by simp)
      simp only [Bool.false_eq_true, if_false]
      rw [List.forall_mem_append, forall_keptDotted_iff hempty, ← hnil]
      constructor
      · intro hsame
        exact Text.eq_of_append_mark (not_mem_of_isDottedPart (hf run hrun) hc)
          (not_mem_of_isDottedPart (hg run hrun) hc) hsame
      · rintro ⟨hfirst, hrest⟩
        rw [hfirst, hrest]

theorem mapDotted_eq_iff (hf : KeepsDotted f) (hg : KeepsDotted g) (hempty : f [] = g [])
    (text : List Char) :
    mapDotted f text = mapDotted g text ↔ ∀ name ∈ dottedNames text, f name = g name :=
  mapDottedFrom_eq_iff hf hg hempty (by simp) text

end

/-! ## The implicit package -/

/-- A dotted name without the implicit package in front of a type. -/
def dropFromType (name : List Char) : List Char :=
  match Text.after? implicitPackage.toList name with
  | some rest => if rest.head?.any isUpper then rest else name
  | none => name

/-- The text with the implicit package left out where it begins a dotted name and a type follows,
and nowhere else. -/
def dropFromTypes (text : String) : String := Text.onString (mapDotted dropFromType) text

/-- The implicit package stands in the dotted name only at the beginning, in front of a type. -/
def HoldsPackageOfType (name : List Char) : Prop :=
  ∀ before after, name = before ++ implicitPackage.toList ++ after →
    before = [] ∧ after.head?.any isUpper = true

theorem implicitPackage_ne_nil : implicitPackage.toList ≠ [] := by decide

theorem keepsDotted_withoutPackage : KeepsDotted withoutPackage := by
  intro run hrun c hc
  exact hrun c (mem_of_mem_replace hc)

theorem keepsDotted_dropFromType : KeepsDotted dropFromType := by
  intro run hrun c hc
  unfold dropFromType at hc
  split at hc
  · next rest hrest =>
    obtain rfl := Text.after?_eq_some_iff.mp hrest
    split at hc
    · exact hrun c (List.mem_append_right _ hc)
    · exact hrun c hc
  · exact hrun c hc

/-- The implicit package is taken out of each dotted name by itself, for it is one. -/
theorem withoutPackage_eq_mapDottedFrom (run text : List Char) :
    withoutPackage (run ++ text) = mapDottedFrom withoutPackage run text := by
  induction text generalizing run with
  | nil => rw [List.append_nil, mapDottedFrom]
  | cons c rest ih =>
    rw [mapDottedFrom]
    cases hc : isDottedPart c with
    | true =>
      rw [List.append_cons]
      exact ih _
    | false =>
      have hdotted : ∀ d ∈ implicitPackage.toList, isDottedPart d = true := by decide
      simp only [Bool.false_eq_true, if_false]
      rw [withoutPackage, replace_append_cons implicitPackage_ne_nil
        (not_mem_of_isDottedPart hdotted hc), ← ih []]
      rfl

theorem withoutPackage_eq_mapDotted (text : List Char) :
    withoutPackage text = mapDotted withoutPackage text :=
  withoutPackage_eq_mapDottedFrom [] text

/-- Behind the implicit package at the beginning, the next one stands in the rest: no two of them
overlap. -/
theorem eq_nil_or_isInfix {before after rest : List Char}
    (h : before ++ implicitPackage.toList ++ after = implicitPackage.toList ++ rest) :
    before = [] ∧ after = rest ∨ implicitPackage.toList <:+: rest := by
  rw [List.append_assoc] at h
  rcases List.append_eq_append_iff.mp h with ⟨middle, hpackage, hrest⟩ | ⟨middle, hbefore, hrest⟩
  · cases before with
    | nil =>
      rw [List.nil_append] at h
      exact Or.inl ⟨rfl, List.append_cancel_left h⟩
    | cons c before =>
      -- a second occurrence would have to begin inside the first one
      have hfirst : 'j' ∉ implicitPackage.toList.tail := by decide
      cases middle with
      | nil => exact Or.inr ⟨[], after, by simpa using hrest⟩
      | cons d middle =>
        have hd : d = 'j' := (List.cons.inj hrest).1.symm
        rw [hpackage, hd] at hfirst
        exact absurd (by simp) hfirst
  · exact Or.inr ⟨middle, after, by rw [hrest, List.append_assoc]⟩

theorem dropFromType_append {rest : List Char} (h : rest.head?.any isUpper = true) :
    dropFromType (implicitPackage.toList ++ rest) = rest := by
  have hafter : Text.after? implicitPackage.toList (implicitPackage.toList ++ rest) = some rest :=
    Text.after?_eq_some_iff.mpr rfl
  rw [dropFromType, hafter]
  exact if_pos h

/-- What is left alone, or else is the package of a type. -/
theorem dropFromType_eq_self_or (name : List Char) :
    dropFromType name = name ∨ ∃ rest, name = implicitPackage.toList ++ rest ∧
      rest.head?.any isUpper = true ∧ dropFromType name = rest := by
  cases hafter : Text.after? implicitPackage.toList name with
  | none => exact Or.inl (by rw [dropFromType, hafter])
  | some rest =>
    obtain rfl := Text.after?_eq_some_iff.mp hafter
    by_cases htype : rest.head?.any isUpper = true
    · exact Or.inr ⟨rest, rfl, htype, dropFromType_append htype⟩
    · exact Or.inl (by rw [dropFromType, hafter]; exact if_neg htype)

/-- The package of a type is all that is taken out of a dotted name just if the implicit package
stands nowhere else in it. -/
theorem withoutPackage_eq_dropFromType_iff (name : List Char) :
    withoutPackage name = dropFromType name ↔ HoldsPackageOfType name := by
  constructor
  · rintro hsame before after rfl
    have hinside : implicitPackage.toList <:+: before ++ implicitPackage.toList ++ after :=
      ⟨before, after, rfl⟩
    rcases dropFromType_eq_self_or (before ++ implicitPackage.toList ++ after) with
      hself | ⟨rest, hrest, htype, hdrop⟩
    · rw [hself] at hsame
      exact absurd hinside ((replace_eq_self_iff implicitPackage_ne_nil).mp hsame)
    · have hclean : ¬implicitPackage.toList <:+: rest := by
        rw [← replace_eq_self_iff implicitPackage_ne_nil, ← replace_append implicitPackage_ne_nil,
          ← hrest, ← hdrop]
        rw [hdrop] at hsame ⊢
        exact hsame
      obtain ⟨hbefore, rfl⟩ := (eq_nil_or_isInfix hrest).resolve_right hclean
      exact ⟨hbefore, htype⟩
  · intro hholds
    by_cases hinside : implicitPackage.toList <:+: name
    · obtain ⟨before, after, rfl⟩ := hinside
      obtain ⟨rfl, htype⟩ := hholds before after rfl
      have hclean : ¬implicitPackage.toList <:+: after := by
        rintro ⟨first, last, rfl⟩
        have hsecond := hholds (implicitPackage.toList ++ first) last (by simp)
        exact implicitPackage_ne_nil (List.append_eq_nil_iff.mp hsecond.1).1
      rw [List.nil_append, dropFromType_append htype, withoutPackage,
        replace_append implicitPackage_ne_nil, replace_eq_self_iff implicitPackage_ne_nil]
      exact hclean
    · have hself := (dropFromType_eq_self_or name).resolve_right fun ⟨rest, hrest, _⟩ =>
        hinside ⟨[], rest, by simp [hrest]⟩
      rw [hself, withoutPackage, replace_eq_self_iff implicitPackage_ne_nil]
      exact hinside

instance (name : List Char) : Decidable (HoldsPackageOfType name) :=
  decidable_of_iff _ (withoutPackage_eq_dropFromType_iff name)

/-- A text loses nothing but the packages of types just if the implicit package stands nowhere else
in its dotted names. -/
theorem dropImplicitPackage_eq_dropFromTypes_iff (text : String) :
    dropImplicitPackage text = dropFromTypes text ↔
      ∀ name ∈ dottedNames text.toList, HoldsPackageOfType name := by
  have hlists : dropImplicitPackage text = dropFromTypes text ↔
      mapDotted withoutPackage text.toList = mapDotted dropFromType text.toList := by
    rw [← withoutPackage_eq_mapDotted]
    exact String.ofList_inj
  rw [hlists, mapDotted_eq_iff keepsDotted_withoutPackage keepsDotted_dropFromType rfl]
  simp only [withoutPackage_eq_dropFromType_iff]

end JavaSignatures.Name
