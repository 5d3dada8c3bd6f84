import JavaSignatures.Rendering

set_option autoImplicit false

/-!
# Angle brackets in rendered types

A type that is written in front of a name or between commas can be told from what follows only if
its angle brackets close and no comma or blank stands outside of them.  A text is read with the
depth of its brackets (`depthBehind`); it is `Balanced` if the brackets close, and `Undivided` if
besides no comma or blank stands outside.  Rendering takes characters other than these marks away
and puts texts of the same kind in (`Edited`), so it keeps both properties.
-/

namespace JavaSignatures

namespace Angles

/-! ## Depth -/

/-- A character that counts for the depth, or that divides a text outside of all brackets. -/
def isMark (c : Char) : Bool := c == '<' || c == '>' || c == ',' || c == ' '

/-- The depth behind a character.  A bracket that closes nothing has none; in a `strict` reading
neither has a comma or a blank outside of all brackets. -/
def step (strict : Bool) (depth : Nat) (c : Char) : Option Nat :=
  if c == '<' then some (depth + 1)
  else if c == '>' then if depth == 0 then none else some (depth - 1)
  else if isMark c && strict && depth == 0 then none
  else some depth

/-- The depth behind a text. -/
def depthBehind (strict : Bool) (depth : Nat) : List Char → Option Nat
  | [] => some depth
  | c :: rest => (step strict depth c).bind fun next => depthBehind strict next rest

/-- The brackets of the text close; in a strict reading nothing divides it outside of them. -/
def Closes (strict : Bool) (text : List Char) : Prop := depthBehind strict 0 text = some 0

/-- The text has none of the marks. -/
def Unmarked (text : List Char) : Prop := ∀ c ∈ text, isMark c = false

instance (strict : Bool) (text : List Char) : Decidable (Closes strict text) :=
  inferInstanceAs (Decidable (_ = _))

instance (text : List Char) : Decidable (Unmarked text) := List.decidableBAll _ text

theorem depthBehind_append (strict : Bool) (depth : Nat) (first second : List Char) :
    depthBehind strict depth (first ++ second) =
      (depthBehind strict depth first).bind fun middle => depthBehind strict middle second := by
  induction first generalizing depth with
  | nil => rfl
  | cons c rest ih =>
    rw [List.cons_append, depthBehind, depthBehind, Option.bind_assoc]
    refine congrArg (step strict depth c).bind ?_
    funext next
    exact ih next

theorem step_of_unmarked (strict : Bool) (depth : Nat) {c : Char} (h : isMark c = false) :
    step strict depth c = some depth := by
  have hmarks := h
  simp only [isMark, Bool.or_eq_false_iff] at hmarks
  obtain ⟨⟨⟨hopening, hclosing⟩, -⟩, -⟩ := hmarks
  simp [step, h, hopening, hclosing]

/-- A text is read at a greater depth as it is read outside; inside of brackets nothing divides. -/
theorem step_add {strict other : Bool} {more : Nat} (hmore : other = true → strict = true ∨ 0 < more)
    {depth after : Nat} {c : Char} (h : step strict depth c = some after) :
    step other (depth + more) c = some (after + more) := by
  unfold step at h ⊢
  split at h
  · next hopening =>
    obtain rfl := Option.some.inj h
    rw [if_pos hopening]
    congr 1
    omega
  · next hopening =>
    rw [if_neg hopening]
    split at h
    · next hclosing =>
      rw [if_pos hclosing]
      split at h
      · exact absurd h (by simp)
      · next hdepth =>
        obtain rfl := Option.some.inj h
        have hne : depth ≠ 0 := by simpa using hdepth
        rw [if_neg (by simp [hne])]
        congr 1
        omega
    · next hclosing =>
      rw [if_neg hclosing]
      split at h
      · exact absurd h (by simp)
      · next hdivides =>
        obtain rfl := Option.some.inj h
        refine if_neg fun hother => hdivides ?_
        simp only [Bool.and_eq_true, beq_iff_eq] at hother ⊢
        obtain ⟨⟨hmark, hstrict⟩, hdepth⟩ := hother
        have hzero : depth = 0 := by omega
        exact ⟨⟨hmark, (hmore hstrict).resolve_right (by omega)⟩, hzero⟩

theorem depthBehind_add {strict other : Bool} {more : Nat}
    (hmore : other = true → strict = true ∨ 0 < more) {depth after : Nat} {text : List Char}
    (h : depthBehind strict depth text = some after) :
    depthBehind other (depth + more) text = some (after + more) := by
  induction text generalizing depth with
  | nil =>
    obtain rfl := Option.some.inj h
    rfl
  | cons c rest ih =>
    obtain ⟨next, hnext, hrest⟩ := Option.bind_eq_some_iff.mp h
    rw [depthBehind, step_add hmore hnext]
    exact ih hrest

namespace Closes

/-- A text whose brackets close leaves every depth as it is. -/
theorem depthBehind_eq {strict other : Bool} {text : List Char} (h : Closes strict text)
    {depth : Nat} (hdepth : other = true → strict = true ∨ 0 < depth) :
    depthBehind other depth text = some depth := by
  have hadd := depthBehind_add hdepth h
  rwa [Nat.zero_add] at hadd

theorem append {strict : Bool} {first second : List Char} (hfirst : Closes strict first)
    (hsecond : Closes strict second) : Closes strict (first ++ second) := by
  unfold Closes at *
  rw [depthBehind_append, hfirst]
  exact hsecond

theorem of_unmarked (strict : Bool) {text : List Char} (h : Unmarked text) :
    Closes strict text := by
  unfold Closes
  induction text with
  | nil => rfl
  | cons c rest ih =>
    rw [depthBehind, step_of_unmarked strict 0 (h c (List.mem_cons_self ..))]
    exact ih fun d hd => h d (List.mem_cons_of_mem _ hd)

/-- In brackets a text may be divided. -/
theorem enclosed (strict : Bool) {inner : List Char} (h : Closes false inner) :
    Closes strict ('<' :: (inner ++ ['>'])) := by
  have hinner : depthBehind strict 1 inner = some 1 := h.depthBehind_eq (by simp)
  have hopening : step strict 0 '<' = some 1 := rfl
  have hclosing : depthBehind strict 1 ['>'] = some 0 := rfl
  unfold Closes
  rw [depthBehind, hopening, Option.bind_some, depthBehind_append, hinner, Option.bind_some,
    hclosing]

/-- Two texts that nothing divides, each up to a blank, are the same if what is read is. -/
theorem eq_of_append_blank {first second : List Char} (hfirst : Closes true first)
    (hsecond : Closes true second) {rest other : List Char}
    (h : first ++ ' ' :: rest = second ++ ' ' :: other) : first = second ∧ rest = other := by
  -- the longer text would have the blank behind the shorter one outside of its brackets
  have hdivided : ∀ {text : List Char}, Closes true text → ∀ {longer tail : List Char},
      Closes true longer → ¬longer = text ++ ' ' :: tail := by
    intro text htext longer tail hlonger hsplit
    have hdepth : depthBehind true 0 (text ++ ' ' :: tail) = none := by
      rw [depthBehind_append, htext]
      rfl
    rw [Closes, hsplit, hdepth] at hlonger
    exact absurd hlonger (by simp)
  rcases List.append_eq_append_iff.mp h with ⟨middle, hlong, hmiddle⟩ | ⟨middle, hlong, hmiddle⟩
  · cases middle with
    | nil =>
      obtain ⟨-, hrest⟩ := List.cons.inj hmiddle
      exact ⟨by simpa using hlong.symm, hrest⟩
    | cons c tail =>
      obtain ⟨rfl, -⟩ := List.cons.inj hmiddle
      exact absurd hlong (hdivided hfirst hsecond)
  · cases middle with
    | nil =>
      obtain ⟨-, hrest⟩ := List.cons.inj hmiddle
      exact ⟨by simpa using hlong, hrest.symm⟩
    | cons c tail =>
      obtain ⟨rfl, -⟩ := List.cons.inj hmiddle
      exact absurd hlong (hdivided hsecond hfirst)

end Closes

/-! ## Edited texts -/

/-- The second text is the first one without some characters that are no marks, and with texts put
in whose brackets close. -/
inductive Edited (strict : Bool) : List Char → List Char → Prop where
  | nil : Edited strict [] []
  | keep (c : Char) {text edited : List Char} (h : Edited strict text edited) :
      Edited strict (c :: text) (c :: edited)
  | drop {c : Char} (hc : isMark c = false) {text edited : List Char}
      (h : Edited strict text edited) : Edited strict (c :: text) edited
  | put {piece : List Char} (hpiece : Closes strict piece) {text edited : List Char}
      (h : Edited strict text edited) : Edited strict text (piece ++ edited)

theorem Edited.depthBehind_eq {strict : Bool} {text edited : List Char}
    (h : Edited strict text edited) (depth : Nat) :
    depthBehind strict depth edited = depthBehind strict depth text := by
  induction h generalizing depth with
  | nil => rfl
  | keep c h ih =>
    rw [depthBehind, depthBehind]
    refine congrArg (step strict depth c).bind ?_
    funext next
    exact ih next
  | drop hc h ih => rw [ih, depthBehind, step_of_unmarked strict depth hc, Option.bind_some]
  | put hpiece h ih =>
    rw [depthBehind_append, hpiece.depthBehind_eq Or.inl, Option.bind_some]
    exact ih depth

theorem Edited.closes {strict : Bool} {text edited : List Char} (h : Edited strict text edited)
    (hclosed : Closes strict text) : Closes strict edited := by
  unfold Closes at *
  rw [h.depthBehind_eq]
  exact hclosed

/-! ## What rendering does to a text -/

theorem edited_replaceChar (strict : Bool) {old : Char} (hold : isMark old = false)
    {new : List Char} (hnew : Closes strict new) (text : List Char) :
    Edited strict text (Text.replaceChar old new text) := by
  induction text with
  | nil => exact .nil
  | cons c rest ih =>
    unfold Text.replaceChar at ih ⊢
    rw [List.flatMap_cons]
    split
    · next hc =>
      rw [eq_of_beq hc]
      exact .put hnew (.drop hold ih)
    · exact .keep c ih

/-- What is left of an occurrence at the start of the text. -/
theorem unmarked_take_of_isPrefixOf {occurrence : List Char} (hunmarked : Unmarked occurrence)
    {c : Char} {rest : List Char} (h : occurrence.isPrefixOf (c :: rest) = true) :
    Unmarked (rest.take (occurrence.length - 1)) ∧ (occurrence ≠ [] → isMark c = false) := by
  cases occurrence with
  | nil => exact ⟨by simp [Unmarked], by simp⟩
  | cons first more =>
    obtain ⟨after, hafter⟩ := List.isPrefixOf_iff_prefix.mp h
    obtain ⟨rfl, rfl⟩ := List.cons.inj hafter
    refine ⟨?_, fun _ => hunmarked first (List.mem_cons_self ..)⟩
    intro d hd
    have hmore : d ∈ more := by simpa using hd
    exact hunmarked d (List.mem_cons_of_mem _ hmore)

theorem unmarked_take_of_cons {c : Char} {rest : List Char} {pending : Nat}
    (h : Unmarked ((c :: rest).take (pending + 1))) :
    isMark c = false ∧ Unmarked (rest.take pending) := by
  rw [List.take_succ_cons] at h
  exact ⟨h c (List.mem_cons_self ..), fun d hd => h d (List.mem_cons_of_mem _ hd)⟩

theorem edited_replaceFrom (strict : Bool) {old : List Char} (hne : old ≠ [])
    (hold : Unmarked old) (pending : Nat) (text : List Char)
    (hpending : Unmarked (text.take pending)) :
    Edited strict text (Text.replaceFrom
      (fun rest => if old.isPrefixOf rest then some ([], old.length) else none) pending text) := by
  induction text generalizing pending with
  | nil => cases pending <;> exact .nil
  | cons c rest ih =>
    cases pending with
    | succ pending =>
      obtain ⟨hc, hrest⟩ := unmarked_take_of_cons hpending
      exact .drop hc (ih pending hrest)
    | zero =>
      rw [Text.replaceFrom]
      by_cases hstart : old.isPrefixOf (c :: rest) = true
      · obtain ⟨hrest, hc⟩ := unmarked_take_of_isPrefixOf hold hstart
        simp only [hstart, if_true, List.nil_append]
        exact .drop (hc hne) (ih _ hrest)
      · simp only [hstart]
        exact .keep c (ih 0 (by simp [Unmarked]))

theorem edited_substituteFrom {strict : Bool} {identifier replacement : List Char}
    (hidentifier : Unmarked identifier) (hreplacement : Closes strict replacement)
    (before : Option Char) (shown : Bool) (pending : Nat) (text : List Char)
    (hpending : Unmarked (text.take pending)) :
    Edited strict text (Name.substituteFrom identifier replacement before shown pending text) := by
  have hput : ∀ (condition : Bool) {text edited : List Char}, Edited strict text edited →
      Edited strict text ((if condition then replacement else []) ++ edited) := by
    intro condition text edited h
    cases condition with
    | false => exact h
    | true => exact .put hreplacement h
  induction text generalizing before shown pending with
  | nil =>
    cases pending with
    | succ pending => exact .nil
    | zero =>
      rw [Name.substituteFrom, ← List.append_nil (ite _ _ _)]
      exact hput _ .nil
  | cons c rest ih =>
    cases pending with
    | succ pending =>
      obtain ⟨hc, hrest⟩ := unmarked_take_of_cons hpending
      have htail := ih (some c) shown pending hrest
      rw [Name.substituteFrom]
      cases shown with
      | false => exact .drop hc htail
      | true => exact .keep c htail
    | zero =>
      rw [Name.substituteFrom]
      by_cases hstart : identifier.isPrefixOf (c :: rest) = true
      · obtain ⟨hrest, hc⟩ := unmarked_take_of_isPrefixOf hidentifier hstart
        rw [if_pos hstart]
        dsimp only
        refine hput _ ?_
        split
        · exact .keep c (ih _ _ _ hrest)
        · next hshown =>
          -- what is dropped belongs to an occurrence, which is not empty
          have hne : identifier ≠ [] := by
            rintro rfl
            simp at hshown
          exact .drop (hc hne) (ih _ _ _ hrest)
      · rw [if_neg hstart]
        exact .keep c (ih _ _ 0 (by simp [Unmarked]))

end Angles

end JavaSignatures
