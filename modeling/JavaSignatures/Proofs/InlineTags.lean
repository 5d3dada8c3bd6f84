import JavaSignatures.Proofs.OneLine

set_option autoImplicit false

/-!
# Inline tags

What becomes of an inline tag such as `{@link Foo}` on a line of a comment (`InlineTag`).  The rules
for inline tags see nothing of the text in front of the tag, and the first of them that applies
replaces all of it (`foldl_replaceBy_text`).  One applies if the argument is written like a
reference to a member (`findSome?_inlineRules`); an argument with a space, such as the label of a
link, is none, and the tag stays but for its `@` (`normalize_text`).
-/

namespace JavaSignatures.Text

variable {rule : List Char → Option (List Char × Nat)} {front : List Char}

/-! ## Passes of replacements -/

/-- A rule that does not apply within the front of a text leaves it there. -/
theorem replaceBy_append {rest : List Char}
    (h : ∀ part, part <:+ front → part ≠ [] → rule (part ++ rest) = none) :
    replaceBy rule (front ++ rest) = front ++ replaceBy rule rest := by
  induction front with
  | nil => rfl
  | cons c front ih =>
    have hnone : rule (c :: (front ++ rest)) = none := h (c :: front) List.suffix_rfl (by simp)
    have htail := ih fun part hpart hne => h part (hpart.trans (List.suffix_cons c front)) hne
    rw [List.cons_append, replaceBy, replaceFrom, hnone, ← replaceBy, htail, List.cons_append]

theorem replaceFrom_append (done rest : List Char) :
    replaceFrom rule done.length (done ++ rest) = replaceBy rule rest := by
  induction done with
  | nil => rfl
  | cons c done ih => exact ih

/-- A rule that applies to a text replaces the part that it counts. -/
theorem replaceBy_of_eq_some {part rest replacement : List Char} (hne : part ≠ [])
    (h : rule (part ++ rest) = some (replacement, part.length)) :
    replaceBy rule (part ++ rest) = replacement ++ replaceBy rule rest := by
  obtain ⟨c, more, rfl⟩ := List.exists_cons_of_ne_nil hne
  rw [List.cons_append] at h ⊢
  rw [replaceBy, replaceFrom, h]
  exact congrArg _ (replaceFrom_append more rest)

end JavaSignatures.Text

namespace JavaSignatures.Markup

open JavaSignatures.Character

/-! ## Characters of references -/

section Reference

variable {c : Char}

theorem isWord_of_isAlphabetic (h : isAlphabetic c = true) : isWord c = true := by
  simp [isWord, h]

theorem isReferencePart_of_isWord (h : isWord c = true) : isReferencePart c = true := by
  simp [isReferencePart, h]

theorem not_isBlank_of_isReferencePart (h : isReferencePart c = true) : isBlank c = false := by
  rw [Bool.eq_false_iff]
  intro hblank
  have hmark : ['.', '#', '(', ',', ')'].contains c = false :=
    eq_false_of_isBlank (by decide +kernel) hblank
  rw [isReferencePart, not_isWord_of_isBlank hblank, hmark] at h
  contradiction

/-- Of the marks in ASCII those of a member are part of a reference. -/
theorem isReferencePart_of_isAscii (h : isAscii c = true) :
    isReferencePart c = (c.isAlphanum || c == '_' || ['.', '#', '(', ',', ')'].contains c) := by
  rw [isReferencePart, isWord_of_isAscii h]

theorem not_isWord_brace : isWord '}' = false := by
  rw [isWord_of_isAscii (by decide)]
  decide

theorem not_isReferencePart_brace : isReferencePart '}' = false := by
  rw [isReferencePart_of_isAscii (by decide)]
  decide

theorem not_isReferencePart_star : isReferencePart '*' = false := by
  rw [isReferencePart_of_isAscii (by decide)]
  decide

theorem not_isReferencePart_space : isReferencePart ' ' = false := by
  rw [isReferencePart_of_isAscii (by decide)]
  decide

end Reference

/-! ## Where the rules for inline tags apply -/

section Rules

variable {rule : List Char → Option (List Char × Nat)} {p : Char → Bool}
  {text front rest argument : List Char}

/-- A rule for inline tags applies only where one is opened, properly or by the common slip. -/
theorem isPrefix_of_inlineRule (hrule : rule ∈ inlineRules) {found : List Char × Nat}
    (h : rule text = some found) : ['{', '@'] <+: text ∨ ['@', '{'] <+: text := by
  have hopening : ∀ opening, (Text.after? opening text).isSome = true → opening <+: text := by
    intro opening hsome
    obtain ⟨inside, hinside⟩ := Option.isSome_iff_exists.mp hsome
    exact ⟨inside, (Text.after?_eq_some_iff.mp hinside).symm⟩
  have hlink : ∀ opening p, linkRule opening p text = some found → opening <+: text := by
    intro opening p hfound
    obtain ⟨inside, hinside, -⟩ := Option.bind_eq_some_iff.mp hfound
    exact hopening opening (by rw [hinside]; rfl)
  have hproper : ∀ p, linkRule ('{' :: "@link".toList) p text = some found →
      ['{', '@'] <+: text := fun p hfound =>
    (by decide : ['{', '@'] <+: '{' :: "@link".toList).trans (hlink _ p hfound)
  have hslip : ∀ p, linkRule ('@' :: '{' :: "link".toList) p text = some found →
      ['@', '{'] <+: text := fun p hfound =>
    (by decide : ['@', '{'] <+: '@' :: '{' :: "link".toList).trans (hlink _ p hfound)
  simp only [inlineRules, List.mem_cons, List.not_mem_nil, or_false] at hrule
  rcases hrule with rfl | rfl | rfl | rfl | rfl
  · exact .inl (hproper _ h)
  · exact .inl (hproper _ h)
  · exact .inr (hslip _ h)
  · exact .inr (hslip _ h)
  · obtain ⟨inside, hinside, -⟩ := Option.bind_eq_some_iff.mp h
    exact .inl (hopening _ (by rw [hinside]; rfl))

theorem closedRun?_cons_of_pos {c : Char} (hc : p c = true) (text : List Char) :
    closedRun? p (c :: text) = (closedRun? p text).map (c :: ·) := by
  rw [closedRun?, closedRun?, List.dropWhile_cons_of_pos hc, List.takeWhile_cons_of_pos hc]
  split <;> rfl

theorem closedRun?_cons_of_neg {c : Char} (hc : p c = false) (hbrace : c ≠ '}')
    (text : List Char) : closedRun? p (c :: text) = none := by
  rw [closedRun?, List.dropWhile_cons_of_neg (by simp [hc])]
  split
  next hclosed => exact absurd (List.cons.inj hclosed).1 hbrace
  next => rfl

/-- What a closing brace follows is read up to the brace or not at all. -/
theorem closedRun?_append (hbrace : '}' ∉ argument) (hp : p '}' = false) (rest : List Char) :
    closedRun? p (argument ++ '}' :: rest) = if argument.all p then some argument else none := by
  induction argument with
  | nil => simp [closedRun?, hp]
  | cons c argument ih =>
    rw [List.mem_cons, not_or] at hbrace
    rw [List.cons_append, List.all_cons]
    cases hc : p c with
    | true =>
      rw [closedRun?_cons_of_pos hc, ih hbrace.2]
      cases hall : argument.all p <;> simp
    | false =>
      rw [closedRun?_cons_of_neg hc (Ne.symm hbrace.1)]
      simp

/-- A run that ends at another character than a brace is not read. -/
theorem closedRun?_append_space (hall : ∀ c ∈ argument, p c = true) (hp : p ' ' = false)
    (rest : List Char) : closedRun? p (argument ++ ' ' :: rest) = none := by
  induction argument with
  | nil => exact closedRun?_cons_of_neg hp (by decide) rest
  | cons c argument ih =>
    rw [List.cons_append, closedRun?_cons_of_pos (hall c List.mem_cons_self),
      ih fun d hd => hall d (List.mem_cons_of_mem _ hd)]
    rfl

end Rules

/-! ## Inline tags -/

/-- An inline tag on one line: a name of letters and an argument without braces and marks. -/
structure InlineTag where
  name : List Char
  argument : List Char
  name_ne_nil : name ≠ []
  name_isAlphabetic : ∀ c ∈ name, isAlphabetic c = true
  argument_ne_nil : argument ≠ []
  argument_isTrimmed : Text.IsTrimmed argument
  argument_isUnmarked : ∀ mark ∈ ['{', '}', '<', '>', '@', '\n'], mark ∉ argument

namespace InlineTag

/-- The tag as it is written. -/
def text (tag : InlineTag) : List Char :=
  '{' :: '@' :: (tag.name ++ ' ' :: (tag.argument ++ ['}']))

/-- The tag is a link. -/
def isLink (tag : InlineTag) : Bool := tag.name == "link".toList

/-- The argument is written like a reference to one member. -/
def isReference (tag : InlineTag) : Bool := tag.argument.all isReferencePart

/-- The argument without a `#` in front of something else. -/
def bareArgument (tag : InlineTag) : List Char :=
  match tag.argument with
  | '#' :: c :: rest => c :: rest
  | _ => tag.argument

/-- What is put in the place of a tag whose argument is a reference: the argument, of which links
alone keep a `#` in front. -/
def reference (tag : InlineTag) : List Char :=
  if tag.isLink then tag.argument else tag.bareArgument

/-- What is shown of the tag. -/
def shown (tag : InlineTag) : List Char :=
  if tag.isReference then tag.reference
  else '{' :: (tag.name ++ ' ' :: (tag.argument ++ ['}']))

/-- The tag gives way to its argument: that is a reference, and it has no `#` in front, or nothing
behind the `#`, or the tag is a link. -/
def IsUnwrapped (tag : InlineTag) : Prop :=
  (∀ c ∈ tag.argument, isReferencePart c = true) ∧
    (tag.isLink = true ∨ tag.argument.head? ≠ some '#' ∨ tag.argument = ['#'])

variable (tag : InlineTag) (rest : List Char) {p : Char → Bool}

theorem text_append : tag.text ++ rest =
    '{' :: '@' :: (tag.name ++ ' ' :: (tag.argument ++ '}' :: rest)) := by
  simp [text]

theorem brace_not_mem_argument : '}' ∉ tag.argument :=
  tag.argument_isUnmarked '}' (by decide)

/-- The opening of a link leaves of a tag the end of its name and what follows. -/
theorem after?_link_eq_some_iff {inside : List Char} :
    Text.after? ('{' :: "@link".toList) (tag.text ++ rest) = some inside ↔
      ∃ more, tag.name = "link".toList ++ more ∧
        inside = more ++ ' ' :: (tag.argument ++ '}' :: rest) := by
  have hopening : '{' :: "@link".toList = '{' :: '@' :: "link".toList := by decide
  rw [Text.after?_eq_some_iff, text_append, hopening, List.cons_append, List.cons_append,
    List.cons.injEq, List.cons.injEq, and_iff_right rfl, and_iff_right rfl]
  constructor
  · intro hsame
    rcases List.append_eq_append_iff.mp hsame with ⟨more, hlink, hspace⟩ | hname
    · cases more with
      | nil => exact ⟨[], by simpa using hlink.symm, hspace.symm⟩
      | cons c more =>
        obtain rfl : ' ' = c := (List.cons.inj hspace).1
        have hnot : ' ' ∉ "link".toList := by decide
        exact absurd (hlink ▸ by simp) hnot
    · exact hname
  · rintro ⟨more, hname, rfl⟩
    rw [hname, List.append_assoc]

/-- The rules for links read the argument of a link that consists of their characters. -/
theorem linkRule_text (hletter : ∀ c, isAlphabetic c = true → p c = true) (hspace : p ' ' = false)
    (hbrace : p '}' = false) :
    linkRule ('{' :: "@link".toList) p (tag.text ++ rest) =
      if tag.isLink && tag.argument.all p then some (tag.argument, tag.text.length) else none := by
  rw [linkRule]
  cases hinside : Text.after? ('{' :: "@link".toList) (tag.text ++ rest) with
  | none =>
    have hlink : tag.isLink = false := by
      refine beq_eq_false_iff_ne.mpr fun hname => ?_
      rw [(tag.after?_link_eq_some_iff rest).mpr ⟨[], by simp [hname], rfl⟩] at hinside
      contradiction
    rw [hlink]
    rfl
  | some inside =>
    obtain ⟨more, hname, rfl⟩ := (tag.after?_link_eq_some_iff rest).mp hinside
    cases more with
    | nil =>
      rw [List.append_nil] at hname
      have hlink : tag.isLink = true := beq_iff_eq.mpr hname
      have hblank : isBlank ' ' = true := by decide
      have hlength : tag.text.length = tag.argument.length + 8 := by
        simp [text, hname]
      simp only [Option.bind_eq_bind, Option.bind_some, List.nil_append, optionalBlank, hblank,
        if_true, closedRun?_append tag.brace_not_mem_argument hbrace, hlink, Bool.true_and]
      cases hall : tag.argument.all p with
      | true =>
        simp [tag.argument_ne_nil, hlength]
        omega
      | false => simp
    | cons c more =>
      -- the name goes on behind `link`, so a space stands where the argument would end
      have hletters : ∀ d ∈ c :: more, isAlphabetic d = true := fun d hd =>
        tag.name_isAlphabetic d (hname ▸ List.mem_append_right _ hd)
      have hlink : tag.isLink = false := by
        refine beq_eq_false_iff_ne.mpr fun hlink => ?_
        simp [hlink] at hname
      have hc : isBlank c = false :=
        not_isBlank_of_isReferencePart
          (isReferencePart_of_isWord (isWord_of_isAlphabetic (hletters c List.mem_cons_self)))
      have hnone := closedRun?_append_space (fun d hd => hletter d (hletters d hd)) hspace
        (tag.argument ++ '}' :: rest)
      rw [List.cons_append] at hnone ⊢
      simp only [Option.bind_eq_bind, Option.bind_some, optionalBlank, hc, Bool.false_eq_true,
        if_false, hnone, hlink, Bool.false_and]
      rfl

theorem slipRule_text : linkRule ('@' :: '{' :: "link".toList) p (tag.text ++ rest) = none := by
  rw [text_append]
  rfl

theorem tagRule_text : tagRule (tag.text ++ rest) =
    if tag.isReference then some (tag.bareArgument, tag.text.length) else none := by
  have hinside : Text.after? ['{', '@'] (tag.text ++ rest) =
      some (tag.name ++ ' ' :: (tag.argument ++ '}' :: rest)) := by
    rw [Text.after?_eq_some_iff, text_append]
    rfl
  have hwords : ∀ c ∈ tag.name, isWord c = true := fun c hc =>
    isWord_of_isAlphabetic (tag.name_isAlphabetic c hc)
  have hname : (tag.name ++ ' ' :: (tag.argument ++ '}' :: rest)).takeWhile isWord = tag.name := by
    rw [List.takeWhile_append_of_pos hwords,
      List.takeWhile_cons_of_neg (by simp [not_isWord_space]), List.append_nil]
  have hstart : (tag.name ++ ' ' :: (tag.argument ++ '}' :: rest)).dropWhile isWord =
      ' ' :: (tag.argument ++ '}' :: rest) := by
    rw [List.dropWhile_append_of_pos hwords,
      List.dropWhile_cons_of_neg (by simp [not_isWord_space])]
  have hempty : tag.name.isEmpty = false := by simpa using tag.name_ne_nil
  have hblank : isBlank ' ' = true := by decide
  have hlength : tag.text.length = tag.name.length + tag.argument.length + 4 := by
    simp [text]
    omega
  rw [tagRule, hinside]
  simp only [Option.bind_eq_bind, Option.bind_some, hname, hstart, hempty, hblank, if_true,
    closedRun?_append tag.brace_not_mem_argument not_isReferencePart_brace]
  rw [isReference]
  cases hall : tag.argument.all isReferencePart with
  | true =>
    simp only [if_true, Option.bind_some, List.isEmpty_iff, tag.argument_ne_nil, if_false, hlength]
    rfl
  | false => rfl

section Unwrap

variable {rule : List Char → Option (List Char × Nat)} {front back : List Char}

theorem bareArgument_cases :
    (∃ c rest, tag.argument = '#' :: c :: rest ∧ tag.bareArgument = c :: rest) ∨
      tag.bareArgument = tag.argument ∧ (tag.argument.head? ≠ some '#' ∨ tag.argument = ['#']) := by
  rw [bareArgument]
  split
  next c rest hargument => exact .inl ⟨c, rest, hargument, rfl⟩
  next hargument =>
    refine .inr ⟨rfl, ?_⟩
    rcases hshape : tag.argument with _ | ⟨c, _ | ⟨d, rest⟩⟩
    · simp
    · by_cases hc : c = '#' <;> simp [hc]
    · by_cases hc : c = '#'
      · exact absurd (hc ▸ hshape) (hargument d rest)
      · simp [hc]

theorem bareArgument_subset : tag.bareArgument ⊆ tag.argument := by
  rcases tag.bareArgument_cases with ⟨c, rest, hargument, hbare⟩ | ⟨hbare, -⟩
  · rw [hargument, hbare]
    exact List.subset_cons_self _ _
  · rw [hbare]
    exact List.Subset.refl _

theorem reference_subset : tag.reference ⊆ tag.argument := by
  rw [reference]
  split
  · exact List.Subset.refl _
  · exact tag.bareArgument_subset

theorem reference_ne_nil : tag.reference ≠ [] := by
  rw [reference]
  split
  · exact tag.argument_ne_nil
  · rcases tag.bareArgument_cases with ⟨c, rest, -, hbare⟩ | ⟨hbare, -⟩
    · simp [hbare]
    · exact hbare ▸ tag.argument_ne_nil

theorem wordRule_text : linkRule ('{' :: "@link".toList) isWord (tag.text ++ rest) =
    if tag.isLink && tag.argument.all isWord then some (tag.argument, tag.text.length) else none :=
  linkRule_text tag rest (fun _ => isWord_of_isAlphabetic) not_isWord_space not_isWord_brace

theorem referenceRule_text :
    linkRule ('{' :: "@link".toList) isReferencePart (tag.text ++ rest) =
      if tag.isLink && tag.isReference then some (tag.argument, tag.text.length) else none :=
  linkRule_text tag rest (fun _ hc => isReferencePart_of_isWord (isWord_of_isAlphabetic hc))
    not_isReferencePart_space not_isReferencePart_brace

/-- Whatever rule applies to the tag replaces all of it by its argument. -/
theorem inlineRule_text (hrule : rule ∈ inlineRules) {found : List Char × Nat}
    (h : rule (tag.text ++ rest) = some found) :
    found.1 ⊆ tag.argument ∧ found.2 = tag.text.length := by
  have hread : ∀ (applies : Bool) {shown : List Char}, shown ⊆ tag.argument →
      (if applies then some (shown, tag.text.length) else none) = some found →
        found.1 ⊆ tag.argument ∧ found.2 = tag.text.length := by
    intro applies shown hshown hfound
    cases applies with
    | false => contradiction
    | true =>
      obtain rfl := Option.some.inj hfound
      exact ⟨hshown, rfl⟩
  simp only [inlineRules, List.mem_cons, List.not_mem_nil, or_false] at hrule
  rcases hrule with rfl | rfl | rfl | rfl | rfl
  · rw [wordRule_text] at h
    exact hread _ (List.Subset.refl _) h
  · rw [referenceRule_text] at h
    exact hread _ (List.Subset.refl _) h
  · rw [slipRule_text] at h
    contradiction
  · rw [slipRule_text] at h
    contradiction
  · rw [tagRule_text] at h
    exact hread _ tag.bareArgument_subset h

/-- The first rule that applies to the tag replaces it if the argument is a reference. -/
theorem findSome?_inlineRules : inlineRules.findSome? (fun rule => rule (tag.text ++ rest)) =
    if tag.isReference then some (tag.reference, tag.text.length) else none := by
  have hreference : tag.argument.all isWord = true → tag.isReference = true := by
    intro hall
    refine List.all_eq_true.mpr fun c hc => ?_
    exact isReferencePart_of_isWord (List.all_eq_true.mp hall c hc)
  simp only [inlineRules, List.findSome?_cons, List.findSome?_nil, wordRule_text,
    referenceRule_text, slipRule_text, tagRule_text, reference]
  cases tag.isLink with
  | false => cases tag.isReference <;> rfl
  | true =>
    cases hwords : tag.argument.all isWord with
    | false => cases tag.isReference <;> rfl
    | true => rw [hreference hwords]; rfl

theorem at_not_mem_argument : '@' ∉ tag.argument := tag.argument_isUnmarked '@' (by decide)

/-- The rules for inline tags see nothing of a text in front of the tag. -/
theorem inlineRule_append_text (hrule : rule ∈ inlineRules) {part : List Char} (hne : part ≠ [])
    (hpart : '@' ∉ part) : rule (part ++ (tag.text ++ rest)) = none := by
  refine Option.eq_none_iff_forall_ne_some.mpr fun found hfound => ?_
  obtain ⟨c, part, rfl⟩ := List.exists_cons_of_ne_nil hne
  rw [List.mem_cons, not_or] at hpart
  rcases isPrefix_of_inlineRule hrule hfound with hbegins | hbegins
  · rw [List.cons_append, List.cons_prefix_cons] at hbegins
    cases part with
    | nil => exact absurd (List.cons_prefix_cons.mp hbegins.2).1 (by decide)
    | cons d part => exact hpart.2 ((List.cons_prefix_cons.mp hbegins.2).1 ▸ List.mem_cons_self)
  · exact hpart.1 (List.cons_prefix_cons.mp hbegins).1

/-- A rule that does not apply to the tag changes nothing in it and behind it. -/
theorem replaceBy_text_of_none (hrule : rule ∈ inlineRules) (hback : '@' ∉ back)
    (h : rule (tag.text ++ back) = none) :
    Text.replaceBy rule (tag.text ++ back) = tag.text ++ back := by
  have hletter : '@' ∉ tag.name := fun hat =>
    absurd (tag.name_isAlphabetic _ hat) (by decide)
  refine Text.replaceBy_eq_self fun part hpart => ?_
  rw [text_append] at hpart
  rcases List.suffix_cons_iff.mp hpart with rfl | hpart
  · rwa [text_append] at h
  · rcases List.suffix_cons_iff.mp hpart with rfl | hpart
    · refine Option.eq_none_iff_forall_ne_some.mpr fun found hfound => ?_
      obtain ⟨c, name, hname⟩ := List.exists_cons_of_ne_nil tag.name_ne_nil
      rw [hname] at hfound
      rcases isPrefix_of_inlineRule hrule hfound with hbegins | hbegins
      · exact absurd (List.cons_prefix_cons.mp hbegins).1 (by decide)
      · have hc := (List.cons_prefix_cons.mp (List.cons_prefix_cons.mp hbegins).2).1
        exact absurd (tag.name_isAlphabetic c (hname ▸ List.mem_cons_self)) (hc ▸ by decide)
    · refine inlineRule_eq_none hrule fun hat => ?_
      have hmem := hpart.subset hat
      simp [hletter, tag.at_not_mem_argument, hback] at hmem

/-- The rules for inline tags, one after the other, on a text with one tag. -/
theorem foldl_replaceBy_text {rules : List (List Char → Option (List Char × Nat))}
    (hrules : ∀ rule ∈ rules, rule ∈ inlineRules) (hfront : '@' ∉ front) (hback : '@' ∉ back) :
    rules.foldl (fun text rule => Text.replaceBy rule text) (front ++ (tag.text ++ back)) =
      front ++ ((rules.findSome? fun rule => rule (tag.text ++ back)).elim tag.text Prod.fst ++
        back) := by
  induction rules with
  | nil => rfl
  | cons rule rules ih =>
    have hrule := hrules rule List.mem_cons_self
    have hothers := fun other hother => hrules other (List.mem_cons_of_mem _ hother)
    have hpass : Text.replaceBy rule (front ++ (tag.text ++ back)) =
        front ++ Text.replaceBy rule (tag.text ++ back) :=
      Text.replaceBy_append fun part hpart hne =>
        tag.inlineRule_append_text back hrule hne fun hat => hfront (hpart.subset hat)
    rw [List.foldl_cons, List.findSome?_cons, hpass]
    cases hfound : rule (tag.text ++ back) with
    | none =>
      rw [tag.replaceBy_text_of_none hrule hback hfound]
      exact ih hothers
    | some found =>
      obtain ⟨hsubset, hlength⟩ := tag.inlineRule_text back hrule hfound
      have hread : rule (tag.text ++ back) = some (found.1, tag.text.length) := by
        rw [hfound, ← hlength]
      have hmarkless : '@' ∉ front ++ (found.1 ++ back) := by
        simp only [List.mem_append, not_or]
        exact ⟨hfront, fun hat => tag.at_not_mem_argument (hsubset hat), hback⟩
      rw [Text.replaceBy_of_eq_some (by simp [text]) hread,
        Text.replaceBy_of_not_mem (fun _ => inlineRule_eq_none hrule) hback,
        unwrap_of_not_mem hothers hmarkless]
      rfl

end Unwrap

theorem not_mem_name {mark : Char} (h : isAlphabetic mark = false) : mark ∉ tag.name := by
  intro hmem
  rw [tag.name_isAlphabetic mark hmem] at h
  contradiction

theorem isFirm_braced (name rest : List Char) : IsFirm ('{' :: (name ++ rest ++ ['}'])) where
  ne_nil := by simp
  head := by
    rintro c ⟨⟩
    decide
  last := by
    rw [← List.cons_append, List.getLast?_concat]
    rintro c ⟨⟩
    decide

theorem isFirm_text : IsFirm tag.text := by
  have hbraced := isFirm_braced ('@' :: tag.name) (' ' :: tag.argument)
  simpa [text] using hbraced

theorem isFirm_shown : IsFirm tag.shown := by
  rw [shown]
  split
  next hreference =>
    have hparts : ∀ c ∈ tag.reference, isBlank c = false ∧ c ≠ '*' := by
      intro c hc
      have hpart := List.all_eq_true.mp hreference c (tag.reference_subset hc)
      refine ⟨not_isBlank_of_isReferencePart hpart, ?_⟩
      rintro rfl
      rw [not_isReferencePart_star] at hpart
      contradiction
    exact ⟨tag.reference_ne_nil, fun c hc => hparts c (List.mem_of_mem_head? hc),
      fun c hc => hparts c (List.mem_of_getLast? hc)⟩
  next =>
    have hbraced := isFirm_braced tag.name (' ' :: tag.argument)
    simpa using hbraced

theorem isTagless_shown : IsTagless tag.shown := by
  intro mark hmark
  have hargument : mark ∉ tag.argument :=
    tag.argument_isUnmarked mark ((by decide : ['<', '@', '\n'] ⊆ _) hmark)
  rw [shown]
  split
  next => exact fun hmem => hargument (tag.reference_subset hmem)
  next =>
    have hletters : ∀ mark ∈ ['<', '@', '\n'],
        isAlphabetic mark = false ∧ mark ∉ ['{', ' ', '}'] := by decide
    obtain ⟨hname, hothers⟩ := hletters mark hmark
    simp only [List.mem_cons, List.not_mem_nil, or_false, not_or] at hothers
    simp [hothers, hargument, tag.not_mem_name hname]

/-- The tag gives way to its argument exactly if that is what is shown of it. -/
theorem isUnwrapped_iff : tag.IsUnwrapped ↔ tag.shown = tag.argument := by
  rw [IsUnwrapped, ← List.all_eq_true, ← isReference, shown]
  cases hreference : tag.isReference with
  | false =>
    refine iff_of_false (by simp) fun heq => ?_
    exact tag.argument_isUnmarked '{' (by decide) (heq ▸ List.mem_cons_self)
  | true =>
    rw [if_pos rfl, and_iff_right rfl, reference]
    cases hlink : tag.isLink with
    | true => simp
    | false =>
      rcases tag.bareArgument_cases with ⟨c, rest, hargument, hbare⟩ | ⟨hbare, hargument⟩
      · simp [hbare, hargument]
      · simpa [hbare] using hargument

/-! ### The line with the tag -/

section Line

variable {front back : List Char}

/-- Of the tag plain text keeps what it keeps of what is shown. -/
theorem rewritten_text (hfront : IsTagless front) (hback : IsTagless back) :
    rewritten (front ++ (tag.text ++ back)) = (front ++ (tag.shown ++ back)).filterMap keep := by
  have helement : '<' ∉ front ++ (tag.text ++ back) := by
    have hname : '<' ∉ tag.name := tag.not_mem_name (by decide)
    have hargument : '<' ∉ tag.argument := tag.argument_isUnmarked '<' (by decide)
    simp [text, hfront.noElement, hback.noElement, hname, hargument]
  rw [rewritten, Text.replaceBy_of_not_mem (fun _ => elementRule_eq_none) helement,
    tag.foldl_replaceBy_text (fun _ => id) hfront.noTag hback.noTag,
    findSome?_inlineRules, shown]
  cases tag.isReference with
  | true => rfl
  | false =>
    have hat : keep '@' = none := by decide
    have hbrace : keep '{' = some '{' := by decide
    simp [text, hat, hbrace]

theorem isTagless_argument : IsTagless tag.argument := fun mark hmark =>
  tag.argument_isUnmarked mark ((by decide : ['<', '@', '\n'] ⊆ _) hmark)

/-- What is shown of the tag is the argument if it has as many braces and as many `#`. -/
theorem shown_eq_argument (hbraces : tag.shown.count '{' = tag.argument.count '{')
    (hhashes : tag.shown.count '#' = tag.argument.count '#') : tag.shown = tag.argument := by
  have hnone : tag.argument.count '{' = 0 :=
    List.count_eq_zero_of_not_mem (tag.argument_isUnmarked '{' (by decide))
  rw [shown] at hbraces hhashes ⊢
  cases hreference : tag.isReference with
  | false =>
    rw [hreference, if_neg (by simp), List.count_cons_self, hnone] at hbraces
    contradiction
  | true =>
    rw [hreference, if_pos rfl, reference] at hhashes
    rw [if_pos rfl, reference]
    cases hlink : tag.isLink with
    | true => rfl
    | false =>
      rw [hlink, if_neg (by simp)] at hhashes
      rcases tag.bareArgument_cases with ⟨c, rest, hargument, hbare⟩ | ⟨hbare, -⟩
      · rw [hargument, hbare, List.count_cons_self (l := c :: rest)] at hhashes
        omega
      · rw [if_neg (by simp), hbare]

/-- On a line without other markup a tag reads like what is shown of it. -/
theorem normalize_text_eq_shown (summary : Bool) (hfront : IsTagless front)
    (hback : IsTagless back) :
    normalize summary (front ++ (tag.text ++ back)) =
      normalize summary (front ++ (tag.shown ++ back)) := by
  have hbreak : '\n' ∉ tag.text := by
    have hname : '\n' ∉ tag.name := tag.not_mem_name (by decide)
    simp [text, hname, tag.isTagless_argument.isOneLine]
  have htextHead : tag.text.head? ≠ some '@' := by simp [text]
  have hshownHead : tag.shown.head? ≠ some '@' := fun hhead =>
    tag.isTagless_shown.noTag (List.mem_of_mem_head? hhead)
  have hlead := hfront.subset (lead_subset front)
  have htrail := hback.subset (trail_subset back)
  have hall := hlead.append (tag.isTagless_shown.append htrail)
  rw [normalize_append summary hfront hback tag.isFirm_text hbreak htextHead,
    normalize_append summary hfront hback tag.isFirm_shown
      tag.isTagless_shown.isOneLine hshownHead,
    plainLine, plainLine, tag.rewritten_text hlead htrail,
    rewritten_of_unmarked hall.noElement hall.noTag]

/-- If what is shown of the tag reads like its argument, it is the argument: the normal form tells
the number of braces and that of `#`. -/
theorem shown_eq_argument_of_normalize (summary : Bool) (hfront : IsTagless front)
    (hback : IsTagless back)
    (h : normalize summary (front ++ (tag.shown ++ back)) =
      normalize summary (front ++ (tag.argument ++ back))) : tag.shown = tag.argument := by
  have hcount : ∀ c, keep c = some c → isBlank c = false → c ≠ '*' → c ≠ '\\' →
      tag.shown.count c = tag.argument.count c := by
    intro c hkeep hblank hstar hslash
    have hsame := congrArg (List.count c) h
    rw [count_normalize summary (hfront.append (tag.isTagless_shown.append hback)) hkeep hblank
        hstar hslash,
      count_normalize summary (hfront.append (tag.isTagless_argument.append hback)) hkeep hblank
        hstar hslash] at hsame
    simp only [List.count_append] at hsame
    omega
  exact tag.shown_eq_argument
    (hcount '{' (by decide) (by decide) (by decide) (by decide))
    (hcount '#' (by decide) (by decide) (by decide) (by decide))

/-- On a line without other markup a tag reads like what is shown of it, and it gives way to its
argument exactly if the argument is a reference, without a `#` that is dropped. -/
theorem normalize_text (summary : Bool) (hfront : IsTagless front) (hback : IsTagless back) :
    normalize summary (front ++ (tag.text ++ back)) =
        normalize summary (front ++ (tag.shown ++ back)) ∧
      (normalize summary (front ++ (tag.text ++ back)) =
        normalize summary (front ++ (tag.argument ++ back)) ↔ tag.IsUnwrapped) := by
  have hshown := tag.normalize_text_eq_shown summary hfront hback
  refine ⟨hshown, ?_⟩
  rw [hshown, isUnwrapped_iff]
  constructor
  · exact tag.shown_eq_argument_of_normalize summary hfront hback
  · intro heq
    rw [heq]

theorem normalize_text_member :
    let tag : InlineTag :=
      { name := "linkplain".toList
        argument := "com.acme.Case#run(int,long)".toList
        name_ne_nil := by decide
        name_isAlphabetic := by decide
        argument_ne_nil := by decide
        argument_isTrimmed := ⟨by decide, by decide⟩
        argument_isUnmarked := by decide }
    IsTagless " * Uses ".toList ∧ IsTagless " (see below). **".toList ∧ tag.IsUnwrapped ∧
      ∀ summary, normalize summary (" * Uses ".toList ++ (tag.text ++ " (see below). **".toList)) =
        normalize summary (" * Uses com.acme.Case#run(int,long) (see below). **".toList) := by
  intro tag
  have hfront : IsTagless " * Uses ".toList := by decide
  have hback : IsTagless " (see below). **".toList := by decide
  have hunwrapped : tag.IsUnwrapped := ⟨by decide +kernel, by decide⟩
  exact ⟨hfront, hback, hunwrapped, fun summary =>
    (tag.normalize_text summary hfront hback).2.mpr hunwrapped⟩

/-- A link with a label. -/
def labelled : InlineTag where
  name := "link".toList
  argument := "Dispute the dispute".toList
  name_ne_nil := by decide
  name_isAlphabetic := by decide
  argument_ne_nil := by decide
  argument_isTrimmed := ⟨by decide, by decide⟩
  argument_isUnmarked := by decide

/-- A link with a label stays, without its `@`. -/
theorem normalize_text_labelled_ne :
    IsTagless "see ".toList ∧ IsTagless " here".toList ∧
      ∀ summary, normalize summary ("see ".toList ++ (labelled.text ++ " here".toList)) ≠
        normalize summary ("see ".toList ++ (labelled.argument ++ " here".toList)) :=
  ⟨by decide, by decide, by decide +kernel⟩

end Line

end InlineTag

end JavaSignatures.Markup
