import JavaSignatures.Proofs.BlankEdges

set_option autoImplicit false

/-!
# Texts on one line

The normal form of a text that stands on one line.  The decoration of the line is what the text in
front of a firm part and the text behind it leave at the ends (`undecorate_append`,
`normalize_append`).  Where neither elements nor tags begin, every character that is kept is kept
as often as it stands there (`count_normalize`).
-/

namespace JavaSignatures.Text

variable {p : Char → Bool} {front middle back : List Char}

theorem dropWhile_append_of_head? (hne : middle ≠ []) (h : ∀ c ∈ middle.head?, p c = false) :
    (front ++ (middle ++ back)).dropWhile p = front.dropWhile p ++ (middle ++ back) := by
  obtain ⟨c, rest, rfl⟩ := List.exists_cons_of_ne_nil hne
  have hc : p c = false := h c rfl
  exact dropWhile_append_stop hc front (rest ++ back)

theorem trimEnd_append_of_getLast? (hne : middle ≠ []) (h : ∀ c ∈ middle.getLast?, p c = false) :
    trimEnd p (front ++ (middle ++ back)) = front ++ (middle ++ trimEnd p back) := by
  have hhead : ∀ c ∈ middle.reverse.head?, p c = false := by
    rwa [List.head?_reverse]
  rw [trimEnd, List.reverse_append, List.reverse_append, List.append_assoc,
    dropWhile_append_of_head? (by simpa using hne) hhead]
  simp [trimEnd]

end JavaSignatures.Text

namespace JavaSignatures.Markup

open JavaSignatures.Character

/-! ## One line -/

section Line

variable {front middle back line : List Char}

/-- What the decoration leaves of the front of a line. -/
def lead (front : List Char) : List Char :=
  ((front.dropWhile isBlank).dropWhile (· == '*')).dropWhile isBlank

/-- What the decoration leaves of the end of a line. -/
def trail (back : List Char) : List Char :=
  Text.trimEnd isBlank (Text.trimEnd (· == '*') (Text.trimEnd isBlank back))

/-- Neither end of the part is taken for decoration. -/
structure IsFirm (middle : List Char) : Prop where
  ne_nil : middle ≠ []
  head : ∀ c ∈ middle.head?, isBlank c = false ∧ c ≠ '*'
  last : ∀ c ∈ middle.getLast?, isBlank c = false ∧ c ≠ '*'

/-- Decoration is taken off in front of a firm part and behind it. -/
theorem undecorate_append (h : IsFirm middle) :
    undecorate (front ++ (middle ++ back)) = lead front ++ (middle ++ trail back) := by
  have hblankHead : ∀ c ∈ middle.head?, isBlank c = false := fun c hc => (h.head c hc).1
  have hblankLast : ∀ c ∈ middle.getLast?, isBlank c = false := fun c hc => (h.last c hc).1
  have hstarHead : ∀ c ∈ middle.head?, (c == '*') = false := fun c hc => by simp [(h.head c hc).2]
  have hstarLast : ∀ c ∈ middle.getLast?, (c == '*') = false := fun c hc => by
    simp [(h.last c hc).2]
  rw [undecorate, Text.trim, Text.trim, Text.dropWhile_append_of_head? h.ne_nil hblankHead,
    Text.trimEnd_append_of_getLast? h.ne_nil hblankLast,
    Text.dropWhile_append_of_head? h.ne_nil hstarHead,
    Text.trimEnd_append_of_getLast? h.ne_nil hstarLast,
    Text.dropWhile_append_of_head? h.ne_nil hblankHead,
    Text.trimEnd_append_of_getLast? h.ne_nil hblankLast]
  rfl

theorem head?_of_endsDescription (h : endsDescription line = true) : line.head? = some '@' := by
  obtain ⟨tag, htag, hbegins⟩ := List.any_eq_true.mp h
  have hhead : ∀ tag ∈ endingTags, tag.head? = some '@' := by decide
  exact Text.mem_head?_of_isPrefix (List.isPrefixOf_iff_prefix.mp hbegins) (hhead tag htag)

theorem descriptionOf_singleton (summary : Bool) (h : line.head? ≠ some '@') :
    descriptionOf summary [line] = line := by
  have hends : endsDescription line = false := by
    rw [Bool.eq_false_iff]
    exact fun hends => h (head?_of_endsDescription hends)
  have hdescribing : describingLines [line] = [line] := by simp [describingLines, hends, h]
  rw [descriptionOf, hdescribing]
  cases summary <;> simp [firstSentence, List.intercalate_singleton]

/-- The normal form of a text on one line. -/
theorem normalize_of_line (summary : Bool) (hbreak : '\n' ∉ line)
    (h : (undecorate line).head? ≠ some '@') :
    normalize summary line = plainLine (undecorate line) := by
  rw [normalize_eq, List.splitOn_eq_singleton hbreak, List.map_singleton,
    descriptionOf_singleton summary h]

theorem rewritten_of_unmarked (helement : '<' ∉ line) (hat : '@' ∉ line) :
    rewritten line = line.filterMap keep := by
  rw [rewritten, Text.replaceBy_of_not_mem (fun _ => elementRule_eq_none) helement,
    unwrap_of_not_mem (fun _ => id) hat]

/-- The part stands on one line, and neither elements nor tags begin in it. -/
def IsTagless (part : List Char) : Prop := ∀ mark ∈ ['<', '@', '\n'], mark ∉ part

instance (part : List Char) : Decidable (IsTagless part) := Text.decidableForallMem _

namespace IsTagless

variable {part other text : List Char}

theorem noElement (h : IsTagless part) : '<' ∉ part := h '<' (by decide)

theorem noTag (h : IsTagless part) : '@' ∉ part := h '@' (by decide)

theorem isOneLine (h : IsTagless part) : '\n' ∉ part := h '\n' (by decide)

theorem append (hpart : IsTagless part) (hother : IsTagless other) :
    IsTagless (part ++ other) := fun mark hmark => by
  simp [hpart mark hmark, hother mark hmark]

theorem subset (h : IsTagless text) (hpart : part ⊆ text) : IsTagless part :=
  fun mark hmark hmem => h mark hmark (hpart hmem)

end IsTagless

theorem lead_subset (front : List Char) : lead front ⊆ front :=
  ((List.dropWhile_suffix _).trans ((List.dropWhile_suffix _).trans
    (List.dropWhile_suffix _))).subset

theorem trail_subset (back : List Char) : trail back ⊆ back :=
  ((Text.trimEnd_isPrefix ..).trans ((Text.trimEnd_isPrefix ..).trans
    (Text.trimEnd_isPrefix ..))).subset

/-- The normal form of a line whose decoration ends in front of a part and begins behind it. -/
theorem normalize_append (summary : Bool) (hfront : IsTagless front) (hback : IsTagless back)
    (hfirm : IsFirm middle) (hbreak : '\n' ∉ middle) (hhead : middle.head? ≠ some '@') :
    normalize summary (front ++ (middle ++ back)) =
      plainLine (lead front ++ (middle ++ trail back)) := by
  have hline : '\n' ∉ front ++ (middle ++ back) := by
    simp [hfront.isOneLine, hback.isOneLine, hbreak]
  have hstart : (undecorate (front ++ (middle ++ back))).head? ≠ some '@' := by
    rw [undecorate_append hfirm]
    cases hlead : lead front with
    | nil => rwa [List.nil_append, List.head?_append_of_ne_nil _ hfirm.ne_nil]
    | cons c rest =>
      rintro ⟨⟩
      exact hfront.noTag (lead_subset front (hlead ▸ List.mem_cons_self))
  rw [normalize_of_line summary hline hstart, undecorate_append hfirm]

end Line

/-! ## What the normal form of a line keeps -/

section Count

variable {c : Char} {line : List Char}

theorem count_filterMap_keep (hkeep : keep c = some c) (hspace : c ≠ ' ') :
    (line.filterMap keep).count c = line.count c := by
  induction line with
  | nil => rfl
  | cons d rest ih =>
    cases hd : keep d with
    | none =>
      have hne : d ≠ c := fun heq => by simp [heq, hkeep] at hd
      rw [List.filterMap_cons_none hd, ih, List.count_cons_of_ne hne]
    | some e =>
      rw [List.filterMap_cons_some hd, List.count_cons, List.count_cons, ih]
      rcases keep_eq_some hd with rfl | ⟨hblank, rfl⟩
      · rfl
      · have hne : d ≠ c := by
          rintro rfl
          exact hspace (eq_space_of_isBlank hkeep hblank)
        simp [hne, Ne.symm hspace]

theorem count_collapse (hspace : c ≠ ' ') (space : Bool) :
    (collapse space line).count c = line.count c := by
  induction line generalizing space with
  | nil => rfl
  | cons d rest ih =>
    rw [collapse]
    split
    · next hd =>
      rw [eq_of_beq hd, List.count_cons_of_ne (Ne.symm hspace)]
      cases space
      · rw [if_neg (by simp), List.count_cons_of_ne (Ne.symm hspace), ih]
      · exact ih true
    · rw [List.count_cons, List.count_cons, ih]

theorem count_unescape (hslash : c ≠ '\\') : (unescape line).count c = line.count c := by
  induction line with
  | nil => rfl
  | cons d rest ih =>
    rw [unescape_cons]
    split
    · next hescaped =>
      have hd := (isEscapedAddress_cons_iff.mp hescaped).1
      rw [ih, List.count_cons_of_ne (hd ▸ Ne.symm hslash)]
    · rw [List.count_cons, List.count_cons, ih]

theorem count_dropWhile {p : Char → Bool} (hp : p c = false) :
    (line.dropWhile p).count c = line.count c := by
  have hnot : c ∉ line.takeWhile p := fun hc => by
    rw [List.mem_takeWhile_imp hc] at hp
    contradiction
  conv_rhs => rw [← List.takeWhile_append_dropWhile (p := p) (l := line)]
  rw [List.count_append, List.count_eq_zero_of_not_mem hnot, Nat.zero_add]

theorem count_trimEnd {p : Char → Bool} (hp : p c = false) :
    (Text.trimEnd p line).count c = line.count c := by
  rw [Text.trimEnd, List.count_reverse, count_dropWhile hp, List.count_reverse]

theorem count_trim (hblank : isBlank c = false) : (Text.trim line).count c = line.count c := by
  rw [Text.trim, count_trimEnd hblank, count_dropWhile hblank]

theorem undecorate_sublist (line : List Char) : (undecorate line).Sublist line :=
  (Text.trim_sublist _).trans ((Text.trimEnd_isPrefix ..).sublist.trans
    ((List.dropWhile_suffix _).sublist.trans (Text.trim_sublist line)))

theorem count_undecorate (hblank : isBlank c = false) (hstar : c ≠ '*') :
    (undecorate line).count c = line.count c := by
  have hnot : (c == '*') = false := beq_eq_false_iff_ne.mpr hstar
  rw [undecorate, count_trim hblank, count_trimEnd (p := (· == '*')) hnot,
    count_dropWhile (p := (· == '*')) hnot, count_trim hblank]

/-- On a line without markup each character that is kept is kept as often as it stands there;
blanks, stars and backslashes apart. -/
theorem count_normalize (summary : Bool) (hmarks : IsTagless line)
    (hkeep : keep c = some c) (hblank : isBlank c = false) (hstar : c ≠ '*') (hslash : c ≠ '\\') :
    (normalize summary line).count c = line.count c := by
  have hinner : IsTagless (undecorate line) := hmarks.subset (undecorate_sublist line).subset
  have hstart : (undecorate line).head? ≠ some '@' := fun hhead =>
    hinner.noTag (List.mem_of_mem_head? hhead)
  have hspace : c ≠ ' ' := by
    rintro rfl
    exact absurd hblank (by decide)
  rw [normalize_of_line summary hmarks.isOneLine hstart, plainLine,
    rewritten_of_unmarked hinner.noElement hinner.noTag, count_trim hblank,
    count_unescape hslash, count_collapse hspace, count_filterMap_keep hkeep hspace,
    count_undecorate hblank hstar]

end Count

end JavaSignatures.Markup
