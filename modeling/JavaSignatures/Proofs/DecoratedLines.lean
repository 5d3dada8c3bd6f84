import JavaSignatures.Proofs.BlankEdges
import JavaSignatures.Proofs.BlockTags
import JavaSignatures.Proofs.SettledDescriptions

set_option autoImplicit false

/-!
# Descriptions of decorated lines

The lines of a comment stand between `/**` and `*/`, each behind white space, a star and a space
(`DecoratedLine.comment`).  None of this shows: the normal form is that of the lines alone
(`DecoratedLine.normalize_bare_comment`).  The description is the same too, provided that the lines
alone do not begin or end, blanks aside, with what is taken for a leftover of delimiters
(`DecoratedLine.describe?_comment`); in the comment the stars stand around it.
-/

namespace JavaSignatures.Text

open JavaSignatures.Character

/-! ## The ends of trimmed texts -/

theorem mem_getLast?_of_isSuffix {part text : List Char} (h : part <:+ text) {c : Char}
    (hc : c ∈ part.getLast?) : c ∈ text.getLast? := by
  obtain ⟨front, rfl⟩ := h
  rw [List.getLast?_append, show part.getLast? = some c from hc]
  rfl

theorem head?_dropWhile_isBlank (text : List Char) :
    (text.dropWhile isBlank).head? = text.find? fun c => !isBlank c := by
  simp [List.find?_eq_head?_dropWhile_not]

/-- A trimmed text begins with the first character that is no blank. -/
theorem head?_trim (text : List Char) : (trim text).head? = text.find? fun c => !isBlank c := by
  rw [← head?_dropWhile_isBlank, trim]
  cases hrest : text.dropWhile isBlank with
  | nil => rfl
  | cons c rest =>
    have hc : isBlank c = false := by
      have hnot := List.head?_dropWhile_not isBlank text
      rwa [hrest] at hnot
    rw [← List.singleton_append, trimEnd_append_of_stays (by simpa using hc)]
    rfl

/-- A trimmed text ends with the last character that is no blank. -/
theorem getLast?_trim (text : List Char) :
    (trim text).getLast? = text.reverse.find? fun c => !isBlank c := by
  have hblanks : (text.takeWhile isBlank).reverse.find? (fun c => !isBlank c) = none := by
    simpa using fun c hc => List.mem_takeWhile_imp hc
  conv_rhs => rw [← List.takeWhile_append_dropWhile (p := isBlank) (l := text)]
  rw [List.reverse_append, List.find?_append, hblanks, Option.or_none, ← head?_dropWhile_isBlank,
    trim, trimEnd, List.getLast?_reverse]

/-! ## Searching joined parts -/

theorem find?_intercalate {p : Char → Bool} {separator : Char} (hp : p separator = false)
    (parts : List (List Char)) :
    ([separator].intercalate parts).find? p = parts.findSome? fun part => part.find? p := by
  induction parts with
  | nil => rfl
  | cons part rest ih =>
    cases rest with
    | nil => cases hfind : part.find? p <;> simp [hfind]
    | cons next rest =>
      rw [List.intercalate_cons_cons, List.find?_append, List.find?_append, ih,
        List.findSome?_cons (a := part)]
      cases part.find? p <;> simp [hp]

theorem reverse_intercalate (separator : Char) (parts : List (List Char)) :
    ([separator].intercalate parts).reverse =
      [separator].intercalate (parts.reverse.map List.reverse) := by
  induction parts with
  | nil => rfl
  | cons part rest ih =>
    cases rest with
    | nil => simp
    | cons next rest =>
      have hne : (next :: rest).reverse.map List.reverse ≠ [] := by simp
      rw [List.intercalate_cons_cons, List.reverse_append, List.reverse_append, ih,
        List.reverse_cons (a := part), List.map_append, List.map_singleton,
        intercalate_append hne (by simp), List.intercalate_singleton, List.append_assoc]
      rfl

end JavaSignatures.Text

namespace JavaSignatures

open JavaSignatures.Character Markup

/-! ## Lines that begin or end the text -/

/-- The first line that is not blank. -/
def firstLine? (lines : List (List Char)) : Option (List Char) :=
  lines.find? fun line => !Text.isBlankText line

/-- The last line that is not blank. -/
def lastLine? (lines : List (List Char)) : Option (List Char) := firstLine? lines.reverse

/-- Blanks aside, the lines do not begin or end with what is taken for a leftover of delimiters. -/
structure HasPlainEnds (lines : List (List Char)) : Prop where
  start : ∀ line ∈ firstLine? lines, ∀ c ∈ (Text.trim line).head?, c ∉ ['}', '-', '/']
  ending : ∀ line ∈ lastLine? lines, ∀ c ∈ (Text.trim line).getLast?, c ∉ ['-', '/']

theorem findSome?_eq_firstLine? {f : List Char → Option Char}
    (hf : ∀ line, f line = none ↔ Text.isBlankText line = true) (lines : List (List Char)) :
    lines.findSome? f = (firstLine? lines).bind f := by
  induction lines with
  | nil => rfl
  | cons line rest ih =>
    rw [List.findSome?_cons, firstLine?, List.find?_cons]
    cases hblank : Text.isBlankText line with
    | true =>
      rw [(hf line).mpr hblank]
      exact ih
    | false =>
      obtain ⟨c, hc⟩ := Option.ne_none_iff_exists'.mp fun hnone => by
        rw [(hf line).mp hnone] at hblank
        contradiction
      simp [hc]

theorem head?_trim_intercalate (lines : List (List Char)) :
    (Text.trim (['\n'].intercalate lines)).head? =
      (firstLine? lines).bind fun line => (Text.trim line).head? := by
  have hbreak : (!isBlank '\n') = false := by decide
  simp only [Text.head?_trim]
  rw [Text.find?_intercalate hbreak, findSome?_eq_firstLine?]
  simp [Text.isBlankText]

theorem getLast?_trim_intercalate (lines : List (List Char)) :
    (Text.trim (['\n'].intercalate lines)).getLast? =
      (lastLine? lines).bind fun line => (Text.trim line).getLast? := by
  have hbreak : (!isBlank '\n') = false := by decide
  simp only [Text.getLast?_trim]
  rw [Text.reverse_intercalate, Text.find?_intercalate hbreak, List.findSome?_map, lastLine?,
    findSome?_eq_firstLine?]
  · rfl
  · simp [Text.isBlankText]

/-! ## Clearing the ends -/

namespace Description

theorem bare_trim (text : List Char) : bare (Text.trim text) = bare text := by
  obtain ⟨blanks, hblanks, hrest⟩ := Text.exists_append_trimEnd isBlank (text.dropWhile isBlank)
  have hfront : ∀ c ∈ text.takeWhile isBlank,
      (isBlank c || c == '}' || c == '-' || c == '/') = true := by
    intro c hc
    simp [List.mem_takeWhile_imp hc]
  have hback : ∀ c ∈ blanks, (isBlank c || c == '-' || c == '/') = true := fun c hc => by
    simp [hblanks c hc]
  conv_rhs =>
    rw [← List.takeWhile_append_dropWhile (p := isBlank) (l := text), hrest]
  rw [bare, bare, List.dropWhile_append_of_pos hfront, ← Text.trim, List.dropWhile_append]
  split
  next hempty =>
    rw [List.isEmpty_iff.mp hempty, List.dropWhile_eq_nil_iff.mpr]
    intro c hc
    simp [hblanks c hc]
  next => rw [Text.trimEnd_append_of_all _ hback]

/-- Only blanks are cleared off lines with plain ends. -/
theorem bare_intercalate {lines : List (List Char)} (h : HasPlainEnds lines) :
    bare (['\n'].intercalate lines) = Text.trim (['\n'].intercalate lines) := by
  rw [← bare_trim, bare_eq_self_iff (Text.isTrimmed_trim _), head?_trim_intercalate,
    getLast?_trim_intercalate]
  constructor
  · intro c hc
    obtain ⟨line, hline, hc⟩ := Option.bind_eq_some_iff.mp hc
    exact h.start line hline c hc
  · intro c hc
    obtain ⟨line, hline, hc⟩ := Option.bind_eq_some_iff.mp hc
    exact h.ending line hline c hc

end Description

/-! ## Undecorated lines -/

theorem Markup.undecorate_eq_content (line : List Char) :
    undecorate line = Text.trim (Text.trimEnd (· == '*') (DocComment.content line)) := by
  set rest := (Text.trim line).dropWhile (· == '*') with hrest
  have hlast : ∀ c ∈ (rest.dropWhile isBlank).getLast?, isBlank c = false := by
    intro c hc
    have hsuffix : rest.dropWhile isBlank <:+ Text.trim line :=
      (List.dropWhile_suffix _).trans (List.dropWhile_suffix _)
    exact (Text.isTrimmed_trim line).last c (Text.mem_getLast?_of_isSuffix hsuffix hc)
  have hcontent : DocComment.content line = rest.dropWhile isBlank :=
    Text.trimEnd_eq_self_iff.mpr hlast
  have hblank : ∀ c ∈ rest.takeWhile isBlank, isBlank c = true := fun c hc =>
    List.mem_takeWhile_imp hc
  have hstays : ∀ c ∈ rest.takeWhile isBlank, (c == '*') = false := by
    intro c hc
    refine beq_eq_false_iff_ne.mpr ?_
    rintro rfl
    exact absurd (hblank _ hc) (by decide)
  rw [undecorate, ← hrest, hcontent]
  conv_lhs => rw [← List.takeWhile_append_dropWhile (p := isBlank) (l := rest)]
  rw [Text.trimEnd_append_of_stays hstays, Text.trim_blanks_append hblank]

/-! ## Decorated lines -/

/-- A line of a comment, without its line feed, and the white space in front of the star that it
stands behind. -/
structure DecoratedLine where
  margin : Margin
  text : List Char
  isOneLine : '\n' ∉ text
  startsNoStar : (Text.trim text).head? ≠ some '*'

namespace DecoratedLine

/-- The line as it stands in the comment. -/
def line (decorated : DecoratedLine) : List Char := decorated.margin.line decorated.text

/-- The lines joined by line feeds. -/
def plain (lines : List DecoratedLine) : List Char := ['\n'].intercalate (lines.map text)

/-- The comment with the lines. -/
def comment (lines : List DecoratedLine) : List Char :=
  ['\n'].intercalate ("/**".toList :: lines.map line ++ [" */".toList])

theorem undecorate_line (decorated : DecoratedLine) :
    undecorate decorated.line = undecorate decorated.text := by
  have hhead : ∀ c ∈ (Text.trim decorated.text).head?, (c == '*') = false := by
    intro c hc
    refine beq_eq_false_iff_ne.mpr ?_
    rintro rfl
    exact decorated.startsNoStar hc
  rw [Markup.undecorate_eq_content, line, Margin.content_line, undecorate,
    Text.dropWhile_of_head? hhead]

/-- The lines between the slashes of the comment. -/
def innerLines (lines : List DecoratedLine) : List (List Char) :=
  "**".toList :: lines.map line ++ [" *".toList]

/-- Clearing the ends of a comment takes its slashes off; the stars next to them stay. -/
theorem bare_comment (lines : List DecoratedLine) :
    Description.bare (comment lines) = ['\n'].intercalate (innerLines lines) := by
  set inner := ['\n'].intercalate (innerLines lines) with hinner
  have hcomment : comment lines = '/' :: (inner ++ ['/']) := by
    have hend : " */".toList = " *".toList ++ ['/'] := by decide
    have hstart : "/**".toList = ['/'] ++ "**".toList := by decide
    rw [comment, hend, Text.intercalate_concat_append, hstart, List.cons_append,
      Text.intercalate_append_cons]
    rfl
  have hfirst : ∃ rest, inner = '*' :: rest := by
    rw [hinner, innerLines]
    cases lines with
    | nil => exact ⟨_, rfl⟩
    | cons line lines => exact ⟨_, rfl⟩
  have hlast : ∃ front, inner = front ++ ['*'] :=
    ⟨_, Text.intercalate_concat_append ['\n'] ("**".toList :: lines.map line) [' '] ['*']⟩
  have hstar : isBlank '*' = false := by decide
  rw [hcomment, Description.bare, List.dropWhile_cons_of_pos (by simp)]
  obtain ⟨rest, hrest⟩ := hfirst
  have hdrop : (inner ++ ['/']).dropWhile
      (fun c => isBlank c || c == '}' || c == '-' || c == '/') = inner ++ ['/'] := by
    rw [hrest]
    exact List.dropWhile_cons_of_neg (by simp [hstar])
  obtain ⟨front, hfront⟩ := hlast
  rw [hdrop, Text.trimEnd_eq_rdropWhile, List.rdropWhile_concat_pos _ _ _ (by simp), hfront,
    List.rdropWhile_concat_neg _ _ _ (by simp [hstar])]

theorem not_mem_innerLines {lines : List DecoratedLine} {part : List Char}
    (h : part ∈ innerLines lines) : '\n' ∉ part := by
  simp only [innerLines, List.mem_append, List.mem_cons, List.mem_map, List.not_mem_nil,
    or_false] at h
  rcases h with (rfl | ⟨decorated, -, rfl⟩) | rfl
  · decide
  · simp [line, Margin.line, decorated.margin.isOneLine, decorated.isOneLine]
  · decide

/-- The decoration does not show in the normal form. -/
theorem normalize_bare_comment (summary : Bool) (lines : List DecoratedLine) :
    normalize summary (Description.bare (comment lines)) = normalize summary (plain lines) := by
  have hlines : (lines.map line).map undecorate = (lines.map text).map undecorate := by
    rw [List.map_map, List.map_map]
    refine List.map_congr_left fun decorated _ => ?_
    rw [Function.comp_apply, undecorate_line, Function.comp_apply]
  have hfirst : undecorate "**".toList = [] := by decide
  have hlast : undecorate " *".toList = [] := by decide
  have hcomment : normalize summary (Description.bare (comment lines)) =
      plainLine (descriptionOf summary ((lines.map text).map undecorate)) := by
    rw [bare_comment, normalize_eq,
      List.splitOn_intercalate '\n' (fun _ => not_mem_innerLines) (by simp [innerLines]),
      innerLines, List.map_append, List.map_cons, hfirst, hlines, List.map_singleton, hlast,
      List.cons_append, plainLine_nil_cons, plainLine_concat_nil]
  rw [hcomment, normalize_eq, plain]
  cases lines with
  | nil => exact (plainLine_nil_cons summary []).symm
  | cons first rest =>
    rw [List.splitOn_intercalate '\n' (fun part hpart => ?_) (by simp)]
    obtain ⟨decorated, -, rfl⟩ := List.mem_map.mp hpart
    exact decorated.isOneLine

/-- The description of a comment is that of its lines alone. -/
theorem describe?_comment (summary : Bool) {lines : List DecoratedLine}
    (h : HasPlainEnds (lines.map text)) :
    Describer.describe? {} summary (some (String.ofList (comment lines))) =
      Describer.describe? {} summary (some (String.ofList (plain lines))) := by
  have hplain : normalize summary (Description.bare (plain lines)) =
      normalize summary (plain lines) := by
    rw [plain, Description.bare_intercalate h, normalize_trim]
  rw [← String.toList_inj, Describer.toList_describe?, Describer.toList_describe?,
    Option.getD_some, Option.getD_some, String.toList_ofList, String.toList_ofList,
    Describer.describe_eq, Describer.describe_eq, normalize_bare_comment, hplain]

theorem lineFeed_not_mem_space : '\n' ∉ [' '] := by decide

/-- One space in front of the star. -/
def oneSpace : Margin := ⟨[' '], isBlank_of_mem_space, lineFeed_not_mem_space⟩

/-- Lines with markup, blank lines among and behind them, and a star at the end of one. -/
def evidence : List DecoratedLine :=
  [{ margin := oneSpace
     text := "  Adds {@link Evidence} *".toList
     isOneLine := by decide
     startsNoStar := by decide },
   { margin := ⟨['\t', ' '], by decide, by decide⟩
     text := "to a <b>case".toList
     isOneLine := by decide
     startsNoStar := by decide },
   { margin := ⟨['\t', '\t'], by decide, by decide⟩
     text := "@see Case</b>".toList
     isOneLine := by decide
     startsNoStar := by decide },
   { margin := oneSpace
     text := "file</b> 2. ".toList
     isOneLine := by decide
     startsNoStar := by decide },
   { margin := oneSpace
     text := [' ']
     isOneLine := lineFeed_not_mem_space
     startsNoStar := by decide }]

theorem describe?_comment_evidence :
    let raw := "/**\n *   Adds {@link Evidence} *\n\t * to a <b>case\n\t\t* @see Case</b>\n" ++
      " * file</b> 2. \n *  \n */"
    let alone := "  Adds {@link Evidence} *\nto a <b>case\n@see Case</b>\nfile</b> 2. \n "
    HasPlainEnds (evidence.map text) ∧ String.ofList (comment evidence) = raw ∧
      String.ofList (plain evidence) = alone ∧
      ∀ summary, Describer.describe? {} summary (some raw) =
        Describer.describe? {} summary (some alone) := by
  intro raw alone
  have hends : HasPlainEnds (evidence.map text) := ⟨by decide, by decide⟩
  have hraw : String.ofList (comment evidence) = raw := by decide
  have halone : String.ofList (plain evidence) = alone := by decide
  refine ⟨hends, hraw, halone, fun summary => ?_⟩
  rw [← hraw, ← halone]
  exact describe?_comment summary hends

/-- A line that ends with a dash and a blank. -/
def dashed : DecoratedLine where
  margin := oneSpace
  text := "x- ".toList
  isOneLine := by decide
  startsNoStar := by decide

/-- A dash with a blank behind it is cleared off the line alone (`X`), while in the comment the star
of the delimiter stands behind both (`X-`). -/
theorem describe?_comment_dashed_ne :
    (∀ line ∈ firstLine? [dashed.text], ∀ c ∈ (Text.trim line).head?, c ∉ ['}', '-', '/']) ∧
      (∀ line ∈ lastLine? [dashed.text], ∀ c ∈ line.getLast?, c ∉ ['-', '/']) ∧
      ∀ summary, Describer.describe? {} summary (some (String.ofList (comment [dashed]))) ≠
        Describer.describe? {} summary (some (String.ofList (plain [dashed]))) := by
  decide

end DecoratedLine

end JavaSignatures
