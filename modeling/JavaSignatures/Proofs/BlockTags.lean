import JavaSignatures.Comment.Block
import JavaSignatures.Proofs.CharacterClasses
import JavaSignatures.Proofs.TextParts

set_option autoImplicit false

/-!
# Block tags read back from a comment

A comment is written line by line, each line behind white space, a star and a space: first lines
that describe, then the tags, each with the lines that continue its value (`WrittenComment`).  What
is read of such a comment is the tags as they were written (`WrittenComment.ofText_text`), whatever
else the lines hold.
-/

namespace JavaSignatures

open JavaSignatures.Character

/-! ## Written comments -/

/-- White space in front of the star of a line. -/
structure Margin where
  blanks : List Char
  areBlank : ∀ c ∈ blanks, isBlank c = true
  isOneLine : '\n' ∉ blanks

/-- A text on one line without white space around it. -/
structure LineText where
  text : List Char
  isTrimmed : Text.IsTrimmed text
  isOneLine : '\n' ∉ text

/-- A line that opens no tag. -/
structure PlainLine extends LineText where
  margin : Margin
  opensNoTag : BlockTag.opens text = false

/-- A tag with its value in segments, each on a line of its own.  Only the first segment may be
empty. -/
structure WrittenTag where
  margin : Margin
  name : List Char
  first : LineText
  later : List PlainLine
  name_isSolid : ∀ c ∈ name, isBlank c = false
  later_ne_nil : ∀ line ∈ later, line.text ≠ []

/-- A comment with lines that describe and tags below them. -/
structure WrittenComment where
  description : List PlainLine
  tags : List WrittenTag

/-- A line behind white space, a star and a space. -/
def Margin.line (margin : Margin) (text : List Char) : List Char :=
  margin.blanks ++ '*' :: ' ' :: text

def PlainLine.line (line : PlainLine) : List Char := line.margin.line line.text

namespace WrittenTag

/-- The line that opens the tag. -/
def heading (tag : WrittenTag) : List Char := '@' :: tag.name ++ ' ' :: tag.first.text

/-- The lines of the tag. -/
def lines (tag : WrittenTag) : List (List Char) :=
  tag.margin.line tag.heading :: tag.later.map PlainLine.line

/-- The segments of the value. -/
def segments (tag : WrittenTag) : List (List Char) :=
  tag.first.text :: tag.later.map fun line => line.text

/-- The value: the segments that are not empty, with single spaces between them. -/
def value (tag : WrittenTag) : String :=
  String.ofList ([' '].intercalate (tag.segments.filter fun segment => !segment.isEmpty))

/-- What the tag says. -/
def tag (tag : WrittenTag) : BlockTag := ⟨String.ofList ('@' :: tag.name), tag.value⟩

end WrittenTag

namespace WrittenComment

/-- The lines between the first and the last one. -/
def lines (comment : WrittenComment) : List (List Char) :=
  comment.description.map PlainLine.line ++ comment.tags.flatMap WrittenTag.lines

/-- The text of the comment. -/
def text (comment : WrittenComment) : String :=
  String.ofList (['\n'].intercalate ("/**".toList :: comment.lines ++ [" */".toList]))

end WrittenComment

/-! ## What a line says -/

/-- The content of a line is its text without the white space around it. -/
theorem Margin.content_line (margin : Margin) (text : List Char) :
    DocComment.content (margin.line text) = Text.trim text := by
  unfold DocComment.content line
  rw [Text.trim_blanks_append margin.areBlank]
  have hstar : ('*' :: ' ' :: text).dropWhile isBlank = '*' :: ' ' :: text :=
    List.dropWhile_cons_of_neg (by decide +kernel)
  obtain ⟨blanks, hblanks, hall⟩ := Text.exists_append_trimEnd isBlank ('*' :: ' ' :: text)
  have htrim : Text.trim ('*' :: ' ' :: text) = Text.trimEnd isBlank ('*' :: ' ' :: text) := by
    rw [Text.trim, hstar]
  rw [htrim]
  -- the star stays, and what is left behind it is the text and blanks around it
  cases hkept : Text.trimEnd isBlank ('*' :: ' ' :: text) with
  | nil =>
    rw [hkept, List.nil_append] at hall
    exact absurd (hblanks '*' (hall ▸ List.mem_cons_self)) (by decide +kernel)
  | cons c more =>
    rw [hkept, List.cons_append, List.cons.injEq] at hall
    obtain ⟨rfl, hmore⟩ := hall
    have hnext : more.dropWhile (· == '*') = more := by
      cases more with
      | nil => rfl
      | cons c more =>
        rw [List.cons_append, List.cons.injEq] at hmore
        exact List.dropWhile_cons_of_neg (by rw [← hmore.1]; decide)
    have hspace : ∀ c ∈ [' '], isBlank c = true := by decide +kernel
    rw [List.dropWhile_cons_of_pos rfl, hnext, ← Text.trim_append_blanks more hblanks, ← hmore,
      ← List.singleton_append, Text.trim_blanks_append hspace]

/-- A carriage return at the end of a line does not matter. -/
theorem DocComment.content_dropReturn (line : List Char) :
    content (Text.dropReturn line) = content line := by
  rw [content, Text.trim_dropReturn, content]

theorem PlainLine.content_line (line : PlainLine) : DocComment.content line.line = line.text := by
  rw [PlainLine.line, Margin.content_line, Text.trim_eq_self_iff.mpr line.isTrimmed]

namespace WrittenTag

variable (tag : WrittenTag)

/-- A tag is opened by its heading, and the lines that continue it add their segments. -/
theorem content_heading :
    ∃ heading, DocComment.content (tag.margin.line tag.heading) = '@' :: heading ∧
      ∀ continuation, BlockTag.ofLines heading continuation =
        ⟨String.ofList ('@' :: tag.name), String.ofList ([' '].intercalate
          ((tag.first.text :: continuation).filter fun part => !part.isEmpty))⟩ := by
  rw [Margin.content_line]
  have hfirst : Text.trim tag.first.text = tag.first.text :=
    Text.trim_eq_self_iff.mpr tag.first.isTrimmed
  have hspace : isBlank ' ' = true := by decide +kernel
  have hat : isBlank '@' = false := by decide +kernel
  unfold heading
  by_cases hempty : tag.first.text = []
  · have hname : Text.IsTrimmed ('@' :: tag.name) := by
      refine ⟨by simpa using hat, fun c hc => ?_⟩
      rcases List.mem_cons.mp (List.mem_of_getLast? hc) with rfl | hmem
      · exact hat
      · exact tag.name_isSolid c hmem
    have hblank : ∀ c ∈ [' '], isBlank c = true := by simpa using hspace
    rw [hempty, Text.trim_append_blanks _ hblank, Text.trim_eq_self_iff.mpr hname]
    refine ⟨tag.name, rfl, fun continuation => ?_⟩
    rw [BlockTag.ofLines, Text.cut?_eq_none tag.name_isSolid, Option.getD_none]
    rfl
  · have hheading : Text.IsTrimmed ('@' :: tag.name ++ ' ' :: tag.first.text) := by
      refine ⟨by simpa using hat, fun c hc => tag.first.isTrimmed.last c ?_⟩
      rwa [← List.singleton_append (x := ' '), ← List.append_assoc,
        List.getLast?_append_of_ne_nil _ hempty] at hc
    rw [Text.trim_eq_self_iff.mpr hheading]
    refine ⟨tag.name ++ ' ' :: tag.first.text, rfl, fun continuation => ?_⟩
    rw [BlockTag.ofLines, Text.cut?_append_cons tag.name_isSolid hspace, Option.getD_some]
    dsimp only
    rw [hfirst]

/-- The contents of the lines that continue the tag. -/
def laterTexts : List (List Char) := tag.later.map fun line => line.text

theorem map_content_lines :
    tag.lines.map DocComment.content =
      DocComment.content (tag.margin.line tag.heading) :: tag.laterTexts := by
  simp only [lines, laterTexts, List.map_cons, List.map_map]
  congr 2
  funext line
  exact line.content_line

end WrittenTag

namespace BlockTag

/-- Lines that open no tag are passed over. -/
theorem ofComment_append {lines : List (List Char)} (h : ∀ line ∈ lines, opens line = false)
    (rest : List (List Char)) : ofComment (lines ++ rest) = ofComment rest := by
  induction lines with
  | nil => rfl
  | cons line lines ih =>
    have hline := h line List.mem_cons_self
    have hrest := ih fun other hother => h other (List.mem_cons_of_mem _ hother)
    rw [List.cons_append, ofComment, hrest]
    rintro heading rfl
    exact absurd hline (by simp [opens])

/-- Each tag is read with its own lines.  An empty line ends the comment. -/
theorem ofComment_tags (tags : List WrittenTag) :
    ofComment ((tags.flatMap WrittenTag.lines).map DocComment.content ++ [[]]) =
      tags.map WrittenTag.tag := by
  induction tags with
  | nil => rfl
  | cons tag tags ih =>
    obtain ⟨heading, hheading, hread⟩ := tag.content_heading
    have hlater : ∀ line ∈ tag.laterTexts, opens line = false := by
      intro text htext
      obtain ⟨line, -, rfl⟩ := List.mem_map.mp htext
      exact line.opensNoTag
    have hkept : ∀ line ∈ tag.laterTexts, (!opens line) = true := fun line hline => by
      simp [hlater line hline]
    -- the lines up to the next tag are those of this one, and perhaps the last line
    have hnext : ∀ rest, rest = (tags.flatMap WrittenTag.lines).map DocComment.content ++ [[]] →
        (rest.takeWhile fun next => !opens next).filter (fun part => !part.isEmpty) = [] := by
      rintro rest rfl
      cases tags with
      | nil => rfl
      | cons next tags =>
        obtain ⟨heading, hheading, -⟩ := next.content_heading
        rw [List.flatMap_cons, List.map_append, next.map_content_lines, hheading]
        rfl
    rw [List.flatMap_cons, List.map_append, tag.map_content_lines, hheading, List.cons_append,
      List.cons_append, List.append_assoc, ofComment, hread, List.takeWhile_append_of_pos hkept,
      ofComment_append hlater, ih, List.map_cons]
    congr 2
    rw [← List.cons_append, List.filter_append, hnext _ rfl, List.append_nil]
    rfl

end BlockTag

/-! ## The whole comment -/

namespace WrittenComment

variable (comment : WrittenComment)

/-- The text between the delimiters. -/
def inner : List Char := ['\n'].intercalate ([] :: comment.lines ++ [[' ']])

theorem toList_text : comment.text.toList = "/**".toList ++ (comment.inner ++ "*/".toList) := by
  have hend : " */".toList = [' '] ++ "*/".toList := by decide
  rw [text, String.toList_ofList, hend, Text.intercalate_concat_append, ← List.append_assoc, inner,
    List.cons_append, List.cons_append, ← Text.intercalate_append_cons, List.append_nil]

theorem body_text : DocComment.body comment.text.toList = comment.inner := by
  have hstart : ∃ rest, comment.inner = '\n' :: rest := by
    unfold inner
    cases comment.lines with
    | nil => exact ⟨_, rfl⟩
    | cons line lines => exact ⟨_, rfl⟩
  have hend : ∃ rest, comment.inner = rest ++ [' '] :=
    ⟨_, Text.intercalate_concat_append ['\n'] ([] :: comment.lines) [] [' ']⟩
  have htrimmed : Text.IsTrimmed ("/**".toList ++ (comment.inner ++ "*/".toList)) := by
    have hslash : isBlank '/' = false := by decide +kernel
    refine ⟨by simpa using hslash, ?_⟩
    rw [← List.append_assoc, List.getLast?_append_of_ne_nil _ (by simp)]
    simpa using hslash
  rw [toList_text, DocComment.body, Text.trim_eq_self_iff.mpr htrimmed]
  obtain ⟨rest, hrest⟩ := hstart
  have hopen : ¬['/', '*', '*'] <+: comment.inner ++ ['*', '/'] := by
    rw [hrest]
    simp
  obtain ⟨rest, hrest⟩ := hend
  have hclose : ¬['*', '/'] <:+ comment.inner := by
    rw [hrest, ← List.reverse_prefix]
    simp
  change Text.dropEnds ['*', '/'] (Text.dropStarts ['/', '*', '*']
    (['/', '*', '*'] ++ (comment.inner ++ ['*', '/']))) = comment.inner
  rw [Text.dropStarts_append (by simp), Text.dropStarts_eq_self hopen,
    Text.dropEnds_append (by simp), Text.dropEnds_eq_self hclose]

theorem not_mem_lines {line : List Char} (h : line ∈ comment.lines) : '\n' ∉ line := by
  have hline : ∀ (margin : Margin) (text : List Char), '\n' ∉ text → '\n' ∉ margin.line text := by
    intro margin text htext
    simp [Margin.line, margin.isOneLine, htext]
  rcases List.mem_append.mp h with h | h
  · obtain ⟨plain, -, rfl⟩ := List.mem_map.mp h
    exact hline _ _ plain.isOneLine
  · obtain ⟨tag, -, h⟩ := List.mem_flatMap.mp h
    rcases List.mem_cons.mp h with rfl | h
    · refine hline _ _ ?_
      have hname : '\n' ∉ tag.name := fun hmem =>
        absurd (tag.name_isSolid _ hmem) (by decide +kernel)
      simp [WrittenTag.heading, hname, tag.first.isOneLine]
    · obtain ⟨plain, -, rfl⟩ := List.mem_map.mp h
      exact hline _ _ plain.isOneLine

/-- What the lines of the comment say. -/
theorem map_content_lines :
    (Text.lines comment.inner).map DocComment.content =
      ([] :: comment.description.map fun line => line.text) ++
        ((comment.tags.flatMap WrittenTag.lines).map DocComment.content ++ [[]]) := by
  have hparts : ∀ part ∈ [] :: comment.lines, '\n' ∉ part := by
    intro part hpart
    rcases List.mem_cons.mp hpart with rfl | hpart
    · simp
    · exact comment.not_mem_lines hpart
  have hdescription : (comment.description.map PlainLine.line).map DocComment.content =
      comment.description.map fun line => line.text := by
    rw [List.map_map]
    congr 1
    funext line
    exact line.content_line
  rw [inner, Text.lines_intercalate hparts (by simp) (by simp), List.map_append, List.map_map]
  have hreturn : DocComment.content ∘ Text.dropReturn = DocComment.content :=
    funext DocComment.content_dropReturn
  rw [hreturn, List.map_cons, lines, List.map_append, hdescription]
  have hempty : DocComment.content [] = [] := rfl
  have hblank : DocComment.content [' '] = [] := by decide +kernel
  simp [hempty, hblank]

/-- The tags of a written comment are read back in order, each with its value, and the values of the
tags with a name are found under the name. -/
theorem ofText_text :
    DocComment.ofText comment.text = ⟨comment.text, comment.tags.map WrittenTag.tag⟩ ∧
      ∀ name : List Char,
        (DocComment.ofText comment.text).tagValues (String.ofList ('@' :: name)) =
          (comment.tags.filter fun tag => tag.name == name).map WrittenTag.value := by
  have hdescription : ∀ line ∈ [] :: comment.description.map (fun line => line.text),
      BlockTag.opens line = false := by
    intro text htext
    rcases List.mem_cons.mp htext with rfl | htext
    · rfl
    · obtain ⟨line, -, rfl⟩ := List.mem_map.mp htext
      exact line.opensNoTag
  have hread : DocComment.ofText comment.text =
      ⟨comment.text, comment.tags.map WrittenTag.tag⟩ := by
    rw [DocComment.ofText, body_text, map_content_lines, BlockTag.ofComment_append hdescription,
      BlockTag.ofComment_tags]
  refine ⟨hread, fun name => ?_⟩
  rw [hread, DocComment.tagValues, List.filter_map, List.map_map]
  have hname : (fun tag : BlockTag => tag.name == String.ofList ('@' :: name)) ∘ WrittenTag.tag =
      fun tag => tag.name == name := by
    funext tag
    rw [Function.comp_apply, Bool.eq_iff_iff, beq_iff_eq, beq_iff_eq]
    simp only [WrittenTag.tag, String.ofList_inj, List.cons.injEq, true_and]
  rw [hname]
  rfl

/-- A comment with a tag on two lines, and a tag whose value begins below its name. -/
def evidence : WrittenComment where
  description :=
    [{ margin := ⟨[' '], by decide +kernel, by decide⟩
       text := "Adds evidence.".toList
       isTrimmed := ⟨by decide +kernel, by decide +kernel⟩
       isOneLine := by decide
       opensNoTag := by decide }]
  tags :=
    [{ margin := ⟨[' '], by decide +kernel, by decide⟩
       name := "param".toList
       first :=
         ⟨"id the key @see".toList, ⟨by decide +kernel, by decide +kernel⟩, by decide⟩
       later :=
         [{ margin := ⟨['\t'], by decide +kernel, by decide⟩
            text := "**of** it */".toList
            isTrimmed := ⟨by decide +kernel, by decide +kernel⟩
            isOneLine := by decide
            opensNoTag := by decide }]
       name_isSolid := by decide +kernel
       later_ne_nil := by decide },
     { margin := ⟨[], by decide +kernel, by decide⟩
       name := "return".toList
       first := ⟨[], ⟨by decide, by decide⟩, by decide⟩
       later :=
         [{ margin := ⟨[' ', ' '], by decide +kernel, by decide⟩
            text := "nothing".toList
            isTrimmed := ⟨by decide +kernel, by decide +kernel⟩
            isOneLine := by decide
            opensNoTag := by decide }]
       name_isSolid := by decide +kernel
       later_ne_nil := by decide }]

theorem ofText_text_evidence :
    let text :=
      "/**\n * Adds evidence.\n * @param id the key @see\n\t* **of** it */\n* @return \n  * nothing\n */"
    evidence.text = text ∧
      (DocComment.ofText text).tags =
        [⟨"@param", "id the key @see **of** it */"⟩, ⟨"@return", "nothing"⟩] ∧
      (DocComment.ofText text).tagValues "@return" = ["nothing"] := by
  intro text
  have htext : evidence.text = text := by decide +kernel
  obtain ⟨hread, hvalues⟩ := ofText_text evidence
  have hreturn := hvalues "return".toList
  rw [htext] at hread hreturn
  have htags : evidence.tags.map WrittenTag.tag =
      [⟨"@param", "id the key @see **of** it */"⟩, ⟨"@return", "nothing"⟩] := by decide +kernel
  have hnothing : (evidence.tags.filter fun tag => tag.name == "return".toList).map
      WrittenTag.value = ["nothing"] := by decide +kernel
  exact ⟨htext, by rw [hread, htags], hreturn.trans hnothing⟩

end WrittenComment

end JavaSignatures
