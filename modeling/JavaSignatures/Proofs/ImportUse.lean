import JavaSignatures.Proofs.Bodies.Sources
import JavaSignatures.Proofs.ImportAgreement
import JavaSignatures.Proofs.MethodNames

set_option autoImplicit false

/-!
# Imports that are used

An import is asked for nothing but its last part, and only if that part stands in the file as a word
(`SourceFile.beginsIn_texts`).  So an import whose last part is nowhere else in the file can be
replaced by another such import, and two imports with different last parts can be exchanged
(`Session.readsAlike_of_imports`).  Order does matter among imports with the same last part, of
which the first one counts: two imports keep their meaning when they are exchanged unless a third
one between them comes to stand in front (`ImportExchange.KeepsFirst`).
-/

namespace JavaSignatures

/-! ## The last part of a path -/

namespace Name

/-- The text behind its last period. -/
def lastPart (path : String) : String := afterLast '.' path

theorem lastPart_of_hasLast {path name : String} (h : hasLast path name = true)
    (hname : isSimple name = true) : lastPart path = name := by
  have hperiod : '.' ∉ name.toList := fun hmem =>
    absurd ((isNamePart_of_isSimple hname).2 '.' hmem) (by decide)
  obtain ⟨before, hbefore⟩ := List.isSuffixOf_iff_suffix.mp h
  calc lastPart path
      = afterLast '.' (String.ofList (before ++ '.' :: name.toList)) := by
        rw [hbefore, String.ofList_toList, lastPart]
    _ = afterLast '.' name := by rw [afterLast_append, String.ofList_toList]
    _ = name := afterLast_of_not_mem hperiod

end Name

/-! ## Looking up a name among imports -/

namespace ImportScope

/-- Imports of one package agree on a text for whose first part they hold the same import. -/
theorem agreesOn_of_find? {package : Option String} {first second : List String} {text : String}
    (h : Name.isSimple (Name.firstPart text) = true →
      first.find? (Name.hasLast · (Name.firstPart text)) =
        second.find? (Name.hasLast · (Name.firstPart text))) :
    (⟨package, first⟩ : ImportScope).AgreesOn ⟨package, second⟩ text := by
  cases hsimple : Name.isSimple (Name.firstPart text) with
  | false => rw [AgreesOn, resolve_of_not_isSimple _ hsimple, resolve_of_not_isSimple _ hsimple]
  | true =>
    unfold AgreesOn resolve
    rw [h hsimple]
    rfl

variable {before between : List String} {path other name : String}

/-- A path that does not end with the name is passed over. -/
theorem find?_hasLast_cons (hname : Name.isSimple name = true) (h : Name.lastPart path ≠ name)
    (rest : List String) :
    (path :: rest).find? (Name.hasLast · name) = rest.find? (Name.hasLast · name) :=
  List.find?_cons_of_neg (mt (fun hlast => Name.lastPart_of_hasLast hlast hname) h)

/-- Of the imports between two, the first one that ends as the path does, if there is one, is the
path itself or stands behind one in front of both that ends so too. -/
def KeepsFirst (before between : List String) (path : String) : Prop :=
  ∀ found ∈ between.find? (Name.hasLast · (Name.lastPart path)),
    found = path ∨ ∃ earlier ∈ before, Name.hasLast earlier (Name.lastPart path) = true

instance : Decidable (KeepsFirst before between path) :=
  decidable_of_iff
    ((between.find? (Name.hasLast · (Name.lastPart path))).all (fun found => found == path ||
      before.any (Name.hasLast · (Name.lastPart path))) = true) <| by
    cases h : between.find? (Name.hasLast · (Name.lastPart path)) <;>
      simp [KeepsFirst, h]

theorem find?_hasLast_move (hname : Name.isSimple name = true) (hother : Name.lastPart other ≠ name)
    (hkeeps : KeepsFirst before between path) (after : List String) :
    (before ++ path :: (between ++ other :: after)).find? (Name.hasLast · name) =
      (before ++ other :: (between ++ path :: after)).find? (Name.hasLast · name) := by
  rw [List.find?_append, List.find?_append]
  cases hbefore : before.find? (Name.hasLast · name) with
  | some earlier => rfl
  | none =>
    rw [Option.none_or, Option.none_or, find?_hasLast_cons hname hother]
    by_cases hlast : Name.hasLast path name = true
    · -- nothing between the two comes to stand in front of `path`
      obtain rfl := Name.lastPart_of_hasLast hlast hname
      have hhere : ∀ rest, (path :: rest).find? (Name.hasLast · (Name.lastPart path)) = some path :=
        fun rest => List.find?_cons_of_pos hlast
      rw [hhere, List.find?_append, hhere]
      cases hbetween : between.find? (Name.hasLast · (Name.lastPart path)) with
      | none => rfl
      | some found =>
        rcases hkeeps found hbetween with rfl | ⟨earlier, hearlier, hmore⟩
        · rfl
        · exact absurd hmore (List.find?_eq_none.mp hbefore earlier hearlier)
    · have hskip : ∀ rest, (path :: rest).find? (Name.hasLast · name) =
          rest.find? (Name.hasLast · name) := fun rest => List.find?_cons_of_neg hlast
      rw [hskip, List.find?_append, List.find?_append, hskip, find?_hasLast_cons hname hother]

/-- Two imports with different last parts can be exchanged. -/
theorem find?_hasLast_exchange (hne : Name.lastPart path ≠ Name.lastPart other)
    (hpath : KeepsFirst before between path) (hother : KeepsFirst before between other)
    (hname : Name.isSimple name = true) (after : List String) :
    (before ++ path :: (between ++ other :: after)).find? (Name.hasLast · name) =
      (before ++ other :: (between ++ path :: after)).find? (Name.hasLast · name) := by
  by_cases hlast : Name.lastPart other = name
  · exact (find?_hasLast_move hname (fun h => hne (h.trans hlast.symm)) hother after).symm
  · exact find?_hasLast_move hname hlast hpath after

/-- An import that is not asked for can be replaced. -/
theorem find?_hasLast_replace (hpath : Name.lastPart path ≠ name)
    (hother : Name.lastPart other ≠ name) (hname : Name.isSimple name = true)
    (before after : List String) :
    (before ++ path :: after).find? (Name.hasLast · name) =
      (before ++ other :: after).find? (Name.hasLast · name) := by
  rw [List.find?_append, List.find?_append, find?_hasLast_cons hname hpath,
    find?_hasLast_cons hname hother]

end ImportScope

namespace Source

/-! ## Names in outlines -/

namespace Outline

/-- The texts in the types of an outline, but for those of the outlines nested in it. -/
def ownTexts (outline : Outline) : List String :=
  VariableExpr.textsOf outline.head.typeVariables ++ outline.methods.flatMap MethodHead.texts

mutual

/-- Each text in an outline is one of an outline at some depth itself. -/
theorem exists_nested_of_mem_texts (outline : Outline) {text : String} (h : text ∈ outline.texts) :
    ∃ inner, Relation.ReflTransGen (fun outer inner => inner ∈ outer.nested) outline inner ∧
      text ∈ inner.ownTexts := by
  cases outline with
  | mk head methods nested =>
    rw [texts, List.mem_append, List.mem_append] at h
    rcases h with hvariables | hmethods | hnested
    · exact ⟨_, .refl, List.mem_append_left _ hvariables⟩
    · exact ⟨_, .refl, List.mem_append_right _ hmethods⟩
    · obtain ⟨outline, houtline, inner, hinner, htext⟩ := exists_nested_of_mem_textsOf nested hnested
      exact ⟨inner, hinner.head houtline, htext⟩
termination_by structural outline

theorem exists_nested_of_mem_textsOf (outlines : List Outline) {text : String}
    (h : text ∈ textsOf outlines) :
    ∃ outline ∈ outlines, ∃ inner,
      Relation.ReflTransGen (fun outer inner => inner ∈ outer.nested) outline inner ∧
        text ∈ inner.ownTexts := by
  cases outlines with
  | nil => exact absurd h (by simp [textsOf])
  | cons outline rest =>
    rw [textsOf, List.mem_append] at h
    rcases h with hfirst | hrest
    · exact ⟨outline, List.mem_cons_self .., exists_nested_of_mem_texts outline hfirst⟩
    · obtain ⟨found, hfound, hinner⟩ := exists_nested_of_mem_textsOf rest hrest
      exact ⟨found, List.mem_cons_of_mem _ hfound, hinner⟩
termination_by structural outlines

end

theorem IsReadFrom.exists_head_of_mem_ownTexts {heads : List (List Tree)} {outline : Outline}
    (h : outline.IsReadFrom heads) {text : String} (htext : text ∈ outline.ownTexts) :
    ∃ trees ∈ heads, ∃ hasBlock, text ∈ (Head.ofTrees hasBlock trees).texts := by
  rcases List.mem_append.mp htext with hvariables | hmethods
  · obtain ⟨trees, htrees, hhead⟩ := h.head
    exact ⟨trees, htrees, true, by rwa [hhead, Head.texts]⟩
  · obtain ⟨method, hmethod, hmem⟩ := List.mem_flatMap.mp hmethods
    obtain ⟨trees, htrees, hasBlock, hhead⟩ := h.methods method hmethod
    exact ⟨trees, htrees, hasBlock, by rwa [hhead, Head.texts]⟩

end Outline

/-- A name in a type that begins with an identifier begins with a word of the source text. -/
theorem SourceFile.beginsIn_texts (source : List Char) :
    ∀ text ∈ Outline.textsOf (SourceFile.ofSource source).declarations,
      Name.BeginsIn (Token.words (Token.ofSource source)) text := by
  intro text htext
  obtain ⟨outline, houtline, inner, hinner, hown⟩ := Outline.exists_nested_of_mem_textsOf _ htext
  have hread : inner.IsReadFrom (Statement.headsOf (Statement.ofSource source)) :=
    Outline.isReadFrom_of_nested hinner houtline
  obtain ⟨trees, htrees, hasBlock, hmem⟩ := hread.exists_head_of_mem_ownTexts hown
  refine Head.beginsIn_texts (List.Subset.refl _) (fun token htoken => ?_) text hmem
  exact Statement.mem_ofSource_of_mem_heads htrees htoken

/-! ## Import clauses in a source text -/

/-- The import of a single type that a member is. -/
def Member.import? (member : Member) : Option String := SourceFile.import? member.statement

/-- A clause that imports the single type of a path. -/
def ImportClause (path : String) : Type := { member : Member // member.import? = some path }

namespace ImportClause

variable {path : String} (clause : ImportClause path)

theorem exists_statement : ∃ trees name keyword, clause.1.statement = .plain trees ∧
    Piece.ofTrees trees = keyword :: name ∧ keyword.isKeyword "import" = true := by
  have himport : SourceFile.import? clause.1.statement = some path := clause.2
  cases hstatement : clause.1.statement with
  | block trees body => simp [hstatement, SourceFile.import?] at himport
  | plain trees =>
    rw [hstatement, SourceFile.import?] at himport
    split at himport
    · exact absurd himport (by simp)
    · next keyword name hpieces =>
      split at himport
      · next hkeyword =>
        rw [Bool.and_eq_true, Bool.and_eq_true] at hkeyword
        exact ⟨trees, name, keyword, rfl, hpieces, hkeyword.1.1⟩
      · exact absurd himport (by simp)

/-- An import is no package clause. -/
theorem package?_eq_none : SourceFile.package? clause.1.statement = none := by
  obtain ⟨trees, name, keyword, hstatement, hpieces, hkeyword⟩ := clause.exists_statement
  obtain ⟨hword, htext⟩ := by simpa only [Piece.isKeyword, Bool.and_eq_true] using hkeyword
  have hmark : keyword.isAnnotation = false := by
    unfold Piece.isWord at hword
    unfold Piece.isAnnotation
    cases hshape : keyword.shape <;> simp_all
  have hother : keyword.isKeyword "package" = false := by
    rw [Piece.isKeyword, eq_of_beq htext, Bool.and_eq_false_iff]
    exact .inr (by decide)
  rw [hstatement, SourceFile.package?, hpieces, List.dropWhile_cons, if_neg (by simp [hmark])]
  simp [hother]

/-- An import declares no type. -/
theorem ofStatement?_eq_none : Outline.ofStatement? clause.1.statement = none := by
  obtain ⟨trees, name, keyword, hstatement, -, -⟩ := clause.exists_statement
  rw [hstatement, Outline.ofStatement?]

end ImportClause

theorem Member.statements_eq_map (members : List Member) :
    statements members = members.map statement := by
  induction members with
  | nil => rfl
  | cons member rest ih => rw [statements, ih, List.map_cons]

namespace SourceText

/-- The words of the file. -/
def words (source : SourceText) : List String := Token.words (Token.ofSource source.text)

/-- What the file declares, read member by member. -/
theorem sourceFile_text (source : SourceText) :
    let rest := Statement.ofTrees (Tree.ofText source.rest)
    SourceFile.ofSource source.text =
      { package := (source.members.map Member.statement ++ rest).findSome? SourceFile.package?
        imports := source.members.filterMap Member.import? ++ rest.filterMap SourceFile.import?
        declarations :=
          (source.members.map Member.statement ++ rest).filterMap Outline.ofStatement? } := by
  intro rest
  rw [SourceFile.ofSource, ofSource_text, Member.statements_eq_map, Outline.ofStatements_false]
  simp only [List.filterMap_append, List.filterMap_map]
  rfl

end SourceText

/-! ## Changes to imports -/

/-- The second text is the first one with two imports exchanged. -/
structure ImportExchange (first second : SourceText) where
  before : List Member
  between : List Member
  after : List Member
  path : String
  other : String
  /-- the imports as they stand in the first text -/
  left : ImportClause path
  right : ImportClause other
  /-- the imports as they stand in the second text -/
  newLeft : ImportClause other
  newRight : ImportClause path
  hfirst : first.members = before ++ left.1 :: (between ++ right.1 :: after)
  hsecond : second.members = before ++ newLeft.1 :: (between ++ newRight.1 :: after)
  hrest : first.rest = second.rest

/-- The second text is the first one with one import replaced. -/
structure ImportReplacement (first second : SourceText) where
  before : List Member
  after : List Member
  path : String
  other : String
  /-- the import as it stands in the first text -/
  old : ImportClause path
  /-- the import in its place in the second text -/
  new : ImportClause other
  hfirst : first.members = before ++ old.1 :: after
  hsecond : second.members = before ++ new.1 :: after
  hrest : first.rest = second.rest

namespace ImportExchange

variable {first second : SourceText} (exchange : ImportExchange first second)

/-- When the two are exchanged, no import between them comes to be the first one that ends as the
path does. -/
def KeepsFirst (path : String) : Prop :=
  ImportScope.KeepsFirst (exchange.before.filterMap Member.import?)
    (exchange.between.filterMap Member.import?) path

instance (path : String) : Decidable (exchange.KeepsFirst path) :=
  inferInstanceAs (Decidable (ImportScope.KeepsFirst _ _ _))

include exchange in
theorem package_eq :
    (SourceFile.ofSource first.text).package = (SourceFile.ofSource second.text).package := by
  rw [SourceText.sourceFile_text, SourceText.sourceFile_text, exchange.hfirst, exchange.hsecond,
    exchange.hrest]
  simp [ImportClause.package?_eq_none]

include exchange in
theorem declarations_eq :
    (SourceFile.ofSource first.text).declarations =
      (SourceFile.ofSource second.text).declarations := by
  rw [SourceText.sourceFile_text, SourceText.sourceFile_text, exchange.hfirst, exchange.hsecond,
    exchange.hrest]
  simp [ImportClause.ofStatement?_eq_none]

theorem find?_eq (hne : Name.lastPart exchange.path ≠ Name.lastPart exchange.other)
    (hpath : exchange.KeepsFirst exchange.path) (hother : exchange.KeepsFirst exchange.other)
    {name : String} (hname : Name.isSimple name = true) :
    (SourceFile.ofSource first.text).imports.find? (Name.hasLast · name) =
      (SourceFile.ofSource second.text).imports.find? (Name.hasLast · name) := by
  have hclauses := ImportScope.find?_hasLast_exchange hne hpath hother hname
    (exchange.after.filterMap Member.import?)
  rw [SourceText.sourceFile_text, SourceText.sourceFile_text, exchange.hfirst, exchange.hsecond,
    exchange.hrest]
  simp only [List.filterMap_append, List.filterMap_cons, exchange.left.2, exchange.right.2,
    exchange.newLeft.2, exchange.newRight.2]
  rw [List.find?_append, hclauses, ← List.find?_append]

end ImportExchange

namespace ImportReplacement

variable {first second : SourceText} (replacement : ImportReplacement first second)

/-- The text without the import, behind a byte order mark so that it can begin with anything. -/
def others : SourceText where
  marked := true
  members := replacement.before ++ replacement.after
  rest := first.rest
  hmembers := by
    intro member hmember
    apply first.hmembers
    rw [replacement.hfirst]
    exact (List.append_sublist_append_left _).mpr (List.sublist_cons_self ..) |>.subset hmember
  hmarked := by simp

include replacement in
theorem package_eq :
    (SourceFile.ofSource first.text).package = (SourceFile.ofSource second.text).package := by
  rw [SourceText.sourceFile_text, SourceText.sourceFile_text, replacement.hfirst,
    replacement.hsecond, replacement.hrest]
  simp [ImportClause.package?_eq_none]

/-- An import has no part in what a file declares. -/
theorem declarations_eq :
    (SourceFile.ofSource first.text).declarations =
        (SourceFile.ofSource replacement.others.text).declarations ∧
      (SourceFile.ofSource second.text).declarations =
        (SourceFile.ofSource replacement.others.text).declarations := by
  have hmembers : replacement.others.members = replacement.before ++ replacement.after := rfl
  have hrest : replacement.others.rest = first.rest := rfl
  simp only [SourceText.sourceFile_text]
  rw [hmembers, hrest, replacement.hfirst, replacement.hsecond, replacement.hrest]
  constructor <;> simp [ImportClause.ofStatement?_eq_none]

theorem find?_eq {name : String} (hname : Name.isSimple name = true)
    (hword : name ∈ replacement.others.words)
    (hpath : Name.lastPart replacement.path ∉ replacement.others.words)
    (hother : Name.lastPart replacement.other ∉ replacement.others.words) :
    (SourceFile.ofSource first.text).imports.find? (Name.hasLast · name) =
      (SourceFile.ofSource second.text).imports.find? (Name.hasLast · name) := by
  have hclauses := ImportScope.find?_hasLast_replace (fun h => hpath (h ▸ hword))
    (fun h => hother (h ▸ hword)) hname (replacement.before.filterMap Member.import?)
    (replacement.after.filterMap Member.import?)
  rw [SourceText.sourceFile_text, SourceText.sourceFile_text, replacement.hfirst,
    replacement.hsecond, replacement.hrest]
  simp only [List.filterMap_append, List.filterMap_cons, replacement.old.2, replacement.new.2]
  rw [List.find?_append, hclauses, ← List.find?_append]

end ImportReplacement

end Source

/-! ## Sessions -/

namespace Session

open Source

/-- Every session makes the same of both texts, whatever it has collected and however it writes
signatures. -/
def ReadsAlike (first second : SourceText) : Prop :=
  ∀ (session : Session .java) (path : Option String),
    session.parse first.string path = session.parse second.string path ∧
      session.parseBytes first.string.toUTF8 path = session.parseBytes second.string.toUTF8 path

theorem readsAlike_of_find? {first second : SourceText}
    (hpackage : (SourceFile.ofSource first.text).package =
      (SourceFile.ofSource second.text).package)
    (hdeclarations : (SourceFile.ofSource first.text).declarations =
      (SourceFile.ofSource second.text).declarations)
    (h : ∀ text ∈ Outline.textsOf (SourceFile.ofSource first.text).declarations,
      Name.isSimple (Name.firstPart text) = true →
      (SourceFile.ofSource first.text).imports.find? (Name.hasLast · (Name.firstPart text)) =
        (SourceFile.ofSource second.text).imports.find? (Name.hasLast · (Name.firstPart text))) :
    ReadsAlike first second := by
  intro session path
  have hagree : ∀ text ∈ Outline.textsOf (SourceFile.ofSource first.text).declarations,
      (SourceFile.ofSource first.text).importScope.AgreesOn
        (SourceFile.ofSource second.text).importScope text := by
    intro text htext
    unfold SourceFile.importScope
    rw [hpackage]
    exact ImportScope.agreesOn_of_find? (h text htext)
  have hstep : session.parse first.string path = session.parse second.string path := by
    apply parse_eq_of_agreesOn <;> simpa [SourceText.string]
  refine ⟨hstep, ?_⟩
  rw [parseBytes_toUTF8, parseBytes_toUTF8]
  exact hstep

/-- Two imports with different last parts can be exchanged, if no import between them comes to stand
in front of one of them; and an import whose last part is no word of the rest of the file can be
replaced by another such import.  No session makes a difference between the texts. -/
theorem readsAlike_of_imports (first second : SourceText) :
    (∀ exchange : ImportExchange first second,
      Name.lastPart exchange.path ≠ Name.lastPart exchange.other →
      exchange.KeepsFirst exchange.path → exchange.KeepsFirst exchange.other →
      ReadsAlike first second) ∧
    ∀ replacement : ImportReplacement first second,
      Name.lastPart replacement.path ∉ replacement.others.words →
      Name.lastPart replacement.other ∉ replacement.others.words →
      ReadsAlike first second := by
  constructor
  · intro exchange hne hpath hother
    refine readsAlike_of_find? exchange.package_eq exchange.declarations_eq ?_
    exact fun text _ hsimple => exchange.find?_eq hne hpath hother hsimple
  · intro replacement hpath hother
    obtain ⟨hfirst, hsecond⟩ := replacement.declarations_eq
    refine readsAlike_of_find? replacement.package_eq (hfirst.trans hsecond.symm) ?_
    intro text htext hsimple
    -- what is asked for is a word of the text without the import
    rw [hfirst] at htext
    have hword := SourceFile.beginsIn_texts replacement.others.text text htext hsimple
    exact replacement.find?_eq hsimple hword hpath hother

/-! ### Three imports -/

section Sample

open EnclosedText (written)

/-- An import as it is usually written. -/
def importMember (path : String)
    (hpath : ∀ c ∈ ("import " ++ path).toList, c ∉ delimiters ∧ c ∉ Position.head.barred) :
    Member :=
  .clause (.plain ⟨[], written ("import " ++ path) .empty hpath⟩)

def importN : ImportClause "a.N" := ⟨importMember "a.N" (by decide), by decide +kernel⟩

def importOtherN : ImportClause "c.N" := ⟨importMember "c.N" (by decide), by decide +kernel⟩

def importX : ImportClause "b.X" := ⟨importMember "b.X" (by decide), by decide +kernel⟩

def importY : ImportClause "d.Y" := ⟨importMember "d.Y" (by decide), by decide +kernel⟩

def importZ : ImportClause "e.Z" := ⟨importMember "e.Z" (by decide), by decide +kernel⟩

/-- A file that begins with imports, and with a method that has parameters of imported types. -/
def importing (members : List Member) (hmembers : ∀ member ∈ members, member.isTopLevel = true)
    (hmarked : (Member.textAll members).head? = some 'i') : SourceText where
  marked := false
  members := members
  rest := "public class A \x7b public void m(N n, X x) \x7b \x7d \x7d".toList
  hmembers := hmembers
  hmarked := by
    intro _
    rw [List.head?_append, hmarked]
    decide

theorem rest_importing {members others : List Member}
    {hmembers : ∀ member ∈ members, member.isTopLevel = true}
    {hothers : ∀ member ∈ others, member.isTopLevel = true}
    {hmarked : (Member.textAll members).head? = some 'i'}
    {hmarked' : (Member.textAll others).head? = some 'i'} :
    (importing members hmembers hmarked).rest = (importing others hothers hmarked').rest := rfl

/-- The types of the parameters in the file. -/
def importedTypes (source : SourceText) : Except Fault (List (List String)) :=
  (Source.parse source.string).map fun root =>
    root.methods.map fun method =>
      method.parameters.map fun parameter => parameter.type.qualifiedName

/-- The types of both parameters keep their meaning when their imports are exchanged and when the
third one, which is not used, is replaced. -/
theorem readsAlike_importing :
    let first := importing [importN.1, importY.1, importX.1] (by decide) rfl
    let exchanged := importing [importX.1, importY.1, importN.1] (by decide) rfl
    let replaced := importing [importN.1, importZ.1, importX.1] (by decide) rfl
    importedTypes first = .ok [["a.N", "b.X"]] ∧ ReadsAlike first exchanged ∧
      ReadsAlike first replaced := by
  intro first exchanged replaced
  let exchange : ImportExchange first exchanged :=
    { before := [], between := [importY.1], after := [], path := "a.N", other := "b.X",
      left := importN, right := importX, newLeft := importX, newRight := importN,
      hfirst := rfl, hsecond := rfl, hrest := rest_importing }
  let replacement : ImportReplacement first replaced :=
    { before := [importN.1], after := [importX.1], path := "d.Y", other := "e.Z",
      old := importY, new := importZ, hfirst := rfl, hsecond := rfl, hrest := rest_importing }
  refine ⟨by decide +kernel, ?_, ?_⟩
  · exact (readsAlike_of_imports first exchanged).1 exchange (by decide) (by decide +kernel)
      (by decide +kernel)
  · exact (readsAlike_of_imports first replaced).2 replacement (by decide +kernel)
      (by decide +kernel)

/-- An import between the two can come to stand in front. -/
theorem exists_exchange_read_differently :
    ¬∀ (first second : SourceText) (exchange : ImportExchange first second),
      Name.lastPart exchange.path ≠ Name.lastPart exchange.other → ReadsAlike first second := by
  intro h
  let first := importing [importN.1, importOtherN.1, importX.1] (by decide) rfl
  let second := importing [importX.1, importOtherN.1, importN.1] (by decide) rfl
  let exchange : ImportExchange first second :=
    { before := [], between := [importOtherN.1], after := [], path := "a.N", other := "b.X",
      left := importN, right := importX, newLeft := importX, newRight := importN,
      hfirst := rfl, hsecond := rfl, hrest := rest_importing }
  have halike := (h first second exchange (by decide) {} none).1
  let start : Session .java := {}
  let lines (source : SourceText) : Except SessionError (List String) :=
    (start.parse source.string none).map fun after => after.catalogue.methods
  have hfirst : lines first = .ok ["public void m(a.N n, b.X x)"] := by decide +kernel
  have hsecond : lines second = .ok ["public void m(c.N n, b.X x)"] := by decide +kernel
  have hlines : lines first = lines second := by
    unfold lines
    rw [halike]
  rw [hfirst, hsecond] at hlines
  exact absurd hlines (by decide)

end Sample

end Session

end JavaSignatures
