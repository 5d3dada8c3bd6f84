import JavaSignatures.Proofs.Grammar.Members

set_option autoImplicit false

/-!
# Grammar: source files

A source file is a row of package clauses, imports, modules and declarations, in any order.  A
source text is written as a file if its tokens are those of the file, comments and white space
included (`FileSyntax.IsWrittenAs`).  What is read of the text is then what the file declares
(`FileSyntax.ofSource_eq`, `FileSyntax.parse_eq`).
-/

namespace JavaSignatures.Source

open JavaSignatures.Source.Tree (Nests)
open Canonical (StaysInHead)

namespace Grammar

/-! ## Access -/

/-- The first keyword for access among modifiers. -/
def accessOf? (modifiers : List Modifier) : Option String :=
  (modifiers.filterMap Modifier.word?).find? fun word =>
    ["public", "protected", "private"].contains word

/-- The first keyword for access in front of a declaration is `public`. -/
def DeclarationSyntax.isPublic (head : DeclarationSyntax) : Bool :=
  accessOf? head.modifiers == some "public"

/-- The access is read from the first keyword for it. -/
theorem visibility_eq_publicAccess (modifiers : List Modifier) :
    ((modifiersOf modifiers).visibility == .publicAccess) =
      (accessOf? modifiers == some "public") := by
  unfold Modifiers.visibility accessOf?
  rw [words_modifiersOf]
  induction modifiers.filterMap Modifier.word? with
  | nil => rfl
  | cons word words ih =>
    by_cases haccess : ["public", "protected", "private"].contains word = true
    · rw [List.find?_cons_of_pos haccess]
      simp only [List.contains_cons, List.contains_nil, Bool.or_false, Bool.or_eq_true,
        beq_iff_eq] at haccess
      rcases haccess with rfl | rfl | rfl <;> rfl
    · rw [List.find?_cons_of_neg haccess, List.findSome?_cons]
      simp only [List.contains_cons, List.contains_nil, Bool.or_false, Bool.or_eq_true,
        beq_iff_eq, not_or] at haccess
      split
      · next hsome => split at hsome <;> simp_all
      · exact ih

/-! ## Parts of source files -/

/-- The name as it is spelled, with what is between its words. -/
def Name.text (name : Name) : String := String.ofList (Token.spell name.tokens)

/-- A part of a source file. -/
inductive Item where
  | package (annotations : List Annotation) (gap : List Lexeme) (name : Name)
    (behind : List Lexeme)
  /-- an import of any form -/
  | imports (gap : List Lexeme) (rest : List Tree) (row : TreeRow .head rest)
    (behind : List Lexeme)
  | module (head : ModuleSyntax) (body : Enclosure .inside)
  | member (member : Member)

namespace Item

/-- The keyword of a package clause or an import. -/
def keyword (gap : List Lexeme) (text : String) : Word := ⟨gap, text.toList⟩

/-- The trees of a package clause up to its semicolon. -/
def packageTrees (annotations : List Annotation) (gap : List Lexeme) (name : Name) : List Tree :=
  annotationTrees annotations ++ ([(keyword gap "package").tree] ++ name.trees)

/-- The trees of a part of a source file. -/
def trees : Item → List Tree
  | .package annotations gap name behind =>
    packageTrees annotations gap name ++ [.leaf (Token.mark behind ';')]
  | .imports gap rest _ behind =>
    (keyword gap "import").tree :: rest ++ [.leaf (Token.mark behind ';')]
  | .module head body => braces head.trees body.before body.inner body.behind
  | .member inner => inner.trees

/-- The statement that a part of a source file is. -/
def statement : Item → Statement
  | .package annotations gap name _ => .plain (packageTrees annotations gap name)
  | .imports gap rest _ _ => .plain ((keyword gap "import").tree :: rest)
  | .module head body => .block head.trees (Statement.ofTrees body.inner)
  | .member inner => inner.statement

/-- The package that a part of a source file names. -/
def package? : Item → Option String
  | .package _ _ name _ => some name.text
  | _ => none

/-- The single type that a part of a source file imports. -/
def import? : Item → Option String
  | .imports gap rest _ _ => SourceFile.import? (.plain ((keyword gap "import").tree :: rest))
  | _ => none

/-- The declaration that a part of a source file is. -/
def declared? : Item → Option Declared
  | .member inner => inner.declared?
  | _ => none

theorem reads_package (annotations : List Annotation) (gap : List Lexeme) (name : Name) :
    Reads (packageTrees annotations gap name)
      (annotationPieces annotations ++ (keyword gap "package").piece :: name.pieces) :=
  (reads_annotations annotations).append ((keyword gap "package").reads.append name.reads)
    ((keyword gap "package").detached _) (List.cons_ne_nil _ _)

theorem staysInHead_import (gap : List Lexeme) {rest : List Tree} (row : TreeRow .head rest) :
    ∀ tree ∈ (keyword gap "import").tree :: rest, StaysInHead tree :=
  List.forall_mem_cons.mpr
    ⟨⟨rfl, fun _ => rfl, rfl⟩, row.staysInHead fun _ hc => hc⟩

theorem nests (item : Item) : Nests item.trees := by
  cases item with
  | package annotations gap name behind =>
    exact (reads_package annotations gap name).row.nests.append (Member.nests_semicolon behind)
  | imports gap rest row behind =>
    have hkeyword : Nests [(keyword gap "import").tree] := .leaf rfl rfl
    exact .cons hkeyword (row.nests.append (Member.nests_semicolon behind))
  | module head body => exact Member.nests_braces head.nests body.row.nests _ _
  | member inner => exact inner.nests

/-- A part of a source file is one statement. -/
theorem ofTrees_append (item : Item) (rest : List Tree) :
    Statement.ofTrees (item.trees ++ rest) = item.statement :: Statement.ofTrees rest := by
  cases item with
  | package annotations gap name behind =>
    rw [trees, List.append_assoc]
    exact Canonical.ofTrees_plain
      ((reads_package annotations gap name).row.staysInHead (by decide)) behind rest
  | imports gap tail row behind =>
    rw [trees, List.append_assoc]
    exact Canonical.ofTrees_plain (staysInHead_import gap row) behind rest
  | module head body => exact Member.ofTrees_braces head.staysInHead _ _ _ _
  | member inner => exact inner.ofTrees_append rest

/-! ## Clauses -/

/-- No word that stands among modifiers is another keyword. -/
theorem not_isKeyword_modifier (modifier : Modifier) {keyword : String}
    (hkeyword : keyword ∉ Modifiers.keywords) : modifier.piece.isKeyword keyword = false :=
  Modifiers.not_isKeyword modifier.isModifier_piece hkeyword

section Clauses

variable {modifiers : List Modifier} {first : Piece} {rest : List Piece}

/-- Behind the annotations in front stands a modifier or the first other piece. -/
theorem not_isKeyword_package (hnote : first.isAnnotation = false)
    (hfirst : first.isKeyword "package" = false) {piece : Piece} {behind : List Piece}
    (h : (modifierPieces modifiers ++ first :: rest).dropWhile Piece.isAnnotation =
      piece :: behind) : piece.isKeyword "package" = false := by
  induction modifiers with
  | nil =>
    rw [modifierPieces, List.map_nil, List.nil_append,
      List.dropWhile_cons_of_neg (by simp [hnote])] at h
    rw [← (List.cons.inj h).1]
    exact hfirst
  | cons modifier modifiers ih =>
    cases modifier with
    | note inner => exact ih h
    | keyword word hword =>
      obtain ⟨rfl, -⟩ := List.cons.inj h
      exact not_isKeyword_modifier (.keyword word hword) (by decide)

/-- In front stands a modifier or the first other piece. -/
theorem not_isKeyword_import (hfirst : first.isKeyword "import" = false) {piece : Piece}
    {behind : List Piece} (h : modifierPieces modifiers ++ first :: rest = piece :: behind) :
    piece.isKeyword "import" = false := by
  cases modifiers with
  | nil =>
    obtain ⟨rfl, -⟩ := List.cons.inj h
    exact hfirst
  | cons modifier modifiers =>
    obtain ⟨rfl, -⟩ := List.cons.inj h
    exact not_isKeyword_modifier modifier (by decide)

/-- What begins with modifiers and another word is neither a package clause nor an import. -/
theorem clauses_eq_none {trees : List Tree}
    (hpieces : Piece.ofTrees trees = modifierPieces modifiers ++ first :: rest)
    (hnote : first.isAnnotation = false)
    (hfirst : ∀ keyword ∈ noTypeWords, first.isKeyword keyword = false) :
    SourceFile.package? (.plain trees) = none ∧ SourceFile.import? (.plain trees) = none := by
  constructor
  · unfold SourceFile.package?
    dsimp only
    rw [hpieces]
    split
    · rfl
    · next piece behind h =>
      have hpackage := not_isKeyword_package hnote (hfirst "package" (by decide)) h
      rw [if_neg (by simp [hpackage])]
  · unfold SourceFile.import?
    dsimp only
    rw [hpieces]
    split
    · rfl
    · next piece behind h =>
      have himport := not_isKeyword_import (hfirst "import" (by decide)) h
      rw [if_neg (by simp [himport])]

end Clauses

/-- A member is neither a package clause nor an import. -/
theorem clauses_member (inner : Member) :
    SourceFile.package? inner.statement = none ∧ SourceFile.import? inner.statement = none := by
  cases inner with
  | bodiless head gap =>
    obtain ⟨first, more, hrow, hword, hfirst⟩ :=
      exists_first head.introduced head.result.name.hword head.behindFirst
    have hpieces := head.ofTrees_trees
    rw [head.row_eq, hrow] at hpieces
    exact clauses_eq_none hpieces hword.1 hfirst
  | field head gap =>
    obtain ⟨rest, hpieces⟩ := head.exists_pieces
    exact clauses_eq_none hpieces rfl fun _ => Word.not_isKeyword head.type.name.hword
  | semicolon gap => exact ⟨rfl, rfl⟩
  | _ => rw [Member.statement]; exact ⟨rfl, rfl⟩

theorem package?_statement (item : Item) : SourceFile.package? item.statement = item.package? := by
  cases item with
  | package annotations gap name behind =>
    have hkeyword : (keyword gap "package").piece.isKeyword "package" = true := by
      rw [Piece.isKeyword, Word.text_piece, keyword, Word.name_toList]
      rfl
    have hdropped : (annotationPieces annotations ++
        (keyword gap "package").piece :: name.pieces).dropWhile Piece.isAnnotation =
          (keyword gap "package").piece :: name.pieces := dropWhile_run isAnnotation_of_mem rfl _
    rw [statement, SourceFile.package?, (reads_package annotations gap name).isOpen.ofTrees_eq,
      hdropped]
    dsimp only
    rw [hkeyword, if_pos rfl, package?, SourceFile.spelled?, Piece.spell, name.tokens_pieces]
    rfl
  | imports gap rest row behind =>
    have hpieces : Piece.ofTrees ((keyword gap "import").tree :: rest) =
        (keyword gap "import").piece :: Piece.ofTrees rest :=
      (keyword gap "import").reads.ofTrees_append rest
    have hkeyword : (keyword gap "import").piece.isKeyword "package" = false := by
      rw [Piece.isKeyword, Word.text_piece, keyword, Word.name_toList]
      rfl
    have hdropped : ((keyword gap "import").piece :: Piece.ofTrees rest).dropWhile
        Piece.isAnnotation = (keyword gap "import").piece :: Piece.ofTrees rest := rfl
    rw [statement, SourceFile.package?, hpieces, hdropped]
    dsimp only
    rw [hkeyword, if_neg Bool.false_ne_true]
    rfl
  | module head body => rfl
  | member inner => exact (clauses_member inner).1

theorem import?_statement (item : Item) : SourceFile.import? item.statement = item.import? := by
  cases item with
  | package annotations gap name behind =>
    have hpieces := (reads_package annotations gap name).isOpen.ofTrees_eq
    have hkeyword : (keyword gap "package").piece.isKeyword "import" = false := by
      rw [Piece.isKeyword, Word.text_piece, keyword, Word.name_toList]
      rfl
    rw [statement, SourceFile.import?, hpieces]
    cases annotations with
    | nil =>
      change (if ((keyword gap "package").piece.isKeyword "import" && _ && _) = true
        then _ else _) = _
      rw [hkeyword, Bool.false_and, Bool.false_and, if_neg Bool.false_ne_true]
      rfl
    | cons note annotations => rfl
  | imports gap rest row behind => rfl
  | module head body => rfl
  | member inner => exact (clauses_member inner).2

theorem ofStatement?_statement (item : Item) :
    Outline.ofStatement? item.statement = item.declared?.map Declared.outline := by
  cases item with
  | package annotations gap name behind => rfl
  | imports gap rest row behind => rfl
  | module head body => rw [statement, Outline.ofStatement?, head.ofTrees_eq]; rfl
  | member inner => exact inner.ofStatement?_statement.trans (Declared.outline?_eq inner)

end Item

/-! ## Source files -/

/-- A source file as it is written. -/
structure FileSyntax where
  items : List Item

namespace FileSyntax

variable (file : FileSyntax)

/-- The trees of the file. -/
def trees : List Tree := file.items.flatMap Item.trees

/-- The tokens of the source text are those of the file. -/
def IsWrittenAs (source : String) : Prop :=
  Token.ofSource source.toList = Tree.tokensOf file.trees

instance (source : String) : Decidable (file.IsWrittenAs source) :=
  inferInstanceAs (Decidable (_ = _))

/-- The classes, interfaces, enums and records of the file, in order. -/
def declarations : List Declared := file.items.filterMap Item.declared?

/-- The package of the file and its imports. -/
def scope : ImportScope where
  package := file.items.findSome? Item.package?
  imports := file.items.filterMap Item.import?

/-- The declaration that the file is about: the first one whose first keyword for access is
`public`, or else the first one. -/
def main? : Option Declared :=
  (file.declarations.find? fun declared => declared.head.isPublic).or file.declarations.head?

theorem nests : Nests file.trees := by
  unfold trees
  induction file.items with
  | nil => exact .nil
  | cons item items ih => exact item.nests.append ih

theorem ofTrees_trees : Statement.ofTrees file.trees = file.items.map Item.statement := by
  unfold trees
  induction file.items with
  | nil => rfl
  | cons item items ih => rw [List.flatMap_cons, item.ofTrees_append, ih, List.map_cons]

variable {file} {source : String} (h : file.IsWrittenAs source)

include h

theorem statements_eq : Statement.ofSource source.toList = file.items.map Item.statement := by
  rw [Statement.ofSource, h, Tree.ofTokens_of_nests file.nests, ofTrees_trees]

/-- What is read of a source text is what the file declares. -/
theorem ofSource_eq : SourceFile.ofSource source.toList =
    { package := file.scope.package
      imports := file.scope.imports
      declarations := file.declarations.map Declared.outline } := by
  have hpackage : SourceFile.package? ∘ Item.statement = Item.package? :=
    funext Item.package?_statement
  have himport : SourceFile.import? ∘ Item.statement = Item.import? :=
    funext Item.import?_statement
  have hdeclared : Outline.ofStatement? ∘ Item.statement =
      fun item => item.declared?.map Declared.outline := funext Item.ofStatement?_statement
  unfold SourceFile.ofSource
  rw [statements_eq h]
  dsimp only
  rw [Outline.ofStatements_false]
  rw [List.findSome?_map, List.filterMap_map, List.filterMap_map, hpackage, himport, hdeclared,
    ← List.map_filterMap]
  rfl

/-- The declaration that a source text is about. -/
theorem parse_eq : parse source =
    match file.main? with
    | some declared => .ok (declared.outline.declare { imports := file.scope } none)
    | none => .error .noDeclaration := by
  have hpublic : ((fun outline : Outline => outline.head.visibility == .publicAccess) ∘
      Declared.outline) = fun declared => declared.head.isPublic :=
    funext fun declared => visibility_eq_publicAccess declared.head.modifiers
  have hmain : (SourceFile.ofSource source.toList).main? = file.main?.map Declared.outline := by
    rw [ofSource_eq h, SourceFile.main?, main?]
    dsimp only
    rw [List.find?_map, List.head?_map, hpublic, ← Option.map_or]
  have hscope : (SourceFile.ofSource source.toList).importScope = file.scope := by
    rw [ofSource_eq h]
    rfl
  rw [parse, SourceFile.root, hmain, hscope]
  cases file.main? <;> rfl

end FileSyntax

end Grammar

end JavaSignatures.Source
