import JavaSignatures.Proofs.Bodies.Members
import JavaSignatures.Proofs.SessionRun

set_option autoImplicit false

/-!
# Sources that differ in bodies

What a source file declares does not depend on the bodies of its methods, constructors and
initializers, on the initial values of its fields and on the constants of its enums
(`SourceText.parse_eq_of_outside`), whatever strings, comments, classes and lambdas these hold.  So
no step of a session depends on them (`Session.run_eq_of_outside`).

Bodies can also stand in the arguments of annotations.  Those among the modifiers of declarations and
parameters do not matter either.  Those inside of a type do if the type is kept as it is written
(`Session.parse_readBodySource_ne`).
-/

namespace JavaSignatures.Source

open JavaSignatures.Source.Tree (tokensOf)
open Canonical (StaysInHead)

/-! ## Members without bodies -/

namespace DeclarationHead

theorem IsNoType.bare {head : DeclarationHead} (h : head.IsNoType) : head.bare.IsNoType := by
  rw [IsNoType, head.ofTrees_bare]
  exact h

theorem IsEnum.bare {head : DeclarationHead} (h : head.IsEnum) : head.bare.IsEnum := by
  rw [IsEnum, head.ofTrees_bare]
  exact h

end DeclarationHead

namespace Member

mutual

/-- The member with nothing in its bodies, values, constants and the annotations of its head. -/
def bare (member : Member) : Member :=
  match member with
  | .clause head => .clause head.bare
  | .field head _ => .field head.bare .empty
  | .block head _ hhead => .block head.bare .empty hhead.bare
  | .type head members rest => .type head.bare (bareAll members) rest
  | .enumeration head _ members rest hhead =>
    .enumeration head.bare .empty (bareAll members) rest hhead.bare
  | .constantsOnly head _ hhead => .constantsOnly head.bare .empty hhead.bare
termination_by structural member

/-- The members with nothing in their bodies, values, constants and annotations. -/
def bareAll (members : List Member) : List Member :=
  match members with
  | [] => []
  | member :: rest => bare member :: bareAll rest
termination_by structural members

end

end Member

/-! ## Statements that declare the same -/

/-- The members of an enum stand behind the first statement without a block. -/
theorem Outline.members_enumKind (body : List Statement) :
    members .enumKind body = (body.dropWhile endsInBlock).tail := rfl

namespace Statement

/-- The statements declare the same members of a declaration. -/
structure Alike (first second : Statement) : Prop where
  endsInBlock : Outline.endsInBlock first = Outline.endsInBlock second
  method : Outline.method? first = Outline.method? second
  outline : Outline.ofStatement? first = Outline.ofStatement? second

variable {first second : List Statement}

theorem filterMap_method?_eq (h : List.Forall₂ Alike first second) :
    first.filterMap Outline.method? = second.filterMap Outline.method? := by
  induction h with
  | nil => rfl
  | cons hstatement h ih => rw [List.filterMap_cons, List.filterMap_cons, hstatement.method, ih]

theorem ofStatements_eq (h : List.Forall₂ Alike first second) (constants : Bool) :
    Outline.ofStatements constants first = Outline.ofStatements constants second := by
  induction h generalizing constants with
  | nil => rfl
  | cons hstatement h ih =>
    rw [Outline.ofStatements, Outline.ofStatements, hstatement.endsInBlock, hstatement.outline, ih,
      ih]

theorem forall₂_members (h : List.Forall₂ Alike first second) (kind : DeclarationKind) :
    List.Forall₂ Alike (Outline.members kind first) (Outline.members kind second) := by
  have hbehind : List.Forall₂ Alike (first.dropWhile Outline.endsInBlock).tail
      (second.dropWhile Outline.endsInBlock).tail := by
    induction h with
    | nil => exact .nil
    | @cons statement other rest rest' hstatement h ih =>
      rw [List.dropWhile_cons, List.dropWhile_cons, hstatement.endsInBlock]
      split
      · exact ih
      · exact h
  unfold Outline.members
  split
  · exact hbehind
  · exact h

/-- A declaration is read from its head and from the members in its body. -/
theorem alike_block {head other : List Tree} {body more : List Statement}
    (hhead : Head.ofTrees true head = Head.ofTrees true other)
    (hbody : ∀ declared ∈ (Head.ofTrees true head).type?,
      List.Forall₂ Alike (Outline.members declared.kind body)
        (Outline.members declared.kind more)) :
    Alike (.block head body) (.block other more) := by
  refine ⟨rfl, ?_, ?_⟩
  · rw [Outline.method?, Outline.method?, hhead]
  · rw [Outline.ofStatement?, Outline.ofStatement?, ← hhead]
    cases hdeclared : Head.ofTrees true head with
    | method head => rfl
    | other => rfl
    | type declared =>
      have hmembers := hbody declared (by rw [hdeclared]; rfl)
      have hnested : ∀ statements, Outline.ofStatements (declared.kind == .enumKind) statements =
          Outline.ofStatements false (Outline.members declared.kind statements) := by
        intro statements
        cases declared.kind <;> first | rfl | exact Outline.ofStatements_true statements
      dsimp only
      rw [filterMap_method?_eq hmembers, hnested, hnested, ofStatements_eq hmembers]

section Constants

variable {trees : List Tree} (htrees : ∀ tree ∈ trees, isEnd tree = false)

include htrees

/-- Constants alone are no members. -/
theorem members_constants : Outline.members .enumKind (ofTrees trees) = [] := by
  have hblocks := endsInBlock_of_mem_ofTreesAfter htrees []
  rw [Outline.members_enumKind, ofTrees, List.dropWhile_eq_nil_iff.mpr hblocks]
  rfl

/-- Behind the semicolon that ends the constants the members begin. -/
theorem members_constants_append (gap : List Lexeme) (rest : List Statement) :
    Outline.members .enumKind (ofTrees (trees ++ [.leaf (Token.mark gap ';')]) ++ rest) = rest := by
  have hblocks := endsInBlock_of_mem_ofTreesAfter htrees []
  obtain ⟨head, hhead⟩ := exists_ofTreesAfter_semicolon htrees [] gap
  have hplain : Outline.endsInBlock (.plain head) = false := rfl
  rw [Outline.members_enumKind, ofTrees, hhead, List.append_assoc, List.cons_append,
    dropWhile_append_stop hplain, List.dropWhile_eq_nil_iff.mpr hblocks]
  rfl

end Constants

end Statement

namespace Member

/-- What a field declares does not depend on its value. -/
theorem ofTrees_field (head : AnnotatedHead .fieldHead) (value : List Tree) :
    Head.ofTrees false (head.trees ++ .leaf (Token.mark head.rest.gap '=') :: value) =
      Head.ofTrees false (head.bare.trees ++ [.leaf (Token.mark head.rest.gap '=')]) := by
  rw [Head.ofTrees_assignment _ head.treeRow]
  exact Head.ofTrees_eq_of_alike (head.alike_bare _) false

mutual

theorem alike_bare (member : Member) : Statement.Alike member.statement member.bare.statement := by
  cases member with
  | clause head =>
    rw [statement, bare, statement]
    refine ⟨rfl, ?_, rfl⟩
    rw [Outline.method?, Outline.method?, head.ofTrees_bare]
  | field head value =>
    rw [statement, bare, statement]
    refine ⟨rfl, ?_, rfl⟩
    have hvalue : (EnclosedText.empty : EnclosedText .value).trees = [] := rfl
    have hgap : head.bare.rest.gap = head.rest.gap := rfl
    rw [Outline.method?, Outline.method?, hvalue, hgap, ofTrees_field]
  | block head body hhead =>
    rw [statement, bare, statement]
    refine Statement.alike_block (head.ofTrees_bare true).symm ?_
    intro declared hdeclared
    rw [hhead] at hdeclared
    exact absurd hdeclared (by simp)
  | type head members rest =>
    rw [statement, bare, statement]
    refine Statement.alike_block (head.ofTrees_bare true).symm ?_
    intro declared _
    exact Statement.forall₂_members (alike_bareAll members) declared.kind
  | enumeration head constants members rest hhead =>
    rw [statement, bare, statement]
    refine Statement.alike_block (head.ofTrees_bare true).symm ?_
    intro declared hdeclared
    rw [hhead declared hdeclared,
      Statement.members_constants_append (constants.treeRow.not_isEnd (by decide)),
      Statement.members_constants_append (EnclosedText.empty.treeRow.not_isEnd (by decide))]
    exact alike_bareAll members
  | constantsOnly head constants hhead =>
    rw [statement, bare, statement]
    refine Statement.alike_block (head.ofTrees_bare true).symm ?_
    intro declared hdeclared
    rw [hhead declared hdeclared,
      Statement.members_constants (constants.treeRow.not_isEnd (by decide)),
      Statement.members_constants (EnclosedText.empty.treeRow.not_isEnd (by decide))]
    exact .nil
termination_by structural member

theorem alike_bareAll (members : List Member) :
    List.Forall₂ Statement.Alike (statements members) (statements (bareAll members)) := by
  cases members with
  | nil => exact .nil
  | cons member rest =>
    rw [statements, bareAll, statements]
    exact .cons (alike_bare member) (alike_bareAll rest)
termination_by structural members

end

/-- The member can stand in a source file, where no field has a value and no method is without a
body. -/
def isTopLevel : Member → Bool
  | .field .. | .clause (.called _) => false
  | _ => true

/-- A package clause and an import are read without the annotations in front of them. -/
theorem clauses_bare (member : Member) (h : member.isTopLevel = true) :
    SourceFile.package? member.statement = SourceFile.package? member.bare.statement ∧
      SourceFile.import? member.statement = SourceFile.import? member.bare.statement := by
  cases member with
  | clause head =>
    cases head with
    | plain head =>
      have halike := head.alike_bare []
      rw [List.append_nil, List.append_nil] at halike
      rw [statement, bare, statement]
      exact ⟨SourceFile.package?_eq_of_alike halike, SourceFile.import?_eq_of_alike halike⟩
    | called head => exact absurd h (by simp [isTopLevel])
  | field head value => exact absurd h (by simp [isTopLevel])
  | _ =>
    rw [statement, bare, statement]
    exact ⟨rfl, rfl⟩

section Reading

variable {α : Type} {read? : Statement → Option α} {members : List Member}
  (hread : ∀ member ∈ members, read? member.statement = read? member.bare.statement)

include hread

theorem filterMap_statements_bareAll :
    (statements members).filterMap read? = (statements (bareAll members)).filterMap read? := by
  induction members with
  | nil => rfl
  | cons member rest ih =>
    obtain ⟨hmember, hrest⟩ := List.forall_mem_cons.mp hread
    rw [statements, bareAll, statements, List.filterMap_cons, List.filterMap_cons, hmember,
      ih hrest]

theorem findSome?_statements_bareAll :
    (statements members).findSome? read? = (statements (bareAll members)).findSome? read? := by
  induction members with
  | nil => rfl
  | cons member rest ih =>
    obtain ⟨hmember, hrest⟩ := List.forall_mem_cons.mp hread
    rw [statements, bareAll, statements, List.findSome?_cons, List.findSome?_cons, hmember, ih hrest]

end Reading

end Member

/-! ## Source files -/

/-- A source file as it is written. -/
structure SourceText where
  /-- the file begins with a byte order mark -/
  marked : Bool
  /-- the clauses and declarations of the file -/
  members : List Member
  /-- what stands behind them -/
  rest : List Char
  hmembers : ∀ member ∈ members, member.isTopLevel = true
  hmarked : marked = false → (Member.textAll members ++ rest).head? ≠ some Token.byteOrderMark

namespace SourceText

/-- The text of the file. -/
def text (source : SourceText) : List Char :=
  (if source.marked then [Token.byteOrderMark] else []) ++
    (Member.textAll source.members ++ source.rest)

/-- The text of the file as a string. -/
def string (source : SourceText) : String := String.ofList source.text

/-- What stands outside of all bodies, values, constants and arguments of annotations. -/
def outside (source : SourceText) : List Member × List Char :=
  (Member.bareAll source.members, source.rest)

theorem ofSource_text (source : SourceText) :
    Statement.ofSource source.text =
      Member.statements source.members ++ Statement.ofTrees (Tree.ofText source.rest) := by
  have htokens : Token.ofSource source.text =
      readAfter [] (Member.textAll source.members ++ source.rest) := by
    cases hmarked : source.marked with
    | true => simp [text, hmarked, Token.ofSource, readAfter]
    | false =>
      have hhead := source.hmarked hmarked
      rw [text, hmarked, Token.ofSource, if_neg]
      · rfl
      · simpa using hhead
  rw [Statement.ofSource, htokens, Member.readAfter_textAll,
    Tree.ofTokens_append (Member.nests_treesAll source.members), Member.ofTrees_treesAll]
  rfl

/-- What a file declares is read from what stands outside of the bodies. -/
theorem sourceFile_eq (source : SourceText) :
    let statements := Member.statements source.outside.1 ++
      Statement.ofTrees (Tree.ofText source.outside.2)
    SourceFile.ofSource source.text =
      { package := statements.findSome? SourceFile.package?
        imports := statements.filterMap SourceFile.import?
        declarations := Outline.ofStatements false statements } := by
  intro statements
  have hpackage : (Member.statements source.members).findSome? SourceFile.package? =
      (Member.statements source.outside.1).findSome? SourceFile.package? :=
    Member.findSome?_statements_bareAll fun member hmember =>
      (member.clauses_bare (source.hmembers member hmember)).1
  have himports : (Member.statements source.members).filterMap SourceFile.import? =
      (Member.statements source.outside.1).filterMap SourceFile.import? :=
    Member.filterMap_statements_bareAll fun member hmember =>
      (member.clauses_bare (source.hmembers member hmember)).2
  have houtlines : (Member.statements source.members).filterMap Outline.ofStatement? =
      (Member.statements source.outside.1).filterMap Outline.ofStatement? :=
    Member.filterMap_statements_bareAll fun member _ => member.alike_bare.outline
  rw [SourceFile.ofSource, ofSource_text, Outline.ofStatements_false, Outline.ofStatements_false,
    List.findSome?_append, List.filterMap_append, List.filterMap_append, hpackage, himports,
    houtlines, ← List.findSome?_append, ← List.filterMap_append, ← List.filterMap_append]
  rfl

/-- Sources that are the same outside of their bodies declare the same. -/
theorem parse_eq_of_outside {first second : SourceText} (h : first.outside = second.outside) :
    parse first.string = parse second.string := by
  have hfile : SourceFile.ofSource first.text = SourceFile.ofSource second.text := by
    rw [sourceFile_eq, sourceFile_eq, h]
  rw [parse, parse, string, string, String.toList_ofList, String.toList_ofList, hfile]

end SourceText

end JavaSignatures.Source

namespace JavaSignatures.Session

open Source (SourceText)

/-- No step of a session depends on the bodies of a source text, on the values of its fields, on the
constants of its enums and on the arguments of annotations among its modifiers.  So nor does a run,
in which ever position the text is read. -/
theorem run_eq_of_outside (first second : SourceText) (h : first.outside = second.outside) :
    Source.parse first.string = Source.parse second.string ∧
      ∀ (session : Session .java) (path : Option String),
        session.parse first.string path = session.parse second.string path ∧
        session.parseBytes first.string.toUTF8 path =
          session.parseBytes second.string.toUTF8 path ∧
        ∀ before after,
          session.run (before ++ .parse first.string path :: after) =
            session.run (before ++ .parse second.string path :: after) := by
  have hparse := SourceText.parse_eq_of_outside h
  have hstep : ∀ (session : Session .java) (path : Option String),
      session.parse first.string path = session.parse second.string path := by
    intro session path
    rw [parse_java, parse_java, hparse]
  refine ⟨hparse, fun session path => ⟨hstep session path, ?_, fun before after => ?_⟩⟩
  · rw [parseBytes_toUTF8, parseBytes_toUTF8]
    exact hstep session path
  · have hcall : ∀ session : Session .java, session.step (.parse first.string path) =
        session.step (.parse second.string path) := by
      intro session
      unfold step SessionCall.attempt
      dsimp only
      rw [hstep]
    rw [run_append, run_append]
    exact congrArg (·.run after) (hcall _)

/-! ### Two sources -/

section Sample

open Source
open EnclosedText (written bracketed)

/-- A character, a string and a comment that hold a closing brace. -/
def hidden : EnclosedText .inside where
  text := ['\'', '}', '\'', ',', '"', '}', '"', '/', '*', '}', '*', '/']
  enclosed := by
    have hcomment : ¬['*', '/'] <:+: ['}'] := by decide
    have hstring : Quotable ['"'] ['}'] := .plain (by decide) (by decide) .nil
    have hcharacter : Quotable ['\''] ['}'] := .plain (by decide) (by decide) .nil
    exact .character hcharacter (by decide) (.plain (by decide) (by decide)
      (.string hstring (by decide) (.blockComment hcomment (.nil _))))

/-- An annotation with arguments behind modifiers. -/
def sampleNote (modifiers : String) (arguments : EnclosedText .inside)
    (hmodifiers : ∀ c ∈ modifiers.toList, c ∉ delimiters ∧ c ∉ Position.fieldHead.barred)
    (hwords : ∀ piece ∈ Piece.ofTrees (written modifiers .empty hmodifiers).trees,
      Modifiers.isModifier piece = true) : Annotation where
  before := written modifiers .empty hmodifiers
  name := written "N" .empty (by decide)
  arguments := arguments
  isModifier := hwords
  isName := by decide +kernel

/-- The head of a method with an annotation of its own and one of its parameter. -/
def sampleHead (arguments : EnclosedText .inside) : DeclarationHead :=
  .called
    { front :=
        { annotations := [sampleNote "public " arguments (by decide) (by decide +kernel)]
          rest := written " void m" .empty (by decide) }
      parameters :=
        { front := []
          last :=
            { annotations := [sampleNote "" arguments (by decide) (by decide +kernel)]
              rest := written " int p" .empty (by decide) } }
      behind := .empty
      hname := by
        unfold AnnotatedHead.EndsInWord
        dsimp only
        decide +kernel }

theorem isNoType_sampleHead (arguments : EnclosedText .inside) :
    (sampleHead arguments).IsNoType := by
  have hbare : (sampleHead .empty).IsNoType := by
    unfold DeclarationHead.IsNoType
    decide +kernel
  have hsame : (sampleHead arguments).bare = sampleHead .empty := rfl
  unfold DeclarationHead.IsNoType
  rw [← DeclarationHead.ofTrees_bare, hsame]
  exact hbare

/-- The head of an enum. -/
def enumHead : DeclarationHead := .plain ⟨[], written " enum E " .empty (by decide)⟩

theorem isEnum_enumHead : enumHead.IsEnum := by
  unfold DeclarationHead.IsEnum
  decide +kernel

/-- A class with a method, a field and an enum. -/
def sample (arguments body : EnclosedText .inside) (value constants : EnclosedText .value) :
    SourceText where
  marked := false
  members :=
    [.type (.plain ⟨[], written "class A " .empty (by decide)⟩)
      [.block (sampleHead arguments) body (isNoType_sampleHead arguments),
        .field ⟨[], written "int f " .empty (by decide)⟩ value,
        .constantsOnly enumHead constants isEnum_enumHead]
      .empty]
  rest := []
  hmembers := by
    intro member hmember
    rw [List.mem_singleton.mp hmember]
    rfl
  hmarked := by
    intro _ hhead
    have hfirst : some 'c' = some Token.byteOrderMark := hhead
    exact absurd hfirst (by decide)

/-- An anonymous class, a local class, a lambda and the body of a constant, each with closing braces
that are hidden, do not change what is declared. -/
theorem parse_sample_hidden :
    let inBraces (place : Position) (h : '{' ∉ place.barred) : EnclosedText place :=
      bracketed ('{', '}') hidden .empty ⟨by decide, h⟩
    let inParens (place : Position) (h : '{' ∉ place.barred ∧ '(' ∉ place.barred) :
        EnclosedText place :=
      bracketed ('(', ')') .empty (inBraces place h.1) ⟨by decide, h.2⟩
    let first := sample .empty .empty (written "1" .empty (by decide))
      (written "X" .empty (by decide))
    let second := sample
      (written "new B" (inParens .inside (by decide)) (by decide))
      (written "class L " (bracketed ('{', '}')
        (written "void n" (inParens .inside (by decide)) (by decide)) .empty (by decide)) (by decide))
      (written "a ->" (inBraces .value (by decide)) (by decide))
      (written "X" (inBraces .value (by decide)) (by decide))
    first.outside = second.outside ∧
      (Source.parse second.string).map (fun root =>
        (root.methods.map fun method => (method.name, method.parameters.map (·.name)),
          root.nested.map (·.name))) = .ok ([("m", ["p"])], ["E"]) := by
  intro inBraces inParens first second
  have houtside : first.outside = second.outside := rfl
  refine ⟨houtside, ?_⟩
  rw [← (run_eq_of_outside first second houtside).1]
  decide +kernel

end Sample

/-! ### Bodies that are read -/

/-- A class with a body in the arguments of an annotation inside of a result type. -/
def readBodySource (body : String) : String :=
  "class A \x7b java.util.@N(new B() \x7b" ++ body ++ "\x7d) List m() \x7b \x7d \x7d"

/-- Two sources that differ in nothing but the body of an anonymous class need not declare the
same. -/
theorem parse_readBodySource_ne :
    Source.parse (readBodySource "int a;") ≠ Source.parse (readBodySource "int b;") := by
  let results (body : String) : Except Source.Fault (List String) :=
    (Source.parse (readBodySource body)).map fun root =>
      root.methods.map fun method => method.returnType.name
  have hfirst : results "int a;" = .ok ["java.util.@N(newB()\x7binta;\x7d)List"] := by
    decide +kernel
  have hsecond : results "int b;" = .ok ["java.util.@N(newB()\x7bintb;\x7d)List"] := by
    decide +kernel
  intro hparse
  have hresults : results "int a;" = results "int b;" := by
    unfold results
    rw [hparse]
  rw [hfirst, hsecond] at hresults
  exact absurd hresults (by decide)

end JavaSignatures.Session
