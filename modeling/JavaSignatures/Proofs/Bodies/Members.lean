import JavaSignatures.Proofs.Bodies.Parameters

set_option autoImplicit false

/-!
# Members with any bodies

The members of a type declaration as they are written, with any text in their bodies, any initial
values of fields and any constants of enums.  Their texts are read one by one
(`Member.readAfter_append`), and each is one statement (`Member.ofTrees_append`).
-/

namespace JavaSignatures.Source

open Lexeme
open JavaSignatures.Source.Tree (tokensOf Nests)
open Canonical (StaysInHead)

/-! ## How members are written -/

/-- The type declaration of a head. -/
def Head.type? : Head → Option TypeHead
  | .type head => some head
  | _ => none

namespace DeclarationHead

/-- A block behind the head is not the body of a type declaration. -/
def IsNoType (head : DeclarationHead) : Prop := (Head.ofTrees true head.trees).type? = none

/-- The type declaration that a block behind the head is the body of is an enum. -/
def IsEnum (head : DeclarationHead) : Prop :=
  ∀ declared ∈ (Head.ofTrees true head.trees).type?, declared.kind = .enumKind

end DeclarationHead

/-- A member of a declaration, or a part of a source file. -/
inductive Member where
  /-- what ends at a semicolon without a value: a package clause, an import, a method without a body,
  a field without a value, or a semicolon alone -/
  | clause (head : DeclarationHead)
  | field (head : AnnotatedHead .fieldHead) (value : EnclosedText .value)
  /-- a method, a constructor, an initializer or a declaration that is none of a type -/
  | block (head : DeclarationHead) (body : EnclosedText .inside) (hhead : head.IsNoType)
  | type (head : DeclarationHead) (members : List Member) (rest : EnclosedText .head)
  /-- an enum with members behind its constants -/
  | enumeration (head : DeclarationHead) (constants : EnclosedText .value)
    (members : List Member) (rest : EnclosedText .head) (hhead : head.IsEnum)
  /-- an enum of constants only -/
  | constantsOnly (head : DeclarationHead) (constants : EnclosedText .value)
    (hhead : head.IsEnum)

namespace Member

mutual

/-- How a member is written. -/
def text (member : Member) : List Char :=
  match member with
  | .clause head => head.text ++ [';']
  | .field head value => head.text ++ '=' :: (value.text ++ [';'])
  | .block head body _ => head.text ++ '{' :: (body.text ++ ['}'])
  | .type head members rest => head.text ++ '{' :: (textAll members ++ (rest.text ++ ['}']))
  | .enumeration head constants members rest _ =>
    head.text ++ '{' :: (constants.text ++ ';' :: (textAll members ++ (rest.text ++ ['}'])))
  | .constantsOnly head constants _ => head.text ++ '{' :: (constants.text ++ ['}'])
termination_by structural member

/-- How members are written one after the other. -/
def textAll (members : List Member) : List Char :=
  match members with
  | [] => []
  | member :: rest => text member ++ textAll rest
termination_by structural members

end

/-- A group in braces behind a head. -/
def braces (head : DeclarationHead) (inner : List Tree) (gap : List Lexeme) : List Tree :=
  head.trees ++ [.group (Token.mark head.gap '{') inner (some (Token.mark gap '}'))]

mutual

/-- The trees of a member. -/
def trees (member : Member) : List Tree :=
  match member with
  | .clause head => head.trees ++ [.leaf (Token.mark head.gap ';')]
  | .field head value =>
    head.trees ++ .leaf (Token.mark head.rest.gap '=') ::
      (value.trees ++ [.leaf (Token.mark value.gap ';')])
  | .block head body _ => braces head body.trees body.gap
  | .type head members rest => braces head (treesAll members ++ rest.trees) rest.gap
  | .enumeration head constants members rest _ =>
    braces head
      (constants.trees ++ .leaf (Token.mark constants.gap ';') :: (treesAll members ++ rest.trees))
      rest.gap
  | .constantsOnly head constants _ => braces head constants.trees constants.gap
termination_by structural member

/-- The trees of members one after the other. -/
def treesAll (members : List Member) : List Tree :=
  match members with
  | [] => []
  | member :: rest => trees member ++ treesAll rest
termination_by structural members

end

mutual

/-- The statement that a member is. -/
def statement (member : Member) : Statement :=
  match member with
  | .clause head => .plain head.trees
  | .field head value => .plain (head.trees ++ .leaf (Token.mark head.rest.gap '=') :: value.trees)
  | .block head body _ => .block head.trees (Statement.ofTrees body.trees)
  | .type head members _ => .block head.trees (statements members)
  | .enumeration head constants members _ _ =>
    .block head.trees
      (Statement.ofTrees (constants.trees ++ [.leaf (Token.mark constants.gap ';')]) ++
        statements members)
  | .constantsOnly head constants _ => .block head.trees (Statement.ofTrees constants.trees)
termination_by structural member

/-- The statements that members are. -/
def statements (members : List Member) : List Statement :=
  match members with
  | [] => []
  | member :: rest => statement member :: statements rest
termination_by structural members

end

end Member

/-! ## Reading members -/

namespace Member

theorem readAfter_braces (head : DeclarationHead) {inner : List Char} {trees : List Tree}
    {gap : List Lexeme} (hinner : ∀ rest, readAfter [] (inner ++ '}' :: rest) =
      tokensOf trees ++ Token.mark gap '}' :: readAfter [] rest) (rest : List Char) :
    readAfter [] (head.text ++ '{' :: (inner ++ '}' :: rest)) =
      tokensOf (braces head trees gap) ++ readAfter [] rest := by
  rw [head.readAfter_append_mark (by decide), hinner]
  simp [braces, Tree.tokensOf_append, tokensOf, Tree.tokens]

mutual

/-- The text of a member is read for itself. -/
theorem readAfter_append (member : Member) (rest : List Char) :
    readAfter [] (member.text ++ rest) = tokensOf member.trees ++ readAfter [] rest := by
  cases member with
  | clause head =>
    rw [text, trees, List.append_assoc, List.singleton_append,
      head.readAfter_append_mark (by decide)]
    simp [Tree.tokensOf_append, tokensOf, Tree.tokens]
  | field head value =>
    have htext : (field head value).text ++ rest =
        head.text ++ '=' :: (value.text ++ ';' :: rest) := by simp [text]
    rw [htext, trees, head.readAfter_append_mark (by decide),
      value.readAfter_append_mark (by decide)]
    simp [Tree.tokensOf_append, tokensOf, Tree.tokens]
  | block head body hhead =>
    have htext : (block head body hhead).text ++ rest =
        head.text ++ '{' :: (body.text ++ '}' :: rest) := by simp [text]
    rw [htext, trees]
    exact readAfter_braces head (body.readAfter_append_mark (by decide)) rest
  | type head members behind =>
    have htext : (type head members behind).text ++ rest =
        head.text ++ '{' :: ((textAll members ++ behind.text) ++ '}' :: rest) := by simp [text]
    rw [htext, trees]
    refine readAfter_braces head (fun rest => ?_) rest
    rw [List.append_assoc, readAfter_textAll members, behind.readAfter_append_mark (by decide),
      Tree.tokensOf_append, List.append_assoc]
  | enumeration head constants members behind hhead =>
    have htext : (enumeration head constants members behind hhead).text ++ rest =
        head.text ++ '{' :: ((constants.text ++ ';' :: (textAll members ++ behind.text)) ++
          '}' :: rest) := by simp [text]
    rw [htext, trees]
    refine readAfter_braces head (fun rest => ?_) rest
    rw [List.append_assoc, List.cons_append, List.append_assoc,
      constants.readAfter_append_mark (by decide), readAfter_textAll members,
      behind.readAfter_append_mark (by decide)]
    simp [Tree.tokensOf_append, tokensOf, Tree.tokens]
  | constantsOnly head constants hhead =>
    have htext : (constantsOnly head constants hhead).text ++ rest =
        head.text ++ '{' :: (constants.text ++ '}' :: rest) := by simp [text]
    rw [htext, trees]
    exact readAfter_braces head (constants.readAfter_append_mark (by decide)) rest
termination_by structural member

theorem readAfter_textAll (members : List Member) (rest : List Char) :
    readAfter [] (textAll members ++ rest) =
      tokensOf (treesAll members) ++ readAfter [] rest := by
  cases members with
  | nil => rfl
  | cons member more =>
    rw [textAll, treesAll, List.append_assoc, readAfter_append member, readAfter_textAll more,
      Tree.tokensOf_append, List.append_assoc]
termination_by structural members

end

/-! ## Members among other trees -/

theorem nests_braces (head : DeclarationHead) {inner : List Tree} (hinner : Nests inner)
    (gap : List Lexeme) : Nests (braces head inner gap) := by
  have hpair : ('{', '}') ∈ Brackets.nesting := by decide
  exact head.nests.append (.enclosed _ _ _ hpair hinner)

theorem nests_semicolon (gap : List Lexeme) : Nests [.leaf (Token.mark gap ';')] :=
  .angle gap (Or.inr (Or.inr rfl))

mutual

theorem nests (member : Member) : Nests member.trees := by
  cases member with
  | clause head =>
    rw [trees]
    exact head.nests.append (nests_semicolon _)
  | field head value =>
    have hsign : Nests [.leaf (Token.mark head.rest.gap '=')] := .leaf rfl rfl
    rw [trees]
    exact head.nests.append (.cons hsign (value.treeRow.nests.append (nests_semicolon _)))
  | block head body hhead =>
    rw [trees]
    exact nests_braces head body.treeRow.nests _
  | type head members rest =>
    rw [trees]
    exact nests_braces head ((nests_treesAll members).append rest.treeRow.nests) _
  | enumeration head constants members rest hhead =>
    have hmembers := (nests_treesAll members).append rest.treeRow.nests
    rw [trees]
    exact nests_braces head
      (constants.treeRow.nests.append (.cons (nests_semicolon _) hmembers)) _
  | constantsOnly head constants hhead =>
    rw [trees]
    exact nests_braces head constants.treeRow.nests _
termination_by structural member

theorem nests_treesAll (members : List Member) : Nests (treesAll members) := by
  cases members with
  | nil => exact .nil
  | cons member rest =>
    rw [treesAll]
    exact (nests member).append (nests_treesAll rest)
termination_by structural members

end

end Member

/-! ## Members as statements -/

namespace Statement

section Rows

variable {trees : List Tree} (htrees : ∀ tree ∈ trees, isEnd tree = false)

include htrees

/-- Behind an equals sign no braces are a block. -/
theorem ofTreesAfter_assignment {before : List Tree} (hbefore : isAssignment before = true) (rest : List Tree) :
    ofTreesAfter before (trees ++ rest) = ofTreesAfter (trees.reverse ++ before) rest := by
  induction trees generalizing before with
  | nil => rfl
  | cons tree trees ih =>
    obtain ⟨hend, hmore⟩ := List.forall_mem_cons.mp htrees
    have hblock : isBlock before tree = false := by
      cases tree <;> simp [isBlock, hbefore]
    have hafter : isAssignment (tree :: before) = true := by
      rw [isAssignment, List.any_cons]
      exact Bool.or_eq_true_iff.mpr (Or.inr hbefore)
    have hrest := ih hmore hafter
    rw [List.cons_append, ofTreesAfter, hend, hblock]
    simp [hrest]

/-- Trees that do not end a statement are cut into blocks, what is left at the end apart. -/
theorem endsInBlock_of_mem_ofTreesAfter (before : List Tree) :
    ∀ statement ∈ ofTreesAfter before trees, Outline.endsInBlock statement = true := by
  induction trees generalizing before with
  | nil => simp [ofTreesAfter]
  | cons tree trees ih =>
    obtain ⟨hend, hmore⟩ := List.forall_mem_cons.mp htrees
    rw [ofTreesAfter, hend, if_neg Bool.false_ne_true]
    split
    · exact List.forall_mem_cons.mpr ⟨rfl, ih hmore []⟩
    · exact ih hmore _

/-- A semicolon behind them ends one more statement, and the statements behind it follow. -/
theorem exists_ofTreesAfter_semicolon (before : List Tree) (gap : List Lexeme) :
    ∃ head, ∀ rest, ofTreesAfter before (trees ++ .leaf (Token.mark gap ';') :: rest) =
      ofTreesAfter before trees ++ .plain head :: ofTreesAfter [] rest := by
  induction trees generalizing before with
  | nil => exact ⟨before.reverse, fun rest => rfl⟩
  | cons tree trees ih =>
    obtain ⟨hend, hmore⟩ := List.forall_mem_cons.mp htrees
    simp only [List.cons_append, ofTreesAfter, hend, Bool.false_eq_true, if_false]
    split
    · obtain ⟨head, hhead⟩ := ih hmore []
      exact ⟨head, fun rest => by rw [hhead]; rfl⟩
    · exact ih hmore _

end Rows

/-- A semicolon ends the constants of an enum, whatever stands behind it. -/
theorem ofTrees_semicolon {trees : List Tree} (htrees : ∀ tree ∈ trees, isEnd tree = false)
    (gap : List Lexeme) (rest : List Tree) :
    ofTrees (trees ++ .leaf (Token.mark gap ';') :: rest) =
      ofTrees (trees ++ [.leaf (Token.mark gap ';')]) ++ ofTrees rest := by
  obtain ⟨head, hhead⟩ := exists_ofTreesAfter_semicolon htrees [] gap
  unfold ofTrees
  rw [hhead, hhead, List.append_assoc]
  rfl

/-- The initial value of a field belongs to the head of a statement without a block. -/
theorem ofTrees_field {head value : List Tree} (hhead : ∀ tree ∈ head, StaysInHead tree)
    (hvalue : ∀ tree ∈ value, isEnd tree = false) (gap behind : List Lexeme) (rest : List Tree) :
    ofTrees (head ++ .leaf (Token.mark gap '=') :: (value ++ .leaf (Token.mark behind ';') :: rest)) =
      .plain (head ++ .leaf (Token.mark gap '=') :: value) :: ofTrees rest := by
  have hsign : ∀ before more, ofTreesAfter before (.leaf (Token.mark gap '=') :: more) =
      ofTreesAfter (.leaf (Token.mark gap '=') :: before) more := fun _ _ => rfl
  have hsemicolon : ∀ before, ofTreesAfter before (.leaf (Token.mark behind ';') :: rest) =
      .plain before.reverse :: ofTreesAfter [] rest := fun _ => rfl
  have hassignment : isAssignment (.leaf (Token.mark gap '=') :: (head.reverse ++ [])) = true := rfl
  unfold ofTrees
  rw [Canonical.ofTreesAfter_append hhead, hsign, ofTreesAfter_assignment hvalue hassignment,
    hsemicolon]
  simp

/-- What stays in a head is no statement without an end. -/
theorem ofTrees_eq_nil {trees : List Tree} (h : ∀ tree ∈ trees, StaysInHead tree) :
    ofTrees trees = [] := by
  have hall : ofTreesAfter [] (trees ++ []) = ofTreesAfter (trees.reverse ++ []) [] :=
    Canonical.ofTreesAfter_append h []
  rw [List.append_nil] at hall
  exact hall

end Statement

namespace Member

theorem ofTrees_braces (head : DeclarationHead) (inner : List Tree) (gap : List Lexeme)
    (rest : List Tree) :
    Statement.ofTrees (braces head inner gap ++ rest) =
      .block head.trees (Statement.ofTrees inner) :: Statement.ofTrees rest := by
  rw [braces, List.append_assoc, List.singleton_append]
  exact Canonical.ofTrees_block head.staysInHead _ _ _ _

mutual

/-- A member is one statement. -/
theorem ofTrees_append (member : Member) (rest : List Tree) :
    Statement.ofTrees (member.trees ++ rest) = member.statement :: Statement.ofTrees rest := by
  cases member with
  | clause head =>
    rw [trees, statement, List.append_assoc, List.singleton_append]
    exact Canonical.ofTrees_plain head.staysInHead _ _
  | field head value =>
    rw [trees, statement, List.append_assoc, List.cons_append, List.append_assoc,
      List.singleton_append]
    exact Statement.ofTrees_field (head.staysInHead (by decide))
      (value.treeRow.not_isEnd (by decide)) _ _ rest
  | block head body hhead =>
    rw [trees, statement, ofTrees_braces]
  | type head members behind =>
    rw [trees, statement, ofTrees_braces, ofTrees_treesAll members,
      Statement.ofTrees_eq_nil (behind.treeRow.staysInHead fun _ hc => hc), List.append_nil]
  | enumeration head constants members behind hhead =>
    have hconstants := Statement.ofTrees_semicolon (constants.treeRow.not_isEnd (by decide))
      constants.gap (treesAll members ++ behind.trees)
    rw [trees, statement, ofTrees_braces, hconstants, ofTrees_treesAll members,
      Statement.ofTrees_eq_nil (behind.treeRow.staysInHead fun _ hc => hc), List.append_nil]
  | constantsOnly head constants hhead =>
    rw [trees, statement, ofTrees_braces]
termination_by structural member

theorem ofTrees_treesAll (members : List Member) (rest : List Tree) :
    Statement.ofTrees (treesAll members ++ rest) =
      statements members ++ Statement.ofTrees rest := by
  cases members with
  | nil => rfl
  | cons member more =>
    rw [treesAll, statements, List.append_assoc, ofTrees_append member, ofTrees_treesAll more]
    rfl
termination_by structural members

end

end Member

end JavaSignatures.Source
