import JavaSignatures.Proofs.Bodies.Sources
import JavaSignatures.Proofs.Grammar.Declarations

set_option autoImplicit false

/-!
# Grammar: members

The members of a declaration, nested declarations to any depth.  Each member is one statement
(`Member.ofTrees_append`), and what is read of it is what was written: a method or constructor
(`Member.method?_statement`), a declaration (`Member.ofStatement?_statement`) or nothing.  The text
in the bodies of methods and initializers and in the constants of enums is left open.
-/

namespace JavaSignatures.Source

open JavaSignatures.Source.Tree (Nests)
open Canonical (StaysInHead)

namespace Grammar

/-- A member of a declaration. -/
inductive Member where
  /-- a method or constructor with a body -/
  | callable (head : Callable) (body : Enclosure .inside)
  /-- a method without a body -/
  | bodiless (head : MethodSyntax) (gap : List Lexeme)
  | field (head : FieldSyntax) (gap : List Lexeme)
  | initializer (modifiers : List Modifier) (body : Enclosure .inside)
  | annotationType (head : AnnotationTypeSyntax) (body : Enclosure .inside)
  | semicolon (gap : List Lexeme)
  | type (head : DeclarationSyntax) (opening : List Lexeme) (members : List Member)
    (closing : List Lexeme) (hkind : head.kind ≠ .enumKind)
  /-- an enum with members behind its constants -/
  | enumeration (head : DeclarationSyntax) (constants : Enclosure .value) (members : List Member)
    (closing : List Lexeme) (hkind : head.kind = .enumKind)
  /-- an enum of constants only -/
  | constantsOnly (head : DeclarationSyntax) (constants : Enclosure .value)
    (hkind : head.kind = .enumKind)

/-- A declaration with the members in its body; the constants of an enum are none. -/
structure Declared where
  head : DeclarationSyntax
  members : List Member

/-! ## How members are written -/

/-- A group in braces behind a head. -/
def braces (head : List Tree) (opening : List Lexeme) (inner : List Tree)
    (closing : List Lexeme) : List Tree :=
  head ++ [.group (Token.mark opening '{') inner (some (Token.mark closing '}'))]

namespace Member

mutual

/-- The trees of a member. -/
def trees (member : Member) : List Tree :=
  match member with
  | .callable head body => braces head.trees body.before body.inner body.behind
  | .bodiless head gap => head.trees ++ [.leaf (Token.mark gap ';')]
  | .field head gap => head.trees ++ [.leaf (Token.mark gap ';')]
  | .initializer modifiers body =>
    braces (modifierTrees modifiers) body.before body.inner body.behind
  | .annotationType head body => braces head.trees body.before body.inner body.behind
  | .semicolon gap => [.leaf (Token.mark gap ';')]
  | .type head opening members closing _ => braces head.trees opening (treesAll members) closing
  | .enumeration head constants members closing _ =>
    braces head.trees constants.before
      (constants.inner ++ .leaf (Token.mark constants.behind ';') :: treesAll members) closing
  | .constantsOnly head constants _ =>
    braces head.trees constants.before constants.inner constants.behind
termination_by structural member

/-- The trees of members one after the other. -/
def treesAll (members : List Member) : List Tree :=
  match members with
  | [] => []
  | member :: rest => trees member ++ treesAll rest
termination_by structural members

end

mutual

/-- The statement that a member is. -/
def statement (member : Member) : Statement :=
  match member with
  | .callable head body => .block head.trees (Statement.ofTrees body.inner)
  | .bodiless head _ => .plain head.trees
  | .field head _ => .plain head.trees
  | .initializer modifiers body => .block (modifierTrees modifiers) (Statement.ofTrees body.inner)
  | .annotationType head body => .block head.trees (Statement.ofTrees body.inner)
  | .semicolon _ => .plain []
  | .type head _ members _ _ => .block head.trees (statements members)
  | .enumeration head constants members _ _ =>
    .block head.trees
      (Statement.ofTrees (constants.inner ++ [.leaf (Token.mark constants.behind ';')]) ++
        statements members)
  | .constantsOnly head constants _ => .block head.trees (Statement.ofTrees constants.inner)
termination_by structural member

/-- The statements that members are. -/
def statements (members : List Member) : List Statement :=
  match members with
  | [] => []
  | member :: rest => statement member :: statements rest
termination_by structural members

end

theorem statements_eq_map (members : List Member) : statements members = members.map statement := by
  induction members with
  | nil => rfl
  | cons member rest ih => rw [statements, ih, List.map_cons]

/-! ## Members among other trees -/

theorem nests_braces {head inner : List Tree} (hhead : Nests head) (hinner : Nests inner)
    (opening closing : List Lexeme) : Nests (braces head opening inner closing) := by
  have hpair : ('{', '}') ∈ Brackets.nesting := by decide
  exact hhead.append (.enclosed _ _ _ hpair hinner)

theorem nests_semicolon (gap : List Lexeme) : Nests [.leaf (Token.mark gap ';')] :=
  .angle gap (Or.inr (Or.inr rfl))

mutual

theorem nests (member : Member) : Nests member.trees := by
  cases member with
  | callable head body => exact nests_braces head.nests body.row.nests _ _
  | bodiless head gap => exact head.nests.append (nests_semicolon gap)
  | field head gap => exact head.nests.append (nests_semicolon gap)
  | initializer modifiers body =>
    exact nests_braces (reads_modifiers modifiers).row.nests body.row.nests _ _
  | annotationType head body => exact nests_braces head.nests body.row.nests _ _
  | semicolon gap => exact nests_semicolon gap
  | type head opening members closing hkind =>
    rw [trees]
    exact nests_braces head.nests (nests_treesAll members) _ _
  | enumeration head constants members closing hkind =>
    rw [trees]
    exact nests_braces head.nests
      (constants.row.nests.append (.cons (nests_semicolon _) (nests_treesAll members))) _ _
  | constantsOnly head constants hkind => exact nests_braces head.nests constants.row.nests _ _
termination_by structural member

theorem nests_treesAll (members : List Member) : Nests (treesAll members) := by
  cases members with
  | nil => exact .nil
  | cons member rest =>
    rw [treesAll]
    exact (nests member).append (nests_treesAll rest)
termination_by structural members

end

theorem ofTrees_braces {head : List Tree} (hhead : ∀ tree ∈ head, StaysInHead tree)
    (opening closing : List Lexeme) (inner rest : List Tree) :
    Statement.ofTrees (braces head opening inner closing ++ rest) =
      .block head (Statement.ofTrees inner) :: Statement.ofTrees rest := by
  rw [braces, List.append_assoc, List.singleton_append]
  exact Canonical.ofTrees_block hhead _ _ _ _

mutual

/-- A member is one statement. -/
theorem ofTrees_append (member : Member) (rest : List Tree) :
    Statement.ofTrees (member.trees ++ rest) = member.statement :: Statement.ofTrees rest := by
  cases member with
  | callable head body => exact ofTrees_braces head.staysInHead _ _ _ _
  | bodiless head gap =>
    rw [trees, statement, List.append_assoc, List.singleton_append]
    exact Canonical.ofTrees_plain head.staysInHead _ _
  | field head gap =>
    rw [trees, statement, List.append_assoc, List.singleton_append]
    exact head.ofTrees_append _ _
  | initializer modifiers body =>
    exact ofTrees_braces ((reads_modifiers modifiers).row.staysInHead (by decide)) _ _ _ _
  | annotationType head body => exact ofTrees_braces head.staysInHead _ _ _ _
  | semicolon gap =>
    have hplain : ∀ tree ∈ ([] : List Tree), StaysInHead tree := by simp
    exact Canonical.ofTrees_plain hplain gap rest
  | type head opening members closing hkind =>
    have hmembers := ofTrees_treesAll members []
    rw [List.append_nil] at hmembers
    rw [trees, statement, ofTrees_braces head.staysInHead, hmembers]
    exact congrArg (fun body => Statement.block head.trees body :: _) (List.append_nil _)
  | enumeration head constants members closing hkind =>
    have hmembers := ofTrees_treesAll members []
    rw [List.append_nil] at hmembers
    have hconstants := Statement.ofTrees_semicolon (constants.row.not_isEnd (by decide))
      constants.behind (treesAll members)
    rw [trees, statement, ofTrees_braces head.staysInHead, hconstants, hmembers]
    exact congrArg (fun body => Statement.block head.trees (_ ++ body) :: _) (List.append_nil _)
  | constantsOnly head constants hkind => exact ofTrees_braces head.staysInHead _ _ _ _
termination_by structural member

theorem ofTrees_treesAll (members : List Member) (rest : List Tree) :
    Statement.ofTrees (treesAll members ++ rest) =
      statements members ++ Statement.ofTrees rest := by
  cases members with
  | nil => rfl
  | cons member more =>
    rw [treesAll, statements, List.append_assoc, ofTrees_append member, ofTrees_treesAll more]
    rfl
termination_by structural members

end

/-! ## What is read of a member -/

/-- The method or constructor that a member is. -/
def callable? : Member → Option Callable
  | .callable head _ => some head
  | .bodiless head _ => some (.method head)
  | _ => none

/-- The declaration that a member is. -/
def declared? : Member → Option Declared
  | .type head _ members _ _ => some ⟨head, members⟩
  | .enumeration head _ members _ _ => some ⟨head, members⟩
  | .constantsOnly head _ _ => some ⟨head, []⟩
  | _ => none

/-- A method or constructor is read as what was written. -/
theorem method?_statement (member : Member) :
    Outline.method? member.statement = member.callable?.map Callable.expr := by
  cases member with
  | callable head body => rw [statement, Outline.method?, head.ofTrees_eq]; rfl
  | bodiless head gap => rw [statement, Outline.method?, head.ofTrees_eq]; rfl
  | field head gap => rw [statement, Outline.method?, head.ofTrees_eq]; rfl
  | initializer modifiers body => rw [statement, Outline.method?, ofTrees_modifierTrees]; rfl
  | annotationType head body => rw [statement, Outline.method?, head.ofTrees_eq]; rfl
  | semicolon gap => rfl
  | type head opening members closing hkind =>
    rw [statement, Outline.method?, head.ofTrees_eq]; rfl
  | enumeration head constants members closing hkind =>
    rw [statement, Outline.method?, head.ofTrees_eq]; rfl
  | constantsOnly head constants hkind => rw [statement, Outline.method?, head.ofTrees_eq]; rfl

end Member

namespace Declared

/-- The methods and constructors that are members of a declaration, in order. -/
def callables (declared : Declared) : List Callable := declared.members.filterMap Member.callable?

/-- The declarations that are members of a declaration, in order. -/
def nested (declared : Declared) : List Declared := declared.members.filterMap Member.declared?

end Declared

namespace Member

mutual

/-- The outline that a member is read as, if it is a declaration. -/
def outline? (member : Member) : Option Outline :=
  match member with
  | .type head _ members _ _ =>
    some ⟨head.expr, (Declared.callables ⟨head, members⟩).map Callable.expr, outlines members⟩
  | .enumeration head _ members _ _ =>
    some ⟨head.expr, (Declared.callables ⟨head, members⟩).map Callable.expr, outlines members⟩
  | .constantsOnly head _ _ => some ⟨head.expr, [], []⟩
  | _ => none
termination_by structural member

/-- The outlines of the declarations among members. -/
def outlines (members : List Member) : List Outline :=
  match members with
  | [] => []
  | member :: rest => (outline? member).toList ++ outlines rest
termination_by structural members

end

theorem outlines_eq_filterMap (members : List Member) :
    outlines members = members.filterMap outline? := by
  induction members with
  | nil => rfl
  | cons member rest ih =>
    rw [outlines, ih]
    cases h : outline? member <;> simp [h]

/-- The members of a body are read one by one. -/
theorem filterMap_method?_statements (members : List Member) :
    (statements members).filterMap Outline.method? =
      (members.filterMap callable?).map Callable.expr := by
  rw [statements_eq_map, List.filterMap_map, List.map_filterMap]
  exact List.filterMap_congr fun member _ => member.method?_statement

/-- A declaration is read from its head and from the members in its body. -/
theorem ofStatement?_block (head : DeclarationSyntax) (body : List Statement) :
    Outline.ofStatement? (.block head.trees body) =
      some
        { head := head.expr
          methods := (Outline.members head.kind body).filterMap Outline.method?
          nested := Outline.ofStatements false (Outline.members head.kind body) } := by
  have hnested : Outline.ofStatements (head.kind == .enumKind) body =
      Outline.ofStatements false (Outline.members head.kind body) := by
    cases head.kind <;> first | rfl | exact Outline.ofStatements_true body
  rw [Outline.ofStatement?, head.ofTrees_eq]
  dsimp only
  rw [show head.expr.kind = head.kind from rfl, hnested]

mutual

/-- A declaration is read as what was written. -/
theorem ofStatement?_statement (member : Member) :
    Outline.ofStatement? member.statement = member.outline? := by
  cases member with
  | callable head body => rw [statement, Outline.ofStatement?, head.ofTrees_eq]; rfl
  | bodiless head gap => rfl
  | field head gap => rfl
  | initializer modifiers body => rw [statement, Outline.ofStatement?, ofTrees_modifierTrees]; rfl
  | annotationType head body => rw [statement, Outline.ofStatement?, head.ofTrees_eq]; rfl
  | semicolon gap => rfl
  | type head opening members closing hkind =>
    have hmembers : Outline.members head.kind (statements members) = statements members :=
      if_neg (by simpa using hkind)
    rw [statement, outline?, ofStatement?_block, hmembers, filterMap_method?_statements,
      ofStatements_statements members]
    rfl
  | enumeration head constants members closing hkind =>
    have hmembers := Statement.members_constants_append (constants.row.not_isEnd (by decide))
      constants.behind (statements members)
    rw [← hkind] at hmembers
    rw [statement, outline?, ofStatement?_block, hmembers, filterMap_method?_statements,
      ofStatements_statements members]
    rfl
  | constantsOnly head constants hkind =>
    have hmembers := Statement.members_constants (constants.row.not_isEnd (by decide))
    rw [← hkind] at hmembers
    rw [statement, outline?, ofStatement?_block, hmembers]
    rfl
termination_by structural member

theorem ofStatements_statements (members : List Member) :
    Outline.ofStatements false (statements members) = outlines members := by
  cases members with
  | nil => rfl
  | cons member rest =>
    rw [statements, Outline.ofStatements, outlines, ofStatement?_statement member,
      ofStatements_statements rest]
    rfl
termination_by structural members

end

end Member

namespace Declared

/-- The outline that a declaration is read as. -/
def outline (declared : Declared) : Outline where
  head := declared.head.expr
  methods := declared.callables.map Callable.expr
  nested := Member.outlines declared.members

theorem outline?_eq (member : Member) : member.outline? = member.declared?.map outline := by
  cases member with
  | type head opening members closing hkind => rw [Member.outline?]; rfl
  | enumeration head constants members closing hkind => rw [Member.outline?]; rfl
  | constantsOnly head constants hkind => rw [Member.outline?]; rfl
  | _ => rfl

theorem outlines_eq (members : List Member) :
    Member.outlines members = (members.filterMap Member.declared?).map outline := by
  rw [Member.outlines_eq_filterMap, List.map_filterMap]
  exact List.filterMap_congr fun member _ => outline?_eq member

/-- The nested declarations are read in order. -/
theorem nested_outline (declared : Declared) :
    declared.outline.nested = declared.nested.map outline :=
  outlines_eq declared.members

end Declared

end Grammar

end JavaSignatures.Source
