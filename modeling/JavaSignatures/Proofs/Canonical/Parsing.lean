import JavaSignatures.Proofs.Canonical.Heads
import JavaSignatures.Source.Elaboration

set_option autoImplicit false

/-!
# Canonical source text: parsing

The trees of a source file are cut into statements, the statements are read as the outlines of what
was written, and looking up the names of the outlines gives the declarations.  So parsing the text
of a source file gives back what it declares.
-/

namespace JavaSignatures.Source.Canonical

open JavaSignatures.Character
open Lexeme (space)
open JavaSignatures.Source.Tree (IsTypePart IsHeadPart loosen loosenAll)

/-! ## Statements -/

/-- The tree ends no statement and makes none an assignment. -/
def StaysInHead (tree : Tree) : Prop :=
  Statement.isEnd tree = false ∧ (∀ head, Statement.isBlock head tree = false) ∧
    tree.isSymbol '=' = false

theorem staysInHead_plain {token : Token} (h : token.IsPlain) : StaysInHead (.leaf token) := by
  refine ⟨?_, fun head => rfl, h.not_isSymbol (by decide)⟩
  have hsemicolon : token.isSymbol ';' = false := h.not_isSymbol (by decide)
  simp [Statement.isEnd, Statement.endsAt, hsemicolon, h.closed?_nesting]

theorem staysInHead_angle (gap : List Lexeme) {c : Char} (hc : c = '<' ∨ c = '>') :
    StaysInHead (.leaf (Token.mark gap c)) := by
  rcases hc with rfl | rfl <;> exact ⟨rfl, fun head => rfl, rfl⟩

theorem staysInHead_group {gap : List Lexeme} {c : Char} (hc : c ≠ '{') (inner : List Tree)
    (closing : Option Token) : StaysInHead (.group (Token.mark gap c) inner closing) := by
  refine ⟨rfl, fun head => ?_, rfl⟩
  simp [Statement.isBlock, Token.isSymbol_mark, hc]

theorem staysInHead_typePart {tree : Tree} (h : IsTypePart tree) :
    ∀ other ∈ loosen tree, StaysInHead other := by
  induction h with
  | plain hplain =>
    intro other hother
    obtain rfl := List.mem_singleton.mp hother
    exact staysInHead_plain hplain
  | brackets gap behind =>
    rw [Tree.loosen_group (by decide), List.forall_mem_singleton]
    exact staysInHead_group (by decide) _ _
  | angles gap behind h ih =>
    rw [Tree.loosen_angles, List.forall_mem_cons, List.forall_mem_append,
      List.forall_mem_singleton]
    refine ⟨staysInHead_angle gap (Or.inl rfl), fun other hother => ?_,
      staysInHead_angle behind (Or.inr rfl)⟩
    rw [Tree.loosenAll_eq_flatMap] at hother
    obtain ⟨tree, htree, hother⟩ := List.mem_flatMap.mp hother
    exact ih tree htree other hother

theorem staysInHead_of_isHeadPart {trees : List Tree} (h : ∀ tree ∈ trees, IsHeadPart tree) :
    ∀ tree ∈ loosenAll trees, StaysInHead tree := by
  intro other hother
  rw [Tree.loosenAll_eq_flatMap] at hother
  obtain ⟨tree, htree, hother⟩ := List.mem_flatMap.mp hother
  cases h tree htree with
  | part hpart => exact staysInHead_typePart hpart other hother
  | parens gap behind hinner =>
    rw [Tree.loosen_group (by decide)] at hother
    obtain rfl := List.mem_singleton.mp hother
    exact staysInHead_group (by decide) _ _

section Statements

variable {head trees : List Tree}

theorem not_isAssignment (h : ∀ tree ∈ head, StaysInHead tree) :
    Statement.isAssignment head = false := by
  unfold Statement.isAssignment
  rw [List.any_eq_false]
  intro tree htree
  rw [(h tree htree).2.2]
  simp

/-- What stays in the head of a statement is collected. -/
theorem ofTreesAfter_append (htrees : ∀ tree ∈ trees, StaysInHead tree) (rest : List Tree) :
    Statement.ofTreesAfter head (trees ++ rest) =
      Statement.ofTreesAfter (trees.reverse ++ head) rest := by
  induction trees generalizing head with
  | nil => rfl
  | cons tree trees ih =>
    obtain ⟨hend, hblock, -⟩ := htrees tree (by simp)
    have hmore : Statement.ofTreesAfter (tree :: head) (trees ++ rest) =
        Statement.ofTreesAfter (trees.reverse ++ tree :: head) rest :=
      ih fun other hother => htrees other (List.mem_cons_of_mem _ hother)
    rw [List.cons_append, Statement.ofTreesAfter, hend, hblock head]
    simp [hmore]

/-- A block ends the statement whose head is in front of it. -/
theorem ofTrees_block (htrees : ∀ tree ∈ trees, StaysInHead tree) (gap : List Lexeme)
    (inner : List Tree) (closing : Option Token) (rest : List Tree) :
    Statement.ofTrees (trees ++ .group (Token.mark gap '{') inner closing :: rest) =
      .block trees (Statement.ofTrees inner) :: Statement.ofTrees rest := by
  have hassignment : Statement.isAssignment (trees.reverse ++ []) = false :=
    not_isAssignment fun tree htree => htrees tree (by simpa using htree)
  have hblock : Statement.isBlock (trees.reverse ++ [])
      (.group (Token.mark gap '{') inner closing) = true := by
    simp only [Statement.isBlock, Token.isSymbol_mark, hassignment, beq_self_eq_true,
      Bool.not_false, Bool.and_self]
  unfold Statement.ofTrees
  rw [ofTreesAfter_append htrees, Statement.ofTreesAfter, hblock]
  simp [Statement.isEnd, Statement.inside]

/-- A semicolon ends the statement whose head is in front of it. -/
theorem ofTrees_plain (htrees : ∀ tree ∈ trees, StaysInHead tree) (gap : List Lexeme)
    (rest : List Tree) :
    Statement.ofTrees (trees ++ .leaf (Token.mark gap ';') :: rest) =
      .plain trees :: Statement.ofTrees rest := by
  have hend : Statement.isEnd (.leaf (Token.mark gap ';')) = true := rfl
  unfold Statement.ofTrees
  rw [ofTreesAfter_append htrees, Statement.ofTreesAfter, hend]
  simp

end Statements

namespace JavaMember

mutual

/-- The statement that a member of the declaration is. -/
def statement (owner : Identifier) (member : JavaMember) : List Lexeme → Statement :=
  match member with
  | .method written => fun gap => .block (loosenAll (written.head owner gap)) []
  | .nested isStatic head members => fun gap =>
    .block (loosenAll (head.trees isStatic gap))
      ((if head.kind == .enumKind then [.plain []] else []) ++ statements head.name members)
termination_by structural member

/-- The statements that members are. -/
def statements (owner : Identifier) (members : List JavaMember) : List Statement :=
  match members with
  | [] => []
  | member :: rest => statement owner member [space] :: statements owner rest
termination_by structural members

end

end JavaMember

/-- A method is one statement. -/
theorem ofTrees_method_append (owner : Identifier) (method : JavaMethod) (gap : List Lexeme)
    (rest : List Tree) :
    Statement.ofTrees (method.trees owner gap ++ rest) =
      .block (loosenAll (method.head owner gap)) [] :: Statement.ofTrees rest := by
  unfold JavaMethod.trees JavaMethod.emptyBody
  rw [List.append_assoc, List.singleton_append,
    ofTrees_block (staysInHead_of_isHeadPart (method.isHeadPart owner gap))]
  rfl

/-- A declaration is one statement; the first one in an enum ends its constants. -/
theorem ofTrees_head_append (head : JavaHead) (isStatic : Bool) (members : List Tree)
    (gap : List Lexeme) (rest : List Tree) :
    Statement.ofTrees (head.allTrees isStatic members gap ++ rest) =
      .block (loosenAll (head.trees isStatic gap))
        ((if head.kind == .enumKind then [.plain []] else []) ++ Statement.ofTrees members) ::
        Statement.ofTrees rest := by
  have hconstants : Statement.ofTrees (head.constantTrees ++ members) =
      (if head.kind == .enumKind then [.plain []] else []) ++ Statement.ofTrees members := by
    unfold JavaHead.constantTrees
    split
    · have hempty : ∀ tree ∈ ([] : List Tree), StaysInHead tree := by simp
      exact ofTrees_plain hempty [space] members
    · rfl
  unfold JavaHead.allTrees
  rw [List.append_assoc, List.singleton_append,
    ofTrees_block (staysInHead_of_isHeadPart (head.isHeadPart isStatic gap)), hconstants]

mutual

theorem JavaMember.ofTrees_append (owner : Identifier) (member : JavaMember)
    (gap : List Lexeme) (rest : List Tree) :
    Statement.ofTrees (member.trees owner gap ++ rest) =
      member.statement owner gap :: Statement.ofTrees rest := by
  cases member with
  | method written =>
    simp only [trees, statement]
    exact ofTrees_method_append owner written gap rest
  | nested isStatic head members =>
    have hmembers := ofTrees_treesAll head.name members
    simp only [trees, statement]
    rw [ofTrees_head_append, hmembers]
termination_by structural member

theorem JavaMember.ofTrees_treesAll (owner : Identifier) (members : List JavaMember) :
    Statement.ofTrees (treesAll owner members) = statements owner members := by
  cases members with
  | nil => rfl
  | cons member rest =>
    have hmember := ofTrees_append owner member [space]
    have hrest := ofTrees_treesAll owner rest
    simp only [treesAll, statements]
    rw [hmember, hrest]
termination_by structural members

end

/-! ## Outlines -/

namespace JavaMember

mutual

/-- The outline of a member, if it is a nested declaration. -/
def outline? (member : JavaMember) : Option Outline :=
  match member with
  | .method _ => none
  | .nested isStatic head members =>
    some
      { head := head.expr isStatic
        methods := (members.filterMap method?).map JavaMethod.expr
        nested := outlines members }
termination_by structural member

/-- The outlines of the nested declarations among members. -/
def outlines (members : List JavaMember) : List Outline :=
  match members with
  | [] => []
  | member :: rest => (outline? member).toList ++ outlines rest
termination_by structural members

end

/-- A statement declares the method that the member is. -/
theorem method?_statement (owner : Identifier) (member : JavaMember) {gap : List Lexeme}
    (hgap : gap.filter Lexeme.isComment = []) :
    Outline.method? (member.statement owner gap) = member.method?.map JavaMethod.expr := by
  cases member with
  | method written =>
    simp only [statement, Outline.method?, ofTrees_method owner written hgap]
    rfl
  | nested isStatic head members =>
    simp only [statement, Outline.method?, ofTrees_head head isStatic hgap]
    rfl

theorem filterMap_method?_statements (owner : Identifier) (members : List JavaMember) :
    (statements owner members).filterMap Outline.method? =
      (members.filterMap method?).map JavaMethod.expr := by
  induction members with
  | nil => rfl
  | cons member rest ih =>
    have hmember : Outline.method? (member.statement owner [space]) =
        member.method?.map JavaMethod.expr := method?_statement owner member rfl
    simp only [statements, List.filterMap_cons, hmember, ih]
    cases member.method? <;> rfl

end JavaMember

/-- The members of a body, behind the constants of an enum. -/
theorem members_body (kind : DeclarationKind) (body : List Statement) :
    Outline.members kind ((if kind == .enumKind then [.plain []] else []) ++ body) = body := by
  cases kind <;> rfl

/-- The nested declarations of a body, behind the constants of an enum. -/
theorem ofStatements_body (kind : DeclarationKind) (body : List Statement) :
    Outline.ofStatements (kind == .enumKind)
      ((if kind == .enumKind then [.plain []] else []) ++ body) =
        body.filterMap Outline.ofStatement? := by
  rw [← Outline.ofStatements_false]
  cases kind <;> rfl

mutual

/-- A statement is the declaration that the member is. -/
theorem JavaMember.ofStatement?_statement (owner : Identifier) (member : JavaMember)
    {gap : List Lexeme} (hgap : gap.filter Lexeme.isComment = []) :
    Outline.ofStatement? (member.statement owner gap) = member.outline? := by
  cases member with
  | method written =>
    simp only [statement, Outline.ofStatement?, ofTrees_method owner written hgap]
    rfl
  | nested isStatic head members =>
    have hnested := filterMap_ofStatement?_statements head.name members
    have hkind : (head.expr isStatic).kind = head.kind := rfl
    simp only [statement, Outline.ofStatement?, ofTrees_head head isStatic hgap, hkind,
      members_body, ofStatements_body, hnested, filterMap_method?_statements]
    rfl
termination_by structural member

theorem JavaMember.filterMap_ofStatement?_statements (owner : Identifier)
    (members : List JavaMember) :
    (statements owner members).filterMap Outline.ofStatement? = outlines members := by
  cases members with
  | nil => rfl
  | cons member rest =>
    have hmember : Outline.ofStatement? (member.statement owner [space]) = member.outline? :=
      ofStatement?_statement owner member rfl
    have hrest := filterMap_ofStatement?_statements owner rest
    simp only [statements, outlines, List.filterMap_cons, hmember, hrest]
    cases outline? member <;> rfl
termination_by structural members

end

/-! ## Names -/

theorem typeRef_withDimensions (context : Context) {type : TypeExpr} {ref : TypeRef}
    (h : context.typeRef type = ref) (hdimensions : ref.dimensions = 0) (dimensions : Nat) :
    context.typeRef (type.withDimensions dimensions) = { ref with dimensions := dimensions } := by
  unfold TypeExpr.withDimensions
  by_cases hzero : dimensions = 0
  · obtain ⟨name, qualifiedName, arguments, refDimensions, varargs⟩ := ref
    subst hzero
    subst hdimensions
    rw [if_pos (beq_self_eq_true 0), h]
  · rw [if_neg (by simpa using hzero), Context.typeRef, h, hdimensions, Nat.zero_add]

mutual

/-- Looking up the names of a type gives the reference that it is. -/
theorem JavaType.typeRef_expr (context : Context) (type : JavaType) :
    context.typeRef type.expr = type.ref context := by
  cases type with
  | primitive kind dimensions =>
    simp only [expr, ref]
    exact typeRef_withDimensions context rfl rfl dimensions
  | named name arguments dimensions =>
    have harguments := typeRefs_exprs context arguments
    simp only [expr, ref]
    cases arguments with
    | nil => exact typeRef_withDimensions context rfl rfl dimensions
    | cons first rest =>
      have happlied : context.typeRef (.applied (.name name.text) (exprs (first :: rest))) =
          { name := name.text
            qualifiedName := context.qualify name.text
            arguments := refs context (first :: rest) } := by
        rw [Context.typeRef, harguments]
        rfl
      exact typeRef_withDimensions context happlied rfl dimensions
termination_by structural type

theorem JavaType.typeRefs_exprs (context : Context) (types : List JavaType) :
    context.typeRefs (exprs types) = refs context types := by
  cases types with
  | nil => rfl
  | cons type rest =>
    have htype := typeRef_expr context type
    have hrest := typeRefs_exprs context rest
    simp only [exprs, refs, Context.typeRefs]
    rw [htype, hrest]
termination_by structural types

end

theorem typeVariables_exprs (context : Context) (introduced : List JavaVariable) :
    context.typeVariables (introduced.map JavaVariable.expr) =
      introduced.map (JavaVariable.typeVariable context) := by
  unfold Context.typeVariables
  rw [List.map_map]
  refine List.map_congr_left fun one _ => ?_
  have hbounds : context.typeRefs (one.bounds.map JavaType.expr) =
      one.bounds.map (JavaType.ref context) := by
    rw [← JavaType.exprs_eq_map, JavaType.typeRefs_exprs, JavaType.refs_eq_map]
  simp only [Function.comp_apply, JavaVariable.expr, JavaVariable.typeVariable, hbounds]

theorem JavaResult.typeRef_expr (context : Context) (result : JavaResult) :
    context.typeRef result.expr = result.ref context := by
  cases result with
  | void => rfl
  | value type => exact type.typeRef_expr context

/-- The text of a comment is kept as the comment. -/
theorem map_ofText (comment : Option DocText) :
    (comment.map fun comment => String.ofList comment.spell).map DocComment.ofText =
      comment.map DocText.docComment := by
  rw [Option.map_map]
  rfl

theorem JavaMethod.parameters_expr (context : Context) (method : JavaMethod) :
    (method.expr.parameters.map fun parameter =>
      (⟨parameter.name, context.typeRef parameter.type, parameter.varargs⟩ : Parameter)) =
      method.parametersIn context := by
  unfold expr parametersIn
  rw [List.map_map]
  refine List.map_congr_left fun item _ => ?_
  obtain ⟨varargs, parameter⟩ := item
  simp only [Function.comp_apply, JavaParameter.expr, JavaParameter.parameter,
    JavaType.typeRef_expr]

/-- Looking up the names of a method gives the method. -/
theorem JavaMethod.method_expr (context : Context) (owner : Identifier) (method : JavaMethod) :
    method.expr.method context owner.text = method.method context owner := by
  have hvariables : context.typeVariables method.expr.typeVariables =
      method.typeVariables.map (JavaVariable.typeVariable context) :=
    typeVariables_exprs context method.typeVariables
  unfold MethodHead.method JavaMethod.method
  simp only [method.parameters_expr, hvariables]
  unfold expr
  rw [map_ofText]
  cases method.called with
  | none => rfl
  | some called =>
    simp only [Option.map_some, Option.getD_some, Option.isNone_some, Bool.false_eq_true, if_false,
      JavaResult.typeRef_expr]

/-! ## Declarations -/

/-- The qualified name of a declaration in the one around it, or else in the package. -/
def JavaHead.qualifiedName (head : JavaHead) (imports : ImportScope) : Option String → String
  | some owner => owner ++ "." ++ head.name.text
  | none => imports.inPackage head.name.text

/-- Looking up the names of an outline gives the declaration with its head, if the nested outlines
give the nested declarations. -/
theorem declare_outline (context : Context) (owner : Option String) (head : JavaHead)
    (isStatic : Bool) (members : List JavaMember) {enclosing : List TypeVariable}
    (henclosing : (if owner.isSome && (head.expr isStatic).isInner then context.visible else []) =
      enclosing) {nested : List Declaration}
    (hnested : Outline.declareAll
      ⟨context.imports, enclosing ++ head.introduced context.imports enclosing⟩
      (some (head.qualifiedName context.imports owner)) (JavaMember.outlines members) = nested) :
    Outline.declare context owner
      ⟨head.expr isStatic, (members.filterMap JavaMember.method?).map JavaMethod.expr,
        JavaMember.outlines members⟩ =
      head.declaration context.imports enclosing (head.qualifiedName context.imports owner) members
        nested := by
  have hvariables : Context.typeVariables { context with visible := enclosing }
      (head.expr isStatic).typeVariables = head.introduced context.imports enclosing :=
    typeVariables_exprs _ head.typeVariables
  have hmethods : ∀ inner : Context,
      (((members.filterMap JavaMember.method?).map JavaMethod.expr).map fun method =>
        method.method inner head.name.text) =
      (members.filterMap JavaMember.method?).map fun method => method.method inner head.name := by
    intro inner
    rw [List.map_map]
    exact List.map_congr_left fun method _ => method.method_expr inner head.name
  have hcomment : (head.expr isStatic).comment.map DocComment.ofText =
      head.comment.map DocText.docComment := map_ofText head.comment
  have hname : (head.expr isStatic).name = head.name.text := rfl
  unfold Outline.declare JavaHead.declaration
  simp only [henclosing, hvariables, hcomment, hname, hmethods, Context.add]
  cases owner with
  | none =>
    unfold JavaHead.qualifiedName at hnested ⊢
    simp only [hnested]
    rfl
  | some owner =>
    unfold JavaHead.qualifiedName at hnested ⊢
    simp only [hnested]
    rfl

mutual

/-- Looking up the names of the outline of a member gives the nested declaration. -/
theorem JavaMember.declare_outline? (imports : ImportScope) (visible : List TypeVariable)
    (owner : String) (member : JavaMember) :
    member.outline?.map (Outline.declare ⟨imports, visible⟩ (some owner)) =
      member.declaration? imports visible owner := by
  cases member with
  | method written => rfl
  | nested isStatic head members =>
    have hnested := declareAll_outlines imports
      (head.enclosing isStatic visible ++
        head.introduced imports (head.enclosing isStatic visible))
      (owner ++ "." ++ head.name.text) members
    simp only [outline?, declaration?, Option.map_some]
    exact congrArg some (declare_outline ⟨imports, visible⟩ (some owner) head isStatic members
      rfl hnested)
termination_by structural member

theorem JavaMember.declareAll_outlines (imports : ImportScope) (visible : List TypeVariable)
    (owner : String) (members : List JavaMember) :
    Outline.declareAll ⟨imports, visible⟩ (some owner) (outlines members) =
      declarations imports visible owner members := by
  cases members with
  | nil => rfl
  | cons member rest =>
    have hmember := declare_outline? imports visible owner member
    have hrest := declareAll_outlines imports visible owner rest
    rw [Outline.declareAll_eq_map] at hrest ⊢
    simp only [outlines, declarations, List.map_append, hrest, ← hmember]
    cases outline? member <;> rfl
termination_by structural members

end

/-! ## Source files -/

/-- The trees of the package or of an import up to its end. -/
def clauseHead (word : String) (name : DottedName) (gap : List Lexeme) : List Tree :=
  .leaf (Token.word gap word.toList) :: name.trees [space]

section Clauses

variable (word : String) (name : DottedName) (gap : List Lexeme)

theorem isHeadPart_clauseHead : ∀ tree ∈ clauseHead word name gap, IsHeadPart tree := by
  unfold clauseHead
  rw [List.forall_mem_cons]
  exact ⟨IsHeadPart.part (isTypePart_word gap word.toList),
    fun tree htree => IsHeadPart.part (name.isTypePart [space] tree htree)⟩

theorem loosenAll_clauseHead : loosenAll (clauseHead word name gap) = clauseHead word name gap := by
  have hname := name.loosenAll_trees [space]
  rw [Tree.loosenAll_eq_flatMap] at hname ⊢
  rw [clauseHead, List.flatMap_cons, hname]
  rfl

/-- The package and each import is one statement. -/
theorem ofTrees_clause_append (rest : List Tree) :
    Statement.ofTrees (clauseTrees word name gap ++ rest) =
      .plain (clauseHead word name gap) :: Statement.ofTrees rest := by
  have hhead := staysInHead_of_isHeadPart (isHeadPart_clauseHead word name gap)
  rw [loosenAll_clauseHead] at hhead
  have hclause : clauseTrees word name gap ++ rest =
      clauseHead word name gap ++ .leaf (Token.mark [] ';') :: rest := by
    simp [clauseTrees, clauseHead]
  rw [hclause, ofTrees_plain hhead]

theorem ofTrees_clauseHead : Piece.ofTrees (clauseHead word name gap) =
    wordPiece gap word.toList :: pieces (name.trees [space]) := by
  rw [← loosenAll_clauseHead, pieces_of_loosenAll (isHeadPart_clauseHead word name gap)]
  rfl

theorem spelled?_name : SourceFile.spelled? (pieces (name.trees gap)) = some name.text := by
  rw [SourceFile.spelled?, spell_name, pieces_name]
  rfl

/-- The name of a clause with this keyword. -/
def nameBehind? (keyword : String) (clause : String × DottedName) : Option String :=
  if clause.1 == keyword then some clause.2.text else none

/-- A clause names a package if its keyword says so. -/
theorem package?_clause : SourceFile.package? (.plain (clauseHead word name gap)) =
    nameBehind? "package" (word, name) := by
  simp only [SourceFile.package?, ofTrees_clauseHead, List.dropWhile_cons,
    isAnnotation_wordPiece, Bool.false_eq_true, if_false, isKeyword_wordPiece, spelled?_name,
    nameBehind?]

/-- A clause imports a single type if its keyword says so: its name neither begins with `static` nor
ends in a star. -/
theorem import?_clause : SourceFile.import? (.plain (clauseHead word name gap)) =
    nameBehind? "import" (word, name) := by
  have hstatic : (pieces (name.trees [space])).head?.any (Piece.isKeyword · "static") = false := by
    have hfirst : name.first.text ≠ "static" := fun h =>
      name.first.not_mem_headWords (h ▸ by decide)
    rw [pieces_name, List.head?_cons, Option.any_some, Identifier.spell, isKeyword_wordPiece]
    exact beq_eq_false_iff_ne.mpr hfirst
  have hstar : (pieces (name.trees [space])).any (Piece.isSymbol · "*") = false := by
    rw [List.any_eq_false]
    intro piece hpiece
    rw [not_isSymbol_of_inType (isNamePart_name name [space] piece hpiece).2.2 (by decide)]
    simp
  simp only [SourceFile.import?, ofTrees_clauseHead, isKeyword_wordPiece, hstatic, hstar,
    Bool.not_false, Bool.and_true, spelled?_name, nameBehind?]

theorem ofStatement?_clause : Outline.ofStatement? (.plain (clauseHead word name gap)) = none := rfl

end Clauses

/-- The statements that clauses are. -/
def clauseStatements : List (String × DottedName) → List Lexeme → List Statement
  | [], _ => []
  | (word, name) :: rest, gap => .plain (clauseHead word name gap) :: clauseStatements rest [space]

theorem ofTrees_clausesTrees (clauses : List (String × DottedName))
    (trees : List Lexeme → List Tree) {gap : List Lexeme}
    (hgap : gap.filter Lexeme.isComment = []) :
    ∃ last : List Lexeme, last.filter Lexeme.isComment = [] ∧
      Statement.ofTrees (clausesTrees clauses trees gap) =
        clauseStatements clauses gap ++ Statement.ofTrees (trees last) := by
  induction clauses generalizing gap with
  | nil => exact ⟨gap, hgap, rfl⟩
  | cons clause rest ih =>
    obtain ⟨word, name⟩ := clause
    have hspace : [space].filter Lexeme.isComment = [] := rfl
    obtain ⟨last, hlast, hrest⟩ := ih hspace
    refine ⟨last, hlast, ?_⟩
    rw [clausesTrees, ofTrees_clause_append, hrest]
    rfl

/-- What is read of statements, if it is read of each clause whatever gap is in front of it. -/
theorem filterMap_clauseStatements {α : Type} {read? : Statement → Option α}
    {value? : String × DottedName → Option α}
    (h : ∀ word name gap, read? (.plain (clauseHead word name gap)) = value? (word, name))
    (clauses : List (String × DottedName)) (gap : List Lexeme) :
    (clauseStatements clauses gap).filterMap read? = clauses.filterMap value? := by
  induction clauses generalizing gap with
  | nil => rfl
  | cons clause rest ih =>
    obtain ⟨word, name⟩ := clause
    rw [clauseStatements, List.filterMap_cons, List.filterMap_cons, h, ih]

namespace CompilationUnit

/-- The outermost declaration as a member. -/
def member (unit : CompilationUnit) : JavaMember := .nested false unit.head unit.members

/-- The outline of the outermost declaration. -/
def outline (unit : CompilationUnit) : Outline where
  head := unit.head.expr false
  methods := (unit.members.filterMap JavaMember.method?).map JavaMethod.expr
  nested := JavaMember.outlines unit.members

/-- A source file is cut into its clauses and the outermost declaration. -/
theorem ofSource_spell (unit : CompilationUnit) :
    ∃ gap : List Lexeme, gap.filter Lexeme.isComment = [] ∧
      Statement.ofSource unit.spell =
        clauseStatements unit.clauses [] ++ [unit.member.statement unit.head.name gap] := by
  have hstart : ([] : List Lexeme).filter Lexeme.isComment = [] := rfl
  obtain ⟨gap, hgap, hstatements⟩ := ofTrees_clausesTrees unit.clauses
    (unit.member.trees unit.head.name) hstart
  have hroot := unit.member.ofTrees_append unit.head.name gap []
  rw [List.append_nil] at hroot
  refine ⟨gap, hgap, ?_⟩
  rw [Statement.ofSource, unit.ofTokens_ofSource, trees]
  rw [hroot] at hstatements
  exact hstatements

theorem filterMap_names (keyword word : String) (names : List DottedName) :
    (names.map (Prod.mk word)).filterMap (nameBehind? keyword) =
      if word == keyword then names.map DottedName.text else [] := by
  rw [List.filterMap_map]
  by_cases hword : (word == keyword) = true
  · have hsome : nameBehind? keyword ∘ Prod.mk word = some ∘ DottedName.text := by
      funext name
      simp only [Function.comp_apply, nameBehind?, hword, if_true]
    rw [hsome, if_pos hword, List.filterMap_eq_map]
  · have hnone : nameBehind? keyword ∘ Prod.mk word = fun _ => none := by
      funext name
      simp only [Function.comp_apply, nameBehind?, if_neg hword]
    rw [hnone, if_neg hword, List.filterMap_eq_nil_iff.mpr fun _ _ => rfl]

theorem filterMap_clauses (unit : CompilationUnit) (keyword : String) :
    unit.clauses.filterMap (nameBehind? keyword) =
      (if "package" == keyword then unit.package.toList.map DottedName.text else []) ++
        if "import" == keyword then unit.imports.map DottedName.text else [] := by
  rw [clauses, List.filterMap_append, filterMap_names, filterMap_names]

/-- Reading a source file gives its package, its imports and its one declaration. -/
theorem sourceFile_eq (unit : CompilationUnit) :
    SourceFile.ofSource unit.spell =
      { package := unit.package.map DottedName.text
        imports := unit.imports.map DottedName.text
        declarations := [unit.outline] } := by
  obtain ⟨gap, hgap, hstatements⟩ := unit.ofSource_spell
  have hpackage : (Statement.ofSource unit.spell).findSome? SourceFile.package? =
      unit.package.map DottedName.text := by
    have hclauses := filterMap_clauseStatements package?_clause unit.clauses []
    rw [unit.filterMap_clauses] at hclauses
    rw [hstatements, ← List.head?_filterMap, List.filterMap_append, hclauses]
    cases unit.package <;> rfl
  have himports : (Statement.ofSource unit.spell).filterMap SourceFile.import? =
      unit.imports.map DottedName.text := by
    have hclauses := filterMap_clauseStatements import?_clause unit.clauses []
    rw [unit.filterMap_clauses] at hclauses
    rw [hstatements, List.filterMap_append, hclauses]
    exact List.append_nil _
  have hdeclarations : Outline.ofStatements false (Statement.ofSource unit.spell) =
      [unit.outline] := by
    have hclauses : (clauseStatements unit.clauses []).filterMap Outline.ofStatement? =
        unit.clauses.filterMap fun _ => none :=
      filterMap_clauseStatements ofStatement?_clause unit.clauses []
    have hnone : (unit.clauses.filterMap fun _ => (none : Option Outline)) = [] :=
      List.filterMap_eq_nil_iff.mpr fun _ _ => rfl
    have hroot : Outline.ofStatement? (unit.member.statement unit.head.name gap) =
        some unit.outline :=
      unit.member.ofStatement?_statement unit.head.name hgap
    rw [hstatements, Outline.ofStatements_false, List.filterMap_append, hclauses, hnone,
      List.filterMap_cons_some hroot]
    rfl
  unfold SourceFile.ofSource
  simp only [hpackage, himports, hdeclarations]

theorem main?_eq (package : Option String) (imports : List String) (outline : Outline) :
    SourceFile.main? ⟨package, imports, [outline]⟩ = some outline := by
  unfold SourceFile.main?
  rw [List.find?_singleton]
  split <;> rfl

/-- Looking up the names of the outermost outline gives what the file declares. -/
theorem declare_outline (unit : CompilationUnit) :
    unit.outline.declare { imports := unit.importScope } none = unit.declaration := by
  have hnested := JavaMember.declareAll_outlines unit.importScope
    (unit.head.introduced unit.importScope [])
    (unit.importScope.inPackage unit.head.name.text) unit.members
  exact Canonical.declare_outline { imports := unit.importScope } none unit.head false unit.members
    rfl hnested

end CompilationUnit

end JavaSignatures.Source.Canonical
