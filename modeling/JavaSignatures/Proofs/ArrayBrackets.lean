import JavaSignatures.Proofs.Grammar.Descent
import JavaSignatures.Proofs.LiteralArrays

set_option autoImplicit false

/-!
# Brackets on types and behind names

Pairs of brackets stand on a type or behind the name of a parameter or the parameters of a method,
with or without annotations.  Sources that differ in nothing but where they stand declare the same,
and each pair counts once (`Grammar.FileSyntax.brackets_of_parse`).

A parameter of any number of arguments keeps the pairs on its type, unless a comment stands between
its modifiers and its type: then the comment is taken for the type, and the pairs are lost
(`Grammar.FileSyntax.not_brackets_counted`).
-/

namespace JavaSignatures

/-! ## Dimensions of references -/

namespace TypeRef

/-- The reference with more pairs of brackets. -/
def addDimensions (type : TypeRef) (more : Nat) : TypeRef :=
  { type with dimensions := type.dimensions + more }

@[simp]
theorem addDimensions_zero (type : TypeRef) : type.addDimensions 0 = type := by
  cases type
  rfl

@[simp]
theorem addDimensions_add (type : TypeRef) (first second : Nat) :
    (type.addDimensions first).addDimensions second = type.addDimensions (first + second) := by
  simp [addDimensions, Nat.add_assoc]

end TypeRef

/-- A reference without arguments is written as without its own brackets, and these follow. -/
theorem Rendering.render_of_arguments_eq_nil {type : TypeRef} (harguments : type.arguments = [])
    (hvarargs : type.varargs = false) (rendering : Rendering) (scope : Scope) (varargs : Bool) :
    rendering.render scope type varargs =
      rendering.render scope { type with dimensions := 0 } false ++
        TypeRef.brackets (type.dimensions + if varargs then 1 else 0) := by
  obtain ⟨name, qualifiedName, arguments, dimensions, spread⟩ := type
  simp only at harguments hvarargs
  subst harguments
  subst hvarargs
  have hbare : rendering.renderBare scope ⟨name, qualifiedName, [], dimensions, false⟩ =
      rendering.renderBare scope ⟨name, qualifiedName, [], 0, false⟩ := rfl
  have hplain : (⟨name, qualifiedName, [], dimensions, false⟩ : TypeRef).isParameterized = false :=
    rfl
  have hplain' : (⟨name, qualifiedName, [], 0, false⟩ : TypeRef).isParameterized = false := rfl
  rw [render_eq_append_brackets, render_eq_append_brackets, hplain, hplain', hbare]
  simp [TypeRef.brackets]

namespace Source

namespace Context

variable (context : Context)

theorem typeRef_withDimensions (type : TypeExpr) (dimensions : Nat) :
    context.typeRef (type.withDimensions dimensions) =
      (context.typeRef type).addDimensions dimensions := by
  unfold TypeExpr.withDimensions
  split
  · next hzero => rw [eq_of_beq hzero, TypeRef.addDimensions_zero]
  · rw [typeRef]
    rfl

/-- No written type is one of any number of arguments by itself. -/
theorem varargs_typeRef (type : TypeExpr) : (context.typeRef type).varargs = false := by
  cases type with
  | name text => rfl
  | verbatim text => rfl
  | applied base arguments =>
    rw [typeRef]
    exact varargs_typeRef base
  | array element dimensions =>
    rw [typeRef]
    exact varargs_typeRef element
termination_by structural type

end Context

/-- Declarations with the same head are the same if their methods and their nested declarations are,
wherever they stand. -/
theorem Outline.declare_congr {head : TypeHead} {methods others : List MethodHead}
    {nested inner : List Outline}
    (hmethods : ∀ context owner, methods.map (MethodHead.method · context owner) =
      others.map (MethodHead.method · context owner))
    (hnested : ∀ context owner, nested.map (Outline.declare context owner) =
      inner.map (Outline.declare context owner)) (context : Context) (owner : Option String) :
    Outline.declare context owner ⟨head, methods, nested⟩ =
      Outline.declare context owner ⟨head, others, inner⟩ := by
  simp only [Outline.declare, Outline.declareAll_eq_map, hmethods, hnested]

namespace Grammar

/-! ## Brackets gathered on types -/

/-- The word without what stands in front of it. -/
def Word.bare (word : Word) : Word := { word with gap := [] }

namespace TypeSyntax

/-- The type with all pairs of brackets, as many more included, without anything in front of them.
-/
def gather (type : TypeSyntax) (more : List Dimension) : TypeSyntax where
  name := type.name
  dimensions := List.replicate (type.dimensions.length + more.length) {}

variable (context : Context) (type : TypeSyntax)

/-- Each pair of brackets counts once. -/
theorem dimensions_typeRef : (context.typeRef type.expr).dimensions = type.dimensions.length := by
  rw [expr, Context.typeRef_withDimensions, TypeName.expr, TypeRef.addDimensions]
  dsimp only
  rw [TypeExpr.dimensions_ofNameRow, Nat.zero_add]

theorem typeRef_gather (more : List Dimension) :
    context.typeRef (type.gather more).expr =
      (context.typeRef type.expr).addDimensions more.length := by
  simp only [gather, expr, Context.typeRef_withDimensions, List.length_replicate,
    TypeRef.addDimensions_add]

end TypeSyntax

/-- The parameter that a written one becomes. -/
def parameterOf (context : Context) (expr : ParameterExpr) : Parameter :=
  ⟨expr.name, context.typeRef expr.type, expr.varargs⟩

/-- The method of a head, its parameters one by one. -/
theorem method_eq (head : MethodHead) (context : Context) (owner : String) :
    head.method context owner =
      let introduced := context.typeVariables head.typeVariables
      { name := head.name.getD owner
        returnType := if head.name.isNone then {} else
          (context.add introduced).typeRef head.result
        parameters := head.parameters.map (parameterOf (context.add introduced))
        isConstructor := head.name.isNone
        visibility := head.visibility
        comment := head.comment.map DocComment.ofText
        typeVariables := introduced } := rfl

namespace ParameterSyntax

/-- The parameter with all pairs of brackets on its type. -/
def gathered : ParameterSyntax → ParameterSyntax
  | .single modifiers type name dimensions hname =>
    .single modifiers (type.gather dimensions) name.bare [] hname
  | .spread modifiers type before gap behind name =>
    .spread modifiers (type.gather []) before gap behind name
  | .receiver modifiers type owners gap => .receiver modifiers type owners gap

theorem parameterOf_gathered (context : Context) (parameter : ParameterSyntax) :
    parameter.gathered.expr?.map (parameterOf context) =
      parameter.expr?.map (parameterOf context) := by
  cases parameter with
  | single modifiers type name dimensions hname =>
    simp only [gathered, expr?, Option.map_some, parameterOf, Context.typeRef_withDimensions,
      type.typeRef_gather, List.length_nil, TypeRef.addDimensions_zero]
    rfl
  | spread modifiers type before gap behind name =>
    have hcomment : hiddenComment? modifiers (type.gather []) = hiddenComment? modifiers type := rfl
    simp only [gathered, expr?, Option.map_some, parameterOf, hcomment]
    cases hiddenComment? modifiers type with
    | none =>
      simp only [Option.map_none, Option.getD_none, type.typeRef_gather, List.length_nil,
        TypeRef.addDimensions_zero]
    | some comment => rfl
  | receiver modifiers type owners gap => rfl

end ParameterSyntax

namespace Parameters

/-- The parameters with all pairs of brackets on their types. -/
def gathered (parameters : Parameters) : Parameters :=
  { parameters with
    items := parameters.items.map fun (first, more) =>
      (first.gathered, more.map fun (gap, parameter) => (gap, parameter.gathered)) }

theorem list_gathered (parameters : Parameters) :
    parameters.gathered.list = parameters.list.map ParameterSyntax.gathered := by
  obtain ⟨before, items, behind⟩ := parameters
  cases items with
  | none => rfl
  | some items => simp [gathered, list, Function.comp_def]

/-- The parameters that the written ones become. -/
theorem parameterOf_gathered (context : Context) (parameters : Parameters) :
    (parameters.gathered.list.filterMap ParameterSyntax.expr?).map (parameterOf context) =
      (parameters.list.filterMap ParameterSyntax.expr?).map (parameterOf context) := by
  rw [list_gathered, List.filterMap_map, List.map_filterMap, List.map_filterMap]
  exact List.filterMap_congr fun parameter _ => parameter.parameterOf_gathered context

end Parameters

namespace Callable

/-- The method or constructor with all pairs of brackets on types. -/
def gathered : Callable → Callable
  | .method head =>
    .method
      { head with
        result := head.result.gather head.dimensions
        name := head.name.bare
        parameters := head.parameters.gathered
        dimensions := [] }
  | .constructor head => .constructor { head with parameters := head.parameters.gathered }
  | .compact head => .compact head

/-- The comment in front of a head does not depend on what is behind its first piece. -/
theorem commentOf_cons (modifiers : List Modifier) (first : Piece) (rest others : List Piece) :
    commentOf modifiers (first :: rest) = commentOf modifiers (first :: others) := by
  cases modifiers <;> rfl

theorem commentOf_introduced (modifiers : List Modifier) (introduced : Option Introduced)
    (word : Word) (rest others : List Piece) :
    commentOf modifiers (introducedPieces introduced ++ word.piece :: rest) =
      commentOf modifiers (introducedPieces introduced ++ word.piece :: others) := by
  cases introduced with
  | none => exact commentOf_cons ..
  | some introduced => exact commentOf_cons ..

/-- Where the pairs of brackets stand does not matter to what is declared. -/
theorem method_gathered (callable : Callable) (context : Context) (owner : String) :
    callable.gathered.expr.method context owner = callable.expr.method context owner := by
  cases callable with
  | method head =>
    have hcomment : commentOf head.modifiers (MethodSyntax.row
        { head with
          result := head.result.gather head.dimensions
          name := head.name.bare
          parameters := head.parameters.gathered
          dimensions := [] }) = commentOf head.modifiers head.row := by
      rw [MethodSyntax.row_eq, MethodSyntax.row_eq]
      exact commentOf_introduced ..
    simp only [gathered, expr, MethodSyntax.expr, method_eq, hcomment,
      Parameters.parameterOf_gathered, Context.typeRef_withDimensions,
      TypeSyntax.typeRef_gather, List.length_nil, TypeRef.addDimensions_zero]
    rfl
  | constructor head =>
    have hcomment : commentOf head.modifiers (ConstructorSyntax.row
        { head with parameters := head.parameters.gathered }) =
          commentOf head.modifiers head.row := commentOf_introduced ..
    simp only [gathered, expr, ConstructorSyntax.expr, method_eq, hcomment,
      Parameters.parameterOf_gathered]
    rfl
  | compact head => rfl

end Callable

namespace Member

mutual

/-- The member with all pairs of brackets on types, in the declarations inside of it too. -/
def gathered (member : Member) : Member :=
  match member with
  | .callable head body => .callable head.gathered body
  | .bodiless head gap =>
    .bodiless
      { head with
        result := head.result.gather head.dimensions
        name := head.name.bare
        parameters := head.parameters.gathered
        dimensions := [] } gap
  | .type head opening members closing hkind =>
    .type head opening (gatheredAll members) closing hkind
  | .enumeration head constants members closing hkind =>
    .enumeration head constants (gatheredAll members) closing hkind
  | other => other
termination_by structural member

/-- The members with all pairs of brackets on types. -/
def gatheredAll (members : List Member) : List Member :=
  match members with
  | [] => []
  | member :: rest => gathered member :: gatheredAll rest
termination_by structural members

end

theorem gatheredAll_eq_map (members : List Member) :
    gatheredAll members = members.map gathered := by
  induction members with
  | nil => rfl
  | cons member rest ih => rw [gatheredAll, ih, List.map_cons]

theorem callable?_gathered (member : Member) :
    member.gathered.callable? = member.callable?.map Callable.gathered := by
  cases member <;> rfl

theorem method_callables_gathered (head : DeclarationSyntax) (members : List Member)
    (context : Context) (owner : String) :
    ((Declared.callables ⟨head, gatheredAll members⟩).map Callable.expr).map
        (MethodHead.method · context owner) =
      ((Declared.callables ⟨head, members⟩).map Callable.expr).map
        (MethodHead.method · context owner) := by
  have hcallable : callable? ∘ gathered = fun member => member.callable?.map Callable.gathered :=
    funext callable?_gathered
  unfold Declared.callables
  dsimp only
  rw [gatheredAll_eq_map, List.filterMap_map, hcallable, ← List.map_filterMap, List.map_map,
    List.map_map, List.map_map]
  exact List.map_congr_left fun callable _ => callable.method_gathered context owner

mutual

/-- A declaration declares the same with all pairs of brackets on types. -/
theorem declare_gathered (member : Member) (context : Context) (owner : Option String) :
    member.gathered.outline?.map (Outline.declare context owner) =
      member.outline?.map (Outline.declare context owner) := by
  cases member with
  | type head opening members closing hkind =>
    rw [gathered, outline?, outline?, Option.map_some, Option.map_some]
    exact congrArg some (Outline.declare_congr (method_callables_gathered head members)
      (declare_gatheredAll members) context owner)
  | enumeration head constants members closing hkind =>
    rw [gathered, outline?, outline?, Option.map_some, Option.map_some]
    exact congrArg some (Outline.declare_congr (method_callables_gathered head members)
      (declare_gatheredAll members) context owner)
  | _ => rfl
termination_by structural member

theorem declare_gatheredAll (members : List Member) (context : Context) (owner : Option String) :
    (outlines (gatheredAll members)).map (Outline.declare context owner) =
      (outlines members).map (Outline.declare context owner) := by
  cases members with
  | nil => rfl
  | cons member rest =>
    have hmember := declare_gathered member context owner
    rw [gatheredAll, outlines, outlines, List.map_append, List.map_append,
      declare_gatheredAll rest, ← Option.toList_map, hmember, Option.toList_map]
termination_by structural members

end

end Member

/-- The declaration with all pairs of brackets on types. -/
def Declared.gathered (declared : Declared) : Declared where
  head := declared.head
  members := Member.gatheredAll declared.members

theorem Declared.declare_gathered (declared : Declared) (context : Context)
    (owner : Option String) :
    declared.gathered.outline.declare context owner = declared.outline.declare context owner :=
  Outline.declare_congr (Member.method_callables_gathered declared.head declared.members)
    (Member.declare_gatheredAll declared.members) context owner

theorem Member.declared?_gathered (member : Member) :
    member.gathered.declared? = member.declared?.map Declared.gathered := by
  cases member <;> rfl

/-- The part of a file with all pairs of brackets on types. -/
def Item.gathered : Item → Item
  | .member inner => .member inner.gathered
  | other => other

namespace FileSyntax

/-- The file with all pairs of brackets on types. -/
def gathered (file : FileSyntax) : FileSyntax where
  items := file.items.map Item.gathered

theorem declarations_gathered (file : FileSyntax) :
    file.gathered.declarations = file.declarations.map Declared.gathered := by
  have hdeclared : Item.declared? ∘ Item.gathered =
      fun item => item.declared?.map Declared.gathered := by
    funext item
    cases item with
    | member inner => exact inner.declared?_gathered
    | _ => rfl
  rw [declarations, gathered, List.filterMap_map, hdeclared, declarations, List.map_filterMap]

theorem scope_gathered (file : FileSyntax) : file.gathered.scope = file.scope := by
  have hpackage : Item.package? ∘ Item.gathered = Item.package? := by
    funext item
    cases item <;> rfl
  have himport : Item.import? ∘ Item.gathered = Item.import? := by
    funext item
    cases item <;> rfl
  simp only [scope, gathered, List.findSome?_map, List.filterMap_map, hpackage, himport]

theorem main?_gathered (file : FileSyntax) :
    file.gathered.main? = file.main?.map Declared.gathered := by
  rw [main?, declarations_gathered, List.find?_map, List.head?_map, ← Option.map_or]
  rfl

/-- What a file with all pairs of brackets on types would be read as. -/
theorem parse_eq_gathered {file : FileSyntax} {source : String} (h : file.IsWrittenAs source) :
    parse source =
      match file.gathered.main? with
      | some declared => .ok (declared.outline.declare { imports := file.gathered.scope } none)
      | none => .error .noDeclaration := by
  rw [parse_eq h, main?_gathered, scope_gathered]
  cases file.main? with
  | none => rfl
  | some main => exact congrArg Except.ok (main.declare_gathered _ _).symm

end FileSyntax

/-! ## Pairs of brackets that are read -/

namespace ParameterSyntax

/-- The number of pairs of brackets on the type of a parameter and behind its name. -/
def brackets : ParameterSyntax → Nat
  | .single _ type _ dimensions _ => type.dimensions.length + dimensions.length
  | .spread _ type .. => type.dimensions.length
  | .receiver _ type .. => type.dimensions.length

/-- The parameter is no receiver. -/
def isFormal : ParameterSyntax → Bool
  | .receiver .. => false
  | _ => true

/-- All parameters but a receiver are read. -/
theorem isFormal_eq_isSome (parameter : ParameterSyntax) :
    parameter.isFormal = parameter.expr?.isSome := by
  cases parameter <;> rfl

/-- The comment that is taken for the type of a parameter. -/
def hiddenType? : ParameterSyntax → Option String
  | .spread modifiers type .. => hiddenComment? modifiers type
  | _ => none

/-- Each pair of brackets counts, and dots make the parameter one of any number of arguments. -/
def KeepsBrackets (parameter : ParameterSyntax) (read : Parameter) : Prop :=
  read.type.dimensions = parameter.brackets ∧ read.varargs = parameter.isVarargs

/-- In a signature the type of any number of arguments has one more pair of brackets behind what is
written for the type alone. -/
def IsSpelledWith (read : Parameter) (pairs : Nat) : Prop :=
  ∀ (rendering : Rendering) (scope : Scope),
    rendering.render scope read.type read.varargs =
      rendering.render scope { read.type with dimensions := 0 } false ++ TypeRef.brackets pairs

/-- What is read of a parameter: a comment that is taken for its type, or its type with each pair of
brackets. -/
def IsReadAs (parameter : ParameterSyntax) (read : Parameter) : Prop :=
  match parameter.hiddenType? with
  | some comment => read.type = .simple comment comment ∧ read.varargs = true
  | none => parameter.KeepsBrackets read ∧
    (parameter.isVarargs = true → read.type.arguments = [] →
      IsSpelledWith read (parameter.brackets + 1))

variable {parameter : ParameterSyntax} {expr : ParameterExpr}

theorem isReadAs_parameterOf (context : Context) (h : parameter.expr? = some expr) :
    parameter.IsReadAs (parameterOf context expr) := by
  cases parameter with
  | single modifiers type name dimensions hname =>
    obtain rfl := Option.some.inj h
    refine ⟨⟨?_, rfl⟩, fun hvarargs => absurd hvarargs Bool.false_ne_true⟩
    simp only [parameterOf, Context.typeRef_withDimensions, TypeRef.addDimensions,
      type.dimensions_typeRef, brackets]
  | spread modifiers type before gap behind name =>
    obtain rfl := Option.some.inj h
    have hdimensions := type.dimensions_typeRef context
    unfold IsReadAs
    rw [hiddenType?]
    cases hiddenComment? modifiers type with
    | some comment => exact ⟨rfl, rfl⟩
    | none =>
      refine ⟨⟨hdimensions, rfl⟩, fun _ harguments rendering scope => ?_⟩
      have hrendered := Rendering.render_of_arguments_eq_nil harguments
        (context.varargs_typeRef _) rendering scope true
      simp only [parameterOf, Option.map_none, Option.getD_none, hdimensions, if_true] at hrendered
      exact hrendered
  | receiver modifiers type owners gap => exact absurd h (by simp [expr?])

/-- The parameters are read one by one, the receiver apart. -/
theorem isReadAs_list (context : Context) (list : List ParameterSyntax) :
    List.Forall₂ IsReadAs (list.filter isFormal)
      ((list.filterMap expr?).map (parameterOf context)) := by
  induction list with
  | nil => exact .nil
  | cons parameter list ih =>
    cases hexpr : parameter.expr? with
    | none =>
      have hformal : parameter.isFormal = false := by
        rw [isFormal_eq_isSome, hexpr, Option.isSome_none]
      rw [List.filter_cons_of_neg (by simp [hformal]), List.filterMap_cons_none hexpr]
      exact ih
    | some expr =>
      have hformal : parameter.isFormal = true := by
        rw [isFormal_eq_isSome, hexpr, Option.isSome_some]
      rw [List.filter_cons_of_pos hformal, List.filterMap_cons_some hexpr, List.map_cons]
      exact .cons (isReadAs_parameterOf context hexpr) ih

end ParameterSyntax

namespace Callable

/-- The parameters of a method or constructor in order. -/
def parameters : Callable → List ParameterSyntax
  | .method head => head.parameters.list
  | .constructor head => head.parameters.list
  | .compact _ => []

/-- The number of pairs of brackets on the result of a method and behind its parameters. -/
def resultBrackets? : Callable → Option Nat
  | .method head => some (head.result.dimensions.length + head.dimensions.length)
  | _ => none

/-- What is read of a method or constructor: its result and its parameters, the receiver apart, with
each pair of brackets. -/
structure IsReadAs (callable : Callable) (method : Method) : Prop where
  result : ∀ brackets ∈ callable.resultBrackets?, method.returnType.dimensions = brackets
  parameters : List.Forall₂ ParameterSyntax.IsReadAs
    (callable.parameters.filter ParameterSyntax.isFormal) method.parameters

theorem isReadAs_method (callable : Callable) (context : Context) (owner : String) :
    callable.IsReadAs (callable.expr.method context owner) := by
  cases callable with
  | method head =>
    refine ⟨fun brackets hbrackets => ?_, ParameterSyntax.isReadAs_list _ head.parameters.list⟩
    obtain rfl := Option.some.inj hbrackets
    simp only [expr, MethodSyntax.expr, method_eq, Context.typeRef_withDimensions,
      TypeRef.addDimensions, TypeSyntax.dimensions_typeRef, Option.isNone_some,
      Bool.false_eq_true, if_false]
  | constructor head =>
    exact ⟨fun brackets h => absurd h (by simp [resultBrackets?]),
      ParameterSyntax.isReadAs_list _ head.parameters.list⟩
  | compact head =>
    exact ⟨fun brackets h => absurd h (by simp [resultBrackets?]), .nil⟩

end Callable

namespace FileSyntax

/-- Source texts that are written as the same file with all pairs of brackets on types declare the
same.  The result and the parameters of each method have as many dimensions as pairs of brackets
are written; a parameter of any number of arguments is marked as one, and without type arguments it
is written in signatures with one more pair behind its type.  A comment between modifiers and type
of such a parameter is taken for its type. -/
theorem brackets_of_parse {file : FileSyntax} {source : String} (h : file.IsWrittenAs source) :
    (∀ (other : FileSyntax) (text : String), other.IsWrittenAs text →
      other.gathered = file.gathered → parse text = parse source) ∧
    ∀ root names found, parse source = .ok root → root.descend? names = some found →
      ∃ main written, file.main? = some main ∧ main.descend? names = some written ∧
        List.Forall₂ Callable.IsReadAs written.callables found.methods := by
  constructor
  · intro other text hother hsame
    rw [parse_eq_gathered h, parse_eq_gathered hother, hsame]
  · intro root names found hroot hfound
    obtain ⟨main, written, hmain, -, hwritten, hread, -⟩ := exists_written h hroot hfound
    refine ⟨main, written, hmain, hwritten, ?_⟩
    rw [hread.methods, List.forall₂_map_right_iff, List.forall₂_same]
    exact fun callable _ => callable.isReadAs_method _ _

/-! ### A method with arrays -/

section Sample

open Lexeme (space)

/-- A class of one method. -/
def methodFile (head : MethodSyntax) : FileSyntax where
  items :=
    [.member (.type { kind := .classKind, name := .spaced "A" } [space]
      [.callable (.method head) { before := [space], behind := [space] }] [space] (by decide))]

/-- An annotation without arguments behind a space. -/
def noteN : Annotation where
  gap := [space]
  name := ⟨⟨[], "N".toList⟩, []⟩
  hname := by decide

/-- `java.util.List<int[]>` behind a space. -/
def listOfArrays : TypeName where
  word := .spaced "java"
  more :=
    [{ word := ⟨[], "util".toList⟩ },
      { word := ⟨[], "List".toList⟩
        arguments := some
          { inner := [(⟨[], "int".toList⟩ : Word).tree,
              .group (Token.mark [] '[') [] (some (Token.mark [] ']'))]
            row := .leaf (fun _ _ => rfl)
              (.group [] [] (by decide : ('[', ']') ∈ Brackets.nesting) (by decide)
                (.nil _) (.nil _)) } }]
  hword := by decide

/-- A type variable of the method. -/
def variableT : Introduced where
  list :=
    { before := [space]
      inner := [(⟨[], "T".toList⟩ : Word).tree]
      row := .leaf (fun _ _ => rfl) (.nil _) }

/-- A method with pairs of brackets on its result and on the types of its parameters. -/
def bracketsOnTypes : MethodSyntax where
  introduced := some variableT
  result := { name := listOfArrays, dimensions := [{}, {}] }
  name := .spaced "m"
  parameters :=
    { items := some
        (.single [.keyword ⟨[], "final".toList⟩ (by decide)]
          { name := { word := .spaced "T", hword := by decide }, dimensions := [{}, {}] }
          (.spaced "a") [] (by decide),
        [([], .spread []
          { name := { word := .spaced "String", hword := by decide }, dimensions := [{}] }
          [] [space] [] (.spaced "b"))]) }

/-- The same method with pairs of brackets behind its parameters and the name of one of these, and
with annotations on some of them. -/
def bracketsBehind : MethodSyntax where
  introduced := some variableT
  result := { name := listOfArrays, dimensions := [{}] }
  name := .spaced "m"
  parameters :=
    { items := some
        (.single [.keyword ⟨[], "final".toList⟩ (by decide)]
          { name := { word := .spaced "T", hword := by decide }, dimensions := [{}] }
          (.spaced "a") [{}] (by decide),
        [([], .spread []
          { name := { word := .spaced "String", hword := by decide }
            dimensions := [{ annotations := [noteN], brackets := { before := [space] } }] }
          [] [space] [] (.spaced "b"))]) }
  dimensions := [{ annotations := [noteN], brackets := { before := [space] } }]

/-- The method declares the same in both forms, and each pair of brackets counts once. -/
theorem brackets_of_parse_bracketsBehind :
    let gathered := "class A \x7b <T> java.util.List<int[]>[][] m(final T[][] a," ++
      " String[] ... b) \x7b \x7d \x7d"
    let behind := "class A \x7b <T> java.util.List<int[]>[] m(final T[] a[]," ++
      " String @N [] ... b) @N [] \x7b \x7d \x7d"
    (methodFile bracketsBehind).IsWrittenAs behind ∧ parse gathered = parse behind ∧
      ∃ root, parse behind = .ok root ∧
        root.methods.map (fun method => (method.returnType.dimensions,
          method.parameters.map fun parameter => (parameter.type.dimensions, parameter.varargs))) =
            [(2, [(2, false), (1, true)])] := by
  intro gathered behind
  have hgathered : (methodFile bracketsOnTypes).IsWrittenAs gathered := by decide +kernel
  have hbehind : (methodFile bracketsBehind).IsWrittenAs behind := by decide +kernel
  obtain ⟨hsame, hread⟩ := brackets_of_parse hbehind
  refine ⟨hbehind, hsame _ _ hgathered rfl, ?_⟩
  have hname : (parse behind).map (·.name) = .ok "A" := by decide +kernel
  obtain ⟨root, hroot, -⟩ := exists_parse_eq_of_map hname
  refine ⟨root, hroot, ?_⟩
  obtain ⟨main, written, hmain, hwritten, hmethods⟩ := hread root [] root hroot rfl
  obtain rfl := Option.some.inj hmain
  obtain rfl := Option.some.inj hwritten
  generalize root.methods = methods at hmethods ⊢
  cases hmethods with
  | @cons _ method _ _ hmethod hrest =>
    cases hrest
    have hresult : method.returnType.dimensions = 2 := hmethod.result 2 rfl
    have hparameters := hmethod.parameters
    rw [List.map_singleton, hresult]
    generalize method.parameters = parameters at hparameters ⊢
    cases hparameters with
    | @cons _ first _ _ hfirst hmore =>
      cases hmore with
      | @cons _ second _ _ hsecond hnil =>
        cases hnil
        have hfirst : first.type.dimensions = 2 ∧ first.varargs = false := hfirst.1
        have hsecond : second.type.dimensions = 1 ∧ second.varargs = true := hsecond.1
        simp [hfirst, hsecond]

/-- A method with a comment in front of the type of a parameter of any number of arguments. -/
def commentedSpread : MethodSyntax where
  result := { name := { word := .spaced "String", hword := by decide } }
  name := .spaced "m"
  parameters :=
    { items := some
        (.spread [.keyword ⟨[], "final".toList⟩ (by decide)]
          { name :=
              { word := ⟨[space, ⟨.blockComment, "/* c */".toList⟩, space], "String".toList⟩
                hword := by decide }
            dimensions := [{}] }
          [] [] [] (.spaced "xs"), []) }

/-- Not every pair of brackets on the type of a parameter counts. -/
theorem not_brackets_counted :
    ¬∀ (file : FileSyntax) (source : String), file.IsWrittenAs source → ∀ root,
      parse source = .ok root → ∀ main, file.main? = some main →
        List.Forall₂ (fun callable method =>
          List.Forall₂ ParameterSyntax.KeepsBrackets
            (callable.parameters.filter ParameterSyntax.isFormal) method.parameters)
          main.callables root.methods := by
  intro h
  let source := "class A \x7b String m(final /* c */ String[]... xs) \x7b \x7d \x7d"
  have hfile : (methodFile commentedSpread).IsWrittenAs source := by decide +kernel
  have hcode : (parse source).map (fun root => root.methods.map fun method =>
      method.parameters.map fun parameter => parameter.type.dimensions) = .ok [[0]] := by
    decide +kernel
  obtain ⟨root, hroot, hvalue⟩ := exists_parse_eq_of_map hcode
  have hmethods := h _ source hfile root hroot _ rfl
  generalize root.methods = methods at hmethods hvalue
  cases hmethods with
  | @cons _ method _ _ hmethod hrest =>
    cases hrest
    rw [List.map_singleton] at hvalue
    generalize method.parameters = parameters at hmethod hvalue
    cases hmethod with
    | @cons _ first _ _ hfirst hmore =>
      cases hmore
      have hkept : first.type.dimensions = 1 := hfirst.1
      have hlost : first.type.dimensions = 0 := by simpa using hvalue
      exact absurd (hkept.symm.trans hlost) Nat.one_ne_zero

end Sample

end FileSyntax

end Grammar

end Source

end JavaSignatures
