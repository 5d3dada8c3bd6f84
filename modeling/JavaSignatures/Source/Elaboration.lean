import JavaSignatures.Source.Outline

set_option autoImplicit false

/-!
# From source text to declarations

The names of an outline are looked up: a name is a type variable that is visible where it stands,
or it is qualified by the imports of the file.  The bounds of type variables are looked up before
the variables of their own list become visible.  An inner class sees the variables of the
declarations around it, any other nested declaration sees none of them.
-/

namespace JavaSignatures.Source

/-! ## Names and types -/

/-- What names are looked up in. -/
structure Context where
  imports : ImportScope
  /-- the visible type variables, innermost last -/
  visible : List TypeVariable := []
  deriving Repr, Inhabited

namespace Context

/-- The context with more type variables visible. -/
def add (context : Context) (more : List TypeVariable) : Context :=
  { context with visible := context.visible ++ more }

/-- The qualified form of a name.  Of a dotted name that begins with a type the first part is
qualified; one that begins with a package is qualified already. -/
def qualify (context : Context) (name : String) : String :=
  if context.visible.any fun candidate => candidate.name == name then name
  else
    match Name.splitFirst? name with
    | some (first, rest) =>
      if Name.isCapitalized first then context.imports.resolve first ++ "." ++ rest else name
    | none => context.imports.resolve name

mutual

/-- The reference that a written type is. -/
def typeRef (context : Context) (type : TypeExpr) : TypeRef :=
  match type with
  | .name text => .simple text (context.qualify text)
  | .verbatim text => .simple text text
  | .applied base arguments =>
    { context.typeRef base with arguments := context.typeRefs arguments }
  | .array element dimensions =>
    let element := context.typeRef element
    { element with dimensions := element.dimensions + dimensions }
termination_by structural type

/-- The references that written types are. -/
def typeRefs (context : Context) (types : List TypeExpr) : List TypeRef :=
  match types with
  | [] => []
  | type :: rest => context.typeRef type :: context.typeRefs rest
termination_by structural types

end

/-- The type variables of a list, their bounds looked up outside the list. -/
def typeVariables (context : Context) (introduced : List VariableExpr) : List TypeVariable :=
  introduced.map fun expr => ⟨expr.name, context.typeRefs expr.bounds⟩

end Context

/-! ## Methods and declarations -/

/-- The method that a head declares in the declaration `owner`. -/
def MethodHead.method (head : MethodHead) (context : Context) (owner : String) : Method :=
  let introduced := context.typeVariables head.typeVariables
  let inner := context.add introduced
  { name := head.name.getD owner
    returnType := if head.name.isNone then {} else inner.typeRef head.result
    parameters := head.parameters.map fun parameter =>
      ⟨parameter.name, inner.typeRef parameter.type, parameter.varargs⟩
    isConstructor := head.name.isNone
    visibility := head.visibility
    comment := head.comment.map DocComment.ofText
    typeVariables := introduced }

/-- A nested declaration with this head sees the type variables around it. -/
def TypeHead.isInner (head : TypeHead) : Bool := head.kind == .classKind && !head.isStatic

namespace Outline

mutual

/-- The declaration of an outline.  `owner` is the qualified name of the declaration around it, and
`context` is that declaration's. -/
def declare (context : Context) (owner : Option String) (outline : Outline) : Declaration :=
  match outline with
  | ⟨head, methods, nested⟩ =>
    let qualifiedName :=
      match owner with
      | some owner => owner ++ "." ++ head.name
      | none => context.imports.inPackage head.name
    let enclosing := if owner.isSome && head.isInner then context.visible else []
    let outer : Context := { context with visible := enclosing }
    let introduced := outer.typeVariables head.typeVariables
    let inner := outer.add introduced
    { name := head.name
      qualifiedName := qualifiedName
      kind := head.kind
      nested := declareAll inner (some qualifiedName) nested
      typeVariables := introduced
      enclosingTypeVariables := enclosing
      methods := methods.map fun method => method.method inner head.name
      comment := head.comment.map DocComment.ofText
      imports := context.imports }
termination_by structural outline

/-- The declarations of outlines. -/
def declareAll (context : Context) (owner : Option String) (outlines : List Outline) :
    List Declaration :=
  match outlines with
  | [] => []
  | outline :: rest => declare context owner outline :: declareAll context owner rest
termination_by structural outlines

end

theorem declareAll_eq_map (context : Context) (owner : Option String) (outlines : List Outline) :
    declareAll context owner outlines = outlines.map (declare context owner) := by
  induction outlines with
  | nil => rfl
  | cons outline rest ih => simp [declareAll, ih]

end Outline

/-- Why a source file cannot be read. -/
inductive Fault where
  /-- the file declares no class, interface, enum or record -/
  | noDeclaration
  deriving DecidableEq, Repr, Inhabited

namespace Fault

/-- What is wrong with the file. -/
def reason : Fault → String
  | noDeclaration => "no class, interface, enum or record declaration found"

/-- What is said of the fault. -/
def message (fault : Fault) : String := "Syntax error: " ++ fault.reason

end Fault

namespace SourceFile

/-- The package and imports of the file. -/
def importScope (file : SourceFile) : ImportScope := ⟨file.package, file.imports⟩

/-- The declaration that the file is about. -/
def root (file : SourceFile) : Except Fault Declaration :=
  match file.main? with
  | some outline => .ok (outline.declare { imports := file.importScope } none)
  | none => .error .noDeclaration

end SourceFile

/-- The declaration that a source text is about. -/
def parse (source : String) : Except Fault Declaration := (SourceFile.ofSource source.toList).root

end JavaSignatures.Source
