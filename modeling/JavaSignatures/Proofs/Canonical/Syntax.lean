import JavaSignatures.Source.Elaboration

set_option autoImplicit false

/-!
# Canonical source text: syntax

Declarations as trees of syntax: what can be written (`CompilationUnit` and its parts), how it is
written (`spell`) and what it declares (`CompilationUnit.declaration`).  The text has single spaces,
no line ends and only empty bodies.  Well-formedness is part of the types: an identifier is none of
the words of the language, and a comment does not end early.  Not all that can be written is a legal
program, since an enum may introduce type variables here and an interface may have constructors.
-/

namespace JavaSignatures.Source.Canonical

open JavaSignatures.Character

/-! ## Names -/

/-- The words that are no identifiers: keywords, literals and contextual keywords. -/
def reservedWords : List String :=
  ["abstract", "assert", "boolean", "break", "byte", "case", "catch", "char", "class", "const",
    "continue", "default", "do", "double", "else", "enum", "extends", "final", "finally", "float",
    "for", "goto", "if", "implements", "import", "instanceof", "int", "interface", "long", "native",
    "new", "package", "private", "protected", "public", "return", "short", "static", "strictfp",
    "super", "switch", "synchronized", "this", "throw", "throws", "transient", "try", "void",
    "volatile", "while", "_", "true", "false", "null", "exports", "module", "non-sealed", "open",
    "opens", "permits", "provides", "record", "requires", "sealed", "to", "transitive", "uses",
    "var", "when", "with", "yield"]

/-- The text is an identifier of the language and none of its words. -/
def isIdentifier (text : String) : Bool :=
  match text.toList with
  | [] => false
  | c :: rest =>
    isIdentifierStart c && rest.all isIdentifierPart && !reservedWords.contains text

/-- An identifier. -/
structure Identifier where
  text : String
  valid : isIdentifier text = true
  deriving DecidableEq

/-- How an identifier is written. -/
def Identifier.spell (identifier : Identifier) : List Char := identifier.text.toList

/-- A name, simple or dotted. -/
structure DottedName where
  first : Identifier
  rest : List Identifier := []
  deriving DecidableEq

/-- How a name is written. -/
def DottedName.spell (name : DottedName) : List Char :=
  name.first.spell ++ name.rest.flatMap fun part => '.' :: part.spell

/-- A name as a text. -/
def DottedName.text (name : DottedName) : String := String.ofList name.spell

/-! ## Lists -/

/-- Texts behind one another, with a comma and a space between them. -/
def spellCommas : List (List Char) → List Char
  | [] => []
  | first :: rest => first ++ rest.flatMap fun text => ',' :: ' ' :: text

/-- A list in angle brackets, or nothing if it is empty. -/
def spellAngles (texts : List (List Char)) : List Char :=
  if texts.isEmpty then [] else '<' :: (spellCommas texts ++ ['>'])

/-- Pairs of brackets. -/
def spellBrackets (dimensions : Nat) : List Char := (List.replicate dimensions ['[', ']']).flatten

/-! ## Types -/

/-- The primitive types. -/
inductive Primitive where
  | boolean
  | byte
  | char
  | short
  | int
  | long
  | float
  | double
  deriving DecidableEq, Repr

/-- The keyword of a primitive type. -/
def Primitive.keyword : Primitive → String
  | boolean => "boolean"
  | byte => "byte"
  | char => "char"
  | short => "short"
  | int => "int"
  | long => "long"
  | float => "float"
  | double => "double"

/-- A type: a primitive one, or a name with any arguments, each with any number of dimensions. -/
inductive JavaType where
  | primitive (kind : Primitive) (dimensions : Nat)
  | named (name : DottedName) (arguments : List JavaType) (dimensions : Nat)

namespace JavaType

mutual

/-- How a type is written. -/
def spell (type : JavaType) : List Char :=
  match type with
  | .primitive kind dimensions => kind.keyword.toList ++ spellBrackets dimensions
  | .named name arguments dimensions =>
    name.spell ++ (spellAngles (spellAll arguments) ++ spellBrackets dimensions)
termination_by structural type

/-- How types are written. -/
def spellAll (types : List JavaType) : List (List Char) :=
  match types with
  | [] => []
  | type :: rest => spell type :: spellAll rest
termination_by structural types

end

mutual

/-- The reference that a type is, its names qualified in the context. -/
def ref (context : Context) (type : JavaType) : TypeRef :=
  match type with
  | .primitive kind dimensions =>
    { name := kind.keyword
      qualifiedName := context.qualify kind.keyword
      dimensions := dimensions }
  | .named name arguments dimensions =>
    { name := name.text
      qualifiedName := context.qualify name.text
      arguments := refs context arguments
      dimensions := dimensions }
termination_by structural type

/-- The references that types are. -/
def refs (context : Context) (types : List JavaType) : List TypeRef :=
  match types with
  | [] => []
  | type :: rest => ref context type :: refs context rest
termination_by structural types

end

theorem spellAll_eq_map (types : List JavaType) : spellAll types = types.map spell := by
  induction types with
  | nil => rfl
  | cons type rest ih => simp [spellAll, ih]

theorem refs_eq_map (context : Context) (types : List JavaType) :
    refs context types = types.map (ref context) := by
  induction types with
  | nil => rfl
  | cons type rest ih => simp [refs, ih]

end JavaType

/-- A type variable with its bounds. -/
structure JavaVariable where
  name : Identifier
  bounds : List JavaType := []

namespace JavaVariable

/-- The bounds of a type variable behind its name, or nothing if there are none. -/
def spellBounds : List JavaType → List Char
  | [] => []
  | first :: rest =>
    ' ' :: ("extends".toList ++ ' ' :: first.spell) ++
      rest.flatMap fun bound => ' ' :: '&' :: ' ' :: bound.spell

/-- How a type variable is introduced. -/
def spell (introduced : JavaVariable) : List Char :=
  introduced.name.spell ++ spellBounds introduced.bounds

/-- The type variable, its bounds qualified in the context. -/
def typeVariable (context : Context) (introduced : JavaVariable) : TypeVariable :=
  ⟨introduced.name.text, introduced.bounds.map (JavaType.ref context)⟩

end JavaVariable

/-! ## Modifiers and comments -/

/-- The text of a documentation comment between its delimiters. -/
structure DocText where
  body : String
  /-- the comment does not end in the text -/
  fits : ¬['*', '/'] <:+: '*' :: body.toList

namespace DocText

/-- How a comment is written. -/
def spell (comment : DocText) : List Char :=
  '/' :: '*' :: '*' :: (comment.body.toList ++ ['*', '/'])

/-- The comment as it is kept. -/
def docComment (comment : DocText) : DocComment := DocComment.ofText (String.ofList comment.spell)

end DocText

/-- A comment, if there is one, and words, with a space behind each of them. -/
def spellFront (comment : Option DocText) (words : List String) : List Char :=
  (match comment with
    | none => []
    | some comment => comment.spell ++ [' ']) ++
  words.flatMap fun word => word.toList ++ [' ']

/-- The keyword for the access to a declaration; package access has none. -/
def accessWords : Visibility → List String
  | .publicAccess => ["public"]
  | .protectedAccess => ["protected"]
  | .privateAccess => ["private"]
  | .packageAccess => []

/-! ## Methods -/

/-- A parameter.  Whether it takes any number of arguments is said where it stands. -/
structure JavaParameter where
  type : JavaType
  name : Identifier

namespace JavaParameter

/-- How a parameter is written. -/
def spell (varargs : Bool) (parameter : JavaParameter) : List Char :=
  parameter.type.spell ++
    ((if varargs then ['.', '.', '.'] else []) ++ ' ' :: parameter.name.spell)

/-- The parameter, its type qualified in the context. -/
def parameter (context : Context) (varargs : Bool) (parameter : JavaParameter) : Parameter :=
  ⟨parameter.name.text, parameter.type.ref context, varargs⟩

end JavaParameter

/-- The result of a method: none, or a type. -/
inductive JavaResult where
  | void
  | value (type : JavaType)

namespace JavaResult

/-- How the result of a method is written. -/
def spell : JavaResult → List Char
  | .void => "void".toList
  | .value type => type.spell

/-- The reference that the result of a method is. -/
def ref (context : Context) : JavaResult → TypeRef
  | .void => { name := "void", qualifiedName := context.qualify "void" }
  | .value type => type.ref context

end JavaResult

/-- A method or a constructor. -/
structure JavaMethod where
  comment : Option DocText := none
  visibility : Visibility := .packageAccess
  typeVariables : List JavaVariable := []
  /-- the result and the name of a method; a constructor is named like its declaration -/
  called : Option (JavaResult × Identifier)
  parameters : List JavaParameter := []
  /-- the last parameter, if that takes any number of arguments -/
  spread : Option JavaParameter := none

namespace JavaMethod

/-- The type variables in front of the result, with a space behind them if there are any. -/
def spellVariables (introduced : List JavaVariable) : List Char :=
  if introduced.isEmpty then []
  else spellAngles (introduced.map JavaVariable.spell) ++ [' ']

/-- The result and the name of a method, or the name of a constructor of the declaration. -/
def spellCalled (owner : Identifier) : Option (JavaResult × Identifier) → List Char
  | none => owner.spell
  | some (result, name) => result.spell ++ ' ' :: name.spell

/-- All parameters; the flag of one says that it takes any number of arguments. -/
def allParameters (method : JavaMethod) : List (Bool × JavaParameter) :=
  method.parameters.map (Prod.mk false) ++ method.spread.toList.map (Prod.mk true)

/-- The parameters one by one. -/
def spellParameters (method : JavaMethod) : List (List Char) :=
  method.allParameters.map fun (varargs, parameter) => parameter.spell varargs

/-- How the head of a method or a constructor of the declaration is written. -/
def spellHead (owner : Identifier) (method : JavaMethod) : List Char :=
  spellFront method.comment (accessWords method.visibility) ++
    (spellVariables method.typeVariables ++
      (spellCalled owner method.called ++ '(' :: (spellCommas method.spellParameters ++ [')'])))

/-- How a method or a constructor of the declaration is written, with an empty body. -/
def spell (owner : Identifier) (method : JavaMethod) : List Char :=
  method.spellHead owner ++ [' ', '{', ' ', '}']

/-- The parameters, their types qualified in the context. -/
def parametersIn (context : Context) (method : JavaMethod) : List Parameter :=
  method.allParameters.map fun (varargs, parameter) => parameter.parameter context varargs

/-- The method of the declaration, qualified in the context: the bounds of its type variables
outside their own list, everything else with them. -/
def method (context : Context) (owner : Identifier) (method : JavaMethod) : Method :=
  let introduced := method.typeVariables.map (JavaVariable.typeVariable context)
  let inner := context.add introduced
  { name := (method.called.map fun called => called.2.text).getD owner.text
    returnType := (method.called.map fun called => called.1.ref inner).getD {}
    parameters := method.parametersIn inner
    isConstructor := method.called.isNone
    visibility := method.visibility
    comment := method.comment.map DocText.docComment
    typeVariables := introduced }

end JavaMethod

/-! ## Type declarations -/

/-- The head of a class, interface, enum or record. -/
structure JavaHead where
  comment : Option DocText := none
  visibility : Visibility := .packageAccess
  kind : DeclarationKind
  name : Identifier
  typeVariables : List JavaVariable := []

/-- A member of a declaration.  `static` is written only in front of a nested declaration. -/
inductive JavaMember where
  | method (method : JavaMethod)
  | nested (isStatic : Bool) (head : JavaHead) (members : List JavaMember)

/-- The keyword of a kind of declarations. -/
def kindWord : DeclarationKind → String
  | .classKind => "class"
  | .interfaceKind => "interface"
  | .enumKind => "enum"
  | .recordKind => "record"

namespace JavaHead

/-- The modifiers of a declaration. -/
def modifierWords (head : JavaHead) (isStatic : Bool) : List String :=
  accessWords head.visibility ++ if isStatic then ["static"] else []

/-- The words in front of the name. -/
def words (head : JavaHead) (isStatic : Bool) : List String :=
  head.modifierWords isStatic ++ [kindWord head.kind]

/-- How the head of a declaration is written.  A record has no components. -/
def spellHead (head : JavaHead) (isStatic : Bool) : List Char :=
  spellFront head.comment (head.words isStatic) ++
    (head.name.spell ++ (spellAngles (head.typeVariables.map JavaVariable.spell) ++
      if head.kind == .recordKind then ['(', ')'] else []))

/-- How a declaration is written.  An enum has no constants: their list ends at once. -/
def spell (head : JavaHead) (isStatic : Bool) (members : List Char) : List Char :=
  head.spellHead isStatic ++
    ' ' :: '{' :: ((if head.kind == .enumKind then [' ', ';'] else []) ++ members ++ [' ', '}'])

/-- The type variables that a nested declaration sees around it: an inner class all that are
visible there, any other declaration none. -/
def enclosing (head : JavaHead) (isStatic : Bool) (visible : List TypeVariable) :
    List TypeVariable :=
  if head.kind == .classKind && !isStatic then visible else []

/-- The type variables of a declaration, their bounds qualified outside their own list. -/
def introduced (head : JavaHead) (imports : ImportScope) (enclosing : List TypeVariable) :
    List TypeVariable :=
  head.typeVariables.map (JavaVariable.typeVariable ⟨imports, enclosing⟩)

end JavaHead

namespace JavaMember

mutual

/-- How a member of the declaration is written. -/
def spell (owner : Identifier) (member : JavaMember) : List Char :=
  match member with
  | .method written => written.spell owner
  | .nested isStatic head members => head.spell isStatic (spellAll head.name members)
termination_by structural member

/-- How members are written, with a space in front of each. -/
def spellAll (owner : Identifier) (members : List JavaMember) : List Char :=
  match members with
  | [] => []
  | member :: rest => ' ' :: (spell owner member ++ spellAll owner rest)
termination_by structural members

end

/-- The method or constructor that a member is. -/
def method? : JavaMember → Option JavaMethod
  | .method written => some written
  | .nested .. => none

end JavaMember

/-- The declaration of a head with its members; the nested declarations are given. -/
def JavaHead.declaration (head : JavaHead) (imports : ImportScope)
    (enclosing : List TypeVariable) (qualifiedName : String) (members : List JavaMember)
    (nested : List Declaration) : Declaration :=
  let introduced := head.introduced imports enclosing
  { name := head.name.text
    qualifiedName := qualifiedName
    kind := head.kind
    nested := nested
    typeVariables := introduced
    enclosingTypeVariables := enclosing
    methods := (members.filterMap JavaMember.method?).map fun method =>
      method.method ⟨imports, enclosing ++ introduced⟩ head.name
    comment := head.comment.map DocText.docComment
    imports := imports }

namespace JavaMember

mutual

/-- The declaration that a member is, if it is a nested one.  `visible` are the type variables of
the declaration around it and of those that this one sees itself. -/
def declaration? (imports : ImportScope) (visible : List TypeVariable) (owner : String)
    (member : JavaMember) : Option Declaration :=
  match member with
  | .method _ => none
  | .nested isStatic head members =>
    let enclosing := head.enclosing isStatic visible
    let qualifiedName := owner ++ "." ++ head.name.text
    some (head.declaration imports enclosing qualifiedName members
      (declarations imports (enclosing ++ head.introduced imports enclosing) qualifiedName members))
termination_by structural member

/-- The nested declarations among members. -/
def declarations (imports : ImportScope) (visible : List TypeVariable) (owner : String)
    (members : List JavaMember) : List Declaration :=
  match members with
  | [] => []
  | member :: rest =>
    (declaration? imports visible owner member).toList ++ declarations imports visible owner rest
termination_by structural members

end

end JavaMember

/-! ## Source files -/

/-- A source file with one outermost declaration. -/
structure CompilationUnit where
  package : Option DottedName := none
  /-- the imports of single types -/
  imports : List DottedName := []
  head : JavaHead
  members : List JavaMember := []

/-- How the package or an import is written. -/
def spellClause (word : String) (name : DottedName) : List Char :=
  word.toList ++ ' ' :: (name.spell ++ [';'])

namespace CompilationUnit

/-- The package and the imports, with their keywords. -/
def clauses (unit : CompilationUnit) : List (String × DottedName) :=
  unit.package.toList.map (Prod.mk "package") ++ unit.imports.map (Prod.mk "import")

/-- How a source file is written. -/
def spell (unit : CompilationUnit) : List Char :=
  (unit.clauses.flatMap fun (word, name) => spellClause word name ++ [' ']) ++
    unit.head.spell false (JavaMember.spellAll unit.head.name unit.members)

/-- The text of a source file. -/
def text (unit : CompilationUnit) : String := String.ofList unit.spell

/-- What canonical text looks like. -/
example :
    let shop : Identifier := ⟨"Shop", by decide⟩
    let item : Identifier := ⟨"T", by decide⟩
    let find : JavaMethod :=
      { visibility := .publicAccess
        called := some (.value (.named ⟨item, []⟩ [] 1), ⟨"find", by decide⟩)
        spread := some ⟨.primitive .int 0, ⟨"codes", by decide⟩⟩ }
    let unit : CompilationUnit :=
      { package := some ⟨⟨"demo", by decide⟩, []⟩
        head := { kind := .classKind, name := shop, typeVariables := [⟨item, []⟩] }
        members := [.method find, .nested true { kind := .enumKind, name := item } []] }
    unit.text =
      "package demo; class Shop<T> \x7b public T[] find(int... codes) \x7b \x7d" ++
        " static enum T \x7b ; \x7d \x7d" := by
  decide

/-- The package and the imports of a source file. -/
def importScope (unit : CompilationUnit) : ImportScope :=
  ⟨unit.package.map DottedName.text, unit.imports.map DottedName.text⟩

/-- The declaration that a source file is about. -/
def declaration (unit : CompilationUnit) : Declaration :=
  let qualifiedName := unit.importScope.inPackage unit.head.name.text
  unit.head.declaration unit.importScope [] qualifiedName unit.members
    (JavaMember.declarations unit.importScope (unit.head.introduced unit.importScope [])
      qualifiedName unit.members)

end CompilationUnit

end JavaSignatures.Source.Canonical
