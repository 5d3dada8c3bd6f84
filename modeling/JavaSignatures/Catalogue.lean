import JavaSignatures.Signature

set_option autoImplicit false

/-!
# Catalogues

What has been collected from one or more source files: the signatures, and for each method name
and each signature what is known about its parameters.  Recording a signature overrides what an
equal text or an equal method name had, except for parameter descriptions, where the first one
stays.
-/

namespace JavaSignatures

/-- The collected signatures with their descriptions. -/
structure Catalogue where
  /-- the qualified name of the last declaration that was read -/
  className : Option String := none
  /-- all signature texts in the order of recording -/
  methods : List String := []
  /-- the last signature text of each method name -/
  methodText : OrderedMap String := .empty
  /-- the parameter descriptions of each method name -/
  parameters : OrderedMap (OrderedMap String) := .empty
  /-- the parameter types of each signature text -/
  signatureArguments : OrderedMap (OrderedMap String) := .empty
  /-- one line on the declaration -/
  apiDescription : String := ""
  /-- one line on each method name that has a description -/
  methodDescriptions : OrderedMap String := .empty
  errorMessage : Option String := none
  deriving DecidableEq, Repr, Inhabited

namespace Catalogue

/-- The catalogue of nothing. -/
def empty : Catalogue := {}

/-- Nothing has been recorded and no declaration described. -/
def isEmpty (catalogue : Catalogue) : Bool :=
  catalogue.methods.isEmpty && catalogue.methodText.isEmpty && catalogue.parameters.isEmpty &&
    catalogue.signatureArguments.isEmpty && catalogue.methodDescriptions.isEmpty &&
    catalogue.apiDescription.isEmpty

/-- The descriptions with those of further parameters; a parameter that has one keeps it. -/
def addDocs (docs new : OrderedMap String) : OrderedMap String :=
  new.entries.foldl (fun docs entry => docs.insertIfNew entry.1 entry.2) docs

/-- Records one signature. -/
def record (catalogue : Catalogue) (signature : Signature) : Catalogue :=
  { catalogue with
    methods := catalogue.methods ++ [signature.text]
    methodText := catalogue.methodText.insert signature.methodName signature.text
    parameters := catalogue.parameters.upsert signature.methodName fun docs =>
      addDocs (docs.getD .empty) signature.parameterDocs
    signatureArguments :=
      catalogue.signatureArguments.insert signature.text signature.parameterTypes
    methodDescriptions :=
      if signature.description.isEmpty then catalogue.methodDescriptions
      else catalogue.methodDescriptions.insert signature.methodName signature.description }

/-- Records signatures in order. -/
def recordAll (catalogue : Catalogue) (signatures : List Signature) : Catalogue :=
  signatures.foldl record catalogue

/-- What is left when a path leads to no nested declaration. -/
def notFound (path : String) (root : Declaration) : Catalogue :=
  { errorMessage :=
      some ("Cannot find inner class " ++ path ++ " in class: " ++ root.qualifiedName) }

/-- The description of a declaration, or else that of the outermost one. -/
def describe (style : Style) (root target : Declaration) : String :=
  let own := style.describer.headline (target.comment.map DocComment.raw)
  if own.isEmpty then style.describer.headline (root.comment.map DocComment.raw) else own

/-- Adds the signatures of one declaration. -/
def addTarget (catalogue : Catalogue) (style : Style) (root target : Declaration) : Catalogue :=
  { catalogue with
    className := some target.qualifiedName
    apiDescription := describe style root target }.recordAll (Signature.ofTarget style root target)

/-- Adds the signatures of a file, or of the declaration in it that a path leads to.  A path that
leads nowhere discards everything collected so far. -/
def addUnit (catalogue : Catalogue) (style : Style) (root : Declaration) (path : Option String) :
    Catalogue :=
  match path with
  | none => catalogue.addTarget style root root
  | some path =>
    match root.find? path with
    | some target => catalogue.addTarget style root target
    | none => notFound path root

@[simp]
theorem recordAll_nil (catalogue : Catalogue) : catalogue.recordAll [] = catalogue := rfl

theorem recordAll_append (catalogue : Catalogue) (first second : List Signature) :
    catalogue.recordAll (first ++ second) = (catalogue.recordAll first).recordAll second := by
  simp [recordAll]

theorem methods_recordAll (catalogue : Catalogue) (signatures : List Signature) :
    (catalogue.recordAll signatures).methods =
      catalogue.methods ++ signatures.map Signature.text := by
  induction signatures generalizing catalogue with
  | nil => simp
  | cons signature rest ih =>
    have h : catalogue.recordAll (signature :: rest) =
        (catalogue.record signature).recordAll rest := rfl
    simp [h, ih, record]

end Catalogue

end JavaSignatures
