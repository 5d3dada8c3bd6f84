import JavaSignatures.Catalogue
import JavaSignatures.Report.Json

set_option autoImplicit false

/-!
# Reports: the API model

The catalogue folded into the shape that code generators read: one entry for each method name, with
all its signatures and with the union of their parameters as options.  The name of the API is the
class name in lower case with dashes between its words.
-/

namespace JavaSignatures.Report

open JavaSignatures.Character

/-! ## Names -/

/-- The name of the method in a signature: the last word before the first parenthesis. -/
def methodNameOf (signature : String) : String :=
  Name.afterLast ' ' (String.ofList (signature.toList.takeWhile (· != '(')))

/-- A character between the words of a name. -/
def isDash (c : Char) : Bool := c == '-' || c == '_'

/-- A word begins at the upper-case letter `c`: after a character that is not upper-case, or as the
last capital before a lower-case letter. -/
def beginsWord (previous : Option Char) (c : Char) (rest : List Char) : Bool :=
  isUpper c &&
    previous.any fun p => (!isUpper p || rest.head?.any isLower) && !isDash p

/-- A name with a dash before each word and in place of each underscore; `previous` is the character
before the text. -/
def dashed (previous : Option Char) : List Char → List Char
  | [] => []
  | c :: rest =>
    let shown := if isDash c then ['-'] else if beginsWord previous c rest then ['-', c] else [c]
    shown ++ dashed (some c) rest

/-- A name such as `HTTPServer` in lower case with dashes, as `http-server`. -/
def dashName (name : String) : String :=
  Text.onString (fun text => lowerText (dashed none text)) name

/-! ## The model -/

/-- A parameter of one or more signatures of a method name. -/
structure ApiOption where
  name : String
  type : String
  description : String
  deriving DecidableEq, Repr, Inhabited

/-- A method name with all its signatures. -/
structure ApiMethod where
  name : String
  description : String
  signatures : List String
  options : List ApiOption
  deriving DecidableEq, Repr, Inhabited

/-- The API of one declaration. -/
structure ApiModel where
  name : String
  description : String
  methods : List ApiMethod
  deriving DecidableEq, Repr, Inhabited

namespace ApiMethod

/-- The parameters of the signatures, each with its first type. -/
def optionTypes (catalogue : Catalogue) (signatures : List String) : OrderedMap String :=
  signatures.foldl
    (fun types signature =>
      ((catalogue.signatureArguments.get? signature).getD .empty).entries.foldl
        (fun types entry => types.insertIfNew entry.1 entry.2) types)
    .empty

/-- The entry of a method name and its signatures. -/
def ofSignatures (catalogue : Catalogue) (name : String) (signatures : List String) : ApiMethod :=
  let docs := (catalogue.parameters.get? name).getD .empty
  { name := name
    description := (catalogue.methodDescriptions.get? name).getD ""
    signatures := signatures
    options := (optionTypes catalogue signatures).entries.map fun entry =>
      ⟨entry.1, entry.2, (docs.get? entry.1).getD ""⟩ }

end ApiMethod

namespace ApiModel

/-- The signatures by method name, in the order of the first signature of each name. -/
def grouped (signatures : List String) : OrderedMap (List String) :=
  signatures.foldl
    (fun groups signature =>
      groups.upsert (methodNameOf signature) fun group => group.getD [] ++ [signature])
    .empty

/-- The model of a catalogue.  One with an error or without a class has none. -/
def ofCatalogue? (catalogue : Catalogue) : Option ApiModel :=
  match catalogue.errorMessage, catalogue.className with
  | none, some className =>
    some
      { name := dashName (Name.afterLast '.' className)
        description := catalogue.apiDescription
        methods := (grouped catalogue.methods).entries.map fun entry =>
          ApiMethod.ofSignatures catalogue entry.1 entry.2 }
  | _, _ => none

end ApiModel

/-! ## Documents -/

/-- An option as a document. -/
def ApiOption.document (option : ApiOption) : Document :=
  .object [("name", .text option.name), ("type", .text option.type),
    ("description", .text option.description)]

/-- An entry as a document. -/
def ApiMethod.document (method : ApiMethod) : Document :=
  .object [("name", .text method.name), ("description", .text method.description),
    ("signatures", .ofTexts method.signatures),
    ("options", .list (method.options.map ApiOption.document))]

/-- A model as a document. -/
def ApiModel.document (model : ApiModel) : Document :=
  .object [("name", .text model.name), ("description", .text model.description),
    ("methods", .list (model.methods.map ApiMethod.document))]

theorem ApiModel.ofCatalogue?_of_error {catalogue : Catalogue} {message : String}
    (h : catalogue.errorMessage = some message) : ofCatalogue? catalogue = none := by
  simp [ofCatalogue?, h]

end JavaSignatures.Report
