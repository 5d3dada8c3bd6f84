import JavaSignatures.Report.Listing

set_option autoImplicit false

/-!
# Reports: formats

The formats in which results are shown: a listing for reading, the catalogues as JSON, and the API
models as JSON.
-/

namespace JavaSignatures.Report

/-- A format of the output. -/
inductive Format where
  | listing
  | catalogues
  | models
  deriving DecidableEq, Repr, Inhabited

namespace Format

/-- The name of the format. -/
def name : Format → String
  | listing => "text"
  | catalogues => "json"
  | models => "api"

/-- The format that a name means, in any case of letters. -/
def ofName? (name : String) : Option Format :=
  match Text.onString Character.lowerText name with
  | "text" | "txt" | "terminal" => some listing
  | "json" => some catalogues
  | "api" => some models
  | _ => none

/-- What is said of a name that means no format. -/
def unknown (name : String) : String :=
  "Unknown format '" ++ name ++ "'. Valid formats: text, json, api"

theorem ofName?_name (format : Format) : ofName? format.name = some format := by
  cases format <;> decide +kernel

end Format

/-- A catalogue as a document. -/
def catalogueDocument (catalogue : Catalogue) : Document :=
  .object [("class_name", .ofText? catalogue.className), ("methods", .ofTexts catalogue.methods),
    ("method_text", .ofMap catalogue.methodText), ("parameters", .ofMaps catalogue.parameters),
    ("signature_arguments", .ofMaps catalogue.signatureArguments),
    ("api_description", .text catalogue.apiDescription),
    ("method_descriptions", .ofMap catalogue.methodDescriptions),
    ("error_message", .ofText? catalogue.errorMessage)]

/-- A source as a document. -/
def Source.document (source : Source) : Document :=
  .object [("path", .text source.path), ("result", catalogueDocument source.catalogue)]

/-- The report on sources in a format; only listings have colours. -/
def render (format : Format) (colors : Bool) (sources : List Source) : String :=
  match format with
  | .listing => Listing.render colors sources
  | .catalogues => (Document.list (sources.map Source.document)).pretty
  | .models =>
    let models := sources.filterMap fun source => ApiModel.ofCatalogue? source.catalogue
    (Document.list (models.map ApiModel.document)).pretty

end JavaSignatures.Report
