import JavaSignatures.Report.Accent
import JavaSignatures.Report.Api

set_option autoImplicit false

/-!
# Reports: listings for reading

A listing shows each source with its class, its description and its signatures, and below each
signature the types and descriptions of its parameters.  A source with an error shows that alone.
-/

namespace JavaSignatures.Report

/-- A source file and what was collected from it. -/
structure Source where
  path : String
  catalogue : Catalogue
  deriving Repr, Inhabited

namespace Listing

/-- The rule below the path of a source. -/
def rule : String := String.ofList (List.replicate 38 '─')

/-- The line of a parameter. -/
def parameterLine (colors : Bool) (type name doc : String) : String :=
  let start := "      " ++ type ++ " " ++ name
  if doc.isEmpty then start else start ++ "  " ++ accented colors [.dim] doc

/-- The lines of the parameters of a signature.  Their descriptions are those of the method name. -/
def parameterLines (colors : Bool) (catalogue : Catalogue) (signature : String) : List String :=
  let docs := (catalogue.parameters.get? (methodNameOf signature)).getD .empty
  ((catalogue.signatureArguments.get? signature).getD .empty).entries.map fun entry =>
    parameterLine colors entry.2 entry.1 ((docs.get? entry.1).getD "")

/-- The lines of a signature. -/
def signatureLines (colors : Bool) (catalogue : Catalogue) (signature : String) : List String :=
  ("  " ++ accented colors [.green] signature) :: parameterLines colors catalogue signature

/-- The lines of a catalogue without an error. -/
def catalogueLines (colors : Bool) (catalogue : Catalogue) : List String :=
  (match catalogue.className with
    | none => []
    | some className => ["Class: " ++ accented colors [.cyan] className]) ++
  (if catalogue.apiDescription.isEmpty then []
    else [accented colors [.italic] catalogue.apiDescription]) ++
  ["",
    accented colors [.bold] "METHODS" ++ " (" ++ toString catalogue.methods.length ++ " total)"] ++
  catalogue.methods.flatMap (signatureLines colors catalogue)

/-- The lines of a source. -/
def sourceLines (colors : Bool) (source : Source) : List String :=
  ["", accented colors [.bold] source.path, accented colors [.dim] rule] ++
    match source.catalogue.errorMessage with
    | some message => [accented colors [.red, .bold] "error:" ++ " " ++ message]
    | none => catalogueLines colors source.catalogue

/-- The listing of sources. -/
def render (colors : Bool) (sources : List Source) : String :=
  String.join ((sources.flatMap (sourceLines colors)).map fun line => line ++ "\n")

end Listing

end JavaSignatures.Report
