import JavaSignatures.Toml.Line

set_option autoImplicit false

/-!
# TOML: documents

The table that the lines of a document build.  A header opens the table to which the assignments
below it belong.
-/

namespace JavaSignatures.Toml

/-- A document that has been read up to a line. -/
structure Document where
  /-- the table of the whole document -/
  top : Value := Value.emptyTable .headed
  /-- the names that lead to the table of the last header -/
  place : List String := []
  deriving Repr, Inhabited

namespace Document

/-- Adds what a line says. -/
def add? (document : Document) : Line → Option Document
  | .assignment key value =>
    (document.top.within? .implied (Value.insert? .dotted key value) document.place).map
      fun top => { document with top := top }
  | .header key =>
    (document.top.openTable? key).map fun top => ⟨top, key.path ++ [key.name]⟩
  | .elementHeader key =>
    (document.top.openElement? key).map fun top => ⟨top, key.path ++ [key.name]⟩

/-- The document of lines. -/
def ofLines? (lines : List Line) : Option Document := lines.foldlM add? {}

end Document

/-- The table that a text writes, if it is a document. -/
def read? (text : String) : Option Value := do
  let document ← Document.ofLines? (← lines? text)
  return document.top

end JavaSignatures.Toml
