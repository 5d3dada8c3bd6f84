import JavaSignatures.Files.Access
import JavaSignatures.Files.Path
import JavaSignatures.Rendering
import JavaSignatures.Toml.Document

set_option autoImplicit false

/-!
# Settings

A settings file says how type variables are rendered and in which format the output is shown.  It is
a TOML document with two groups of settings, `resolver` and `output`; what it leaves out has its
default, and what it says besides is ignored.
-/

namespace JavaSignatures

/-- The settings of a run. -/
structure Settings where
  rendering : Rendering := {}
  /-- the name of the output format -/
  format : Option String := none
  deriving DecidableEq, Repr, Inhabited

namespace Settings

/-! ## Groups of settings -/

/-- The setting of a group.  A group is a table, or an array in which every setting has its place; a
date is a group that sets nothing. -/
def setting? (place : Nat) (name : String) : Toml.Value → Option (Option Toml.Value)
  | .table _ entries => some (Entries.get? name entries)
  | .date _ => some none
  | group => group.items?.map fun items => items[place]?

/-- The value of a setting, or its default. -/
def read? {α : Type} (decode : Toml.Value → Option α) (default : α) (place : Nat) (name : String)
    (group : Toml.Value) : Option α :=
  match setting? place name group with
  | none => none
  | some none => some default
  | some (some value) => decode value

/-- A setting that is a text. -/
def text? : Toml.Value → Option String
  | .text value => some value
  | _ => none

/-- The treatment of type variables that a name means. -/
def modeOfName? : String → Option TypeVariableMode
  | "erase" => some .erase
  | "keep" => some .keep
  | _ => none

/-- The treatment of type variables: a name, or a table whose first name has nothing behind it; a
table between braces may have no other. -/
def mode? : Toml.Value → Option TypeVariableMode
  | .text name => modeOfName? name
  | .table form ((name, value) :: others) =>
    if value.isEmpty && (others.isEmpty || !form.isBraced) then modeOfName? name else none
  | _ => none

/-- The settings of rendering. -/
def rendering? (group : Toml.Value) : Option Rendering := do
  let mode ← read? mode? .erase 0 "type_variables" group
  let placeholder ← read? text? Rendering.defaultPlaceholder 1 "placeholder" group
  return ⟨mode, placeholder⟩

/-- The format among the settings of the output. -/
def format? (group : Toml.Value) : Option (Option String) :=
  read? (fun value => (text? value).map some) none 0 "format" group

/-- The settings of a document. -/
def ofDocument? (document : Toml.Value) : Option Settings := do
  let rendering ← read? rendering? {} 0 "resolver" document
  let format ← read? format? none 1 "output" document
  return ⟨rendering, format⟩

/-- The settings that a text writes. -/
def ofText? (text : String) : Option Settings := (Toml.read? text).bind ofDocument?

/-! ## Settings files -/

/-- The name of the settings file of a directory. -/
def fileName : String := "apisig.toml"

/-- Why a settings file gives no settings. -/
inductive Fault where
  | unreadable (error : FileError)
  /-- The text is no document of settings.  Why it is none is told by the TOML reader, whose words
  depend on nothing but that text; they are left out. -/
  | invalid
  deriving DecidableEq, Repr, Inhabited

/-- Loads the settings file at a path. -/
def load (files : Files) (path : String) : Except Fault Settings :=
  match files.readText path with
  | .error error => .error (.unreadable error)
  | .ok text =>
    match ofText? text with
    | some settings => .ok settings
    | none => .error .invalid

/-- The settings of a directory: those of its settings file, or the defaults if it has none that can
be used. -/
def ofDirectory (files : Files) (directory : String) : Settings :=
  match load files (Path.join directory fileName) with
  | .ok settings => settings
  | .error _ => {}

theorem load_congr {files others : Files} {path : String}
    (h : files.read path = others.read path) : load files path = load others path := by
  simp only [load, Files.readText_congr h]

end Settings

end JavaSignatures
