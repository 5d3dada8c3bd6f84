import JavaSignatures.Toml.Value

set_option autoImplicit false

/-!
# TOML: building tables

A document names its values one after the other, and every step adds to the table that stands so
far.  A step is refused where the name is taken already or leads through a value that may not be
added to any more.
-/

namespace JavaSignatures.Toml

/-- A key: the names in front of its periods, and the last name. -/
structure Key where
  path : List String
  name : String
  deriving DecidableEq, Repr, Inhabited

namespace Value

/-- Changes the table at the end of a path.  Missing tables on the way are made with the form
`made`; the way through tables under a double header goes through the last of them. -/
def within? (made : TableForm) (change : Value → Option Value) : List String → Value → Option Value
  | [], target => change target
  | name :: path, .table form entries =>
    match (Entries.get? name entries).getD (emptyTable made) with
    | .table there inner =>
      if made.admits there then
        (within? made change path (.table there inner)).map fun child =>
          .table form (Entries.upsert name (fun _ => child) entries)
      else none
    | .tables earlier last =>
      (within? made change path last).map fun last =>
        .table form (Entries.upsert name (fun _ => .tables earlier last) entries)
    | _ => none
  | _ :: _, _ => none

/-- Changes the entries of a table. -/
def onEntries (change : List (String × Value) → Option (List (String × Value))) :
    Value → Option Value
  | .table form entries => (change entries).map (.table form)
  | _ => none

/-- Gives a name that is free its value. -/
def addNew? (name : String) (value : Value) (entries : List (String × Value)) :
    Option (List (String × Value)) :=
  if (Entries.get? name entries).isNone then some (entries ++ [(name, value)]) else none

/-- Whether a dotted key may add an entry to a table at the end of a path: only to one that dotted
keys have made. -/
def isOpenTo (path : List String) : Value → Bool
  | .table form _ => path.isEmpty || form.isDotted
  | _ => false

/-- Gives a key its value; `made` is the form of the tables that the key makes on its way. -/
def insert? (made : TableForm) (key : Key) (value : Value) : Value → Option Value :=
  within? made
    (fun target =>
      if target.isOpenTo key.path then target.onEntries (addNew? key.name value) else none)
    key.path

/-- Opens the table of a header.  A table that headers have only passed through so far moves to the
end of the entries. -/
def openTable? (key : Key) : Value → Option Value :=
  within? .implied
    (onEntries fun entries =>
      match Entries.get? key.name entries with
      | none => some (entries ++ [(key.name, emptyTable .headed)])
      | some (.table .implied inner) =>
        some (entries.filter (fun entry => entry.1 != key.name) ++
          [(key.name, .table .headed inner)])
      | some _ => none)
    key.path

/-- Opens one more table under a double header. -/
def openElement? (key : Key) : Value → Option Value :=
  within? .implied
    (onEntries fun entries =>
      match Entries.get? key.name entries with
      | none => some (entries ++ [(key.name, .tables [] (emptyTable .headed))])
      | some (.tables earlier last) =>
        some (Entries.upsert key.name
          (fun _ => .tables (earlier ++ [last]) (emptyTable .headed)) entries)
      | some _ => none)
    key.path

/-- The table of assignments between braces. -/
def ofBraces? (entries : List (Key × Value)) : Option Value :=
  entries.foldlM (fun target entry => insert? .bracedDotted entry.1 entry.2 target)
    (emptyTable .braced)

end Value

end JavaSignatures.Toml
