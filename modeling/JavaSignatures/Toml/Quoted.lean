import JavaSignatures.Toml.Word

set_option autoImplicit false

/-!
# TOML: quoted strings

Strings between quotation marks, which may hold escapes, and between apostrophes, which hold none.
Each kind has a short form on one line and a long form between tripled marks.
-/

namespace JavaSignatures.Toml

/-- The two kinds of quotation. -/
inductive Quotation where
  | marks
  | apostrophes
  deriving DecidableEq, Repr, Inhabited

namespace Quotation

/-- The character around the string. -/
def mark : Quotation → Char
  | marks => '"'
  | apostrophes => '\''

/-- The string may hold escapes. -/
def hasEscapes : Quotation → Bool
  | marks => true
  | apostrophes => false

/-- The character that an escape stands for, and how many characters it takes behind its
backslash. -/
def escape? : List Char → Option (Char × Nat)
  | [] => none
  | c :: rest =>
    match c with
    | 'b' => some ('\x08', 1)
    | 't' => some ('\t', 1)
    | 'n' => some ('\n', 1)
    | 'f' => some ('\x0c', 1)
    | 'r' => some ('\r', 1)
    | '"' => some ('"', 1)
    | '\\' => some ('\\', 1)
    | 'u' => code? 4 rest
    | 'U' => code? 8 rest
    | _ => none
where
  /-- The character with a code of `count` digits. -/
  code? (count : Nat) (rest : List Char) : Option (Char × Nat) :=
    let digits := rest.take count
    let code := Word.digitsValue 16 digits
    if digits.length == count && digits.all Word.isHexDigit && code.isValidChar then
      some (Char.ofNat code, count + 1)
    else none

/-- How many characters of white space follow a backslash that ends its line. -/
def continuation? (rest : List Char) : Option Nat :=
  (afterBreak? (skipGap rest)).map fun below => rest.length - (skipLines below).length
where
  /-- A text without the blank lines and the white space that it begins with. -/
  skipLines : List Char → List Char
    | [] => []
    | c :: rest =>
      if isGap c || c == '\n' || c == '\r' && rest.head? == some '\n' then skipLines rest
      else c :: rest

/-- Reads the rest of a short string, after `pending` more characters of an escape. -/
def shortRest? (quotation : Quotation) : (pending : Nat) → Reader (List Char)
  | _, [] => none
  | pending + 1, _ :: rest => shortRest? quotation pending rest
  | 0, c :: rest =>
    if c == quotation.mark then some ([], rest)
    else if quotation.hasEscapes && c == '\\' then
      match escape? rest with
      | none => none
      | some (d, n) => (shortRest? quotation n rest).map fun (read, rest) => (d :: read, rest)
    else if isPrintable c then
      (shortRest? quotation 0 rest).map fun (read, rest) => (c :: read, rest)
    else none

/-- Reads the rest of a long string, after `pending` more characters that are left out.  Up to two
marks in front of the closing ones belong to the string, and a line break is a line feed. -/
def longRest? (quotation : Quotation) : (pending : Nat) → Reader (List Char)
  | _, [] => none
  | pending + 1, _ :: rest => longRest? quotation pending rest
  | 0, c :: rest =>
    let marks := ((c :: rest).takeWhile (· == quotation.mark)).length
    if 3 ≤ marks then
      let closing := min marks 5
      some (List.replicate (closing - 3) quotation.mark, (c :: rest).drop closing)
    else if quotation.hasEscapes && c == '\\' then
      match continuation? rest with
      | some n => longRest? quotation n rest
      | none =>
        match escape? rest with
        | none => none
        | some (d, n) => (longRest? quotation n rest).map fun (read, rest) => (d :: read, rest)
    else if c == '\r' && rest.head? == some '\n' then longRest? quotation 0 rest
    else if isPrintable c || c == '\n' then
      (longRest? quotation 0 rest).map fun (read, rest) => (c :: read, rest)
    else none

/-- Reads a short string. -/
def short? (quotation : Quotation) : Reader String := fun text => do
  let rest ← Text.after? [quotation.mark] text
  let (read, rest) ← quotation.shortRest? 0 rest
  return (String.ofList read, rest)

/-- Reads a long string; a line break right behind the opening marks does not belong to it. -/
def long? (quotation : Quotation) : Reader String := fun text => do
  let rest ← Text.after? (List.replicate 3 quotation.mark) text
  let (read, rest) ← quotation.longRest? 0 ((afterBreak? rest).getD rest)
  return (String.ofList read, rest)

/-- Reads a string in either form. -/
def read? (quotation : Quotation) : Reader String := fun text =>
  if (List.replicate 3 quotation.mark).isPrefixOf text then quotation.long? text
  else quotation.short? text

/-- The quotation that a character begins. -/
def ofMark? (c : Char) : Option Quotation :=
  if c == '"' then some marks else if c == '\'' then some apostrophes else none

end Quotation

end JavaSignatures.Toml
