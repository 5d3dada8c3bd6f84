import JavaSignatures.Character.Case
import JavaSignatures.Text

set_option autoImplicit false

/-!
# Names

Type names are texts: simple (`List`), dotted (`java.util.Map.Entry`) or, once rendered, with `$`
between a declaration and one nested in it.  This module holds the questions asked of such texts
and the two replacements in rendered types: putting a text in the place of a whole identifier
(`substitute`) and taking off the package that needs no import (`dropImplicitPackage`).
-/

namespace JavaSignatures.Name

open JavaSignatures.Character

/-! ## Shapes of names -/

/-- The text is one identifier. -/
def isSimple (name : String) : Bool :=
  match name.toList with
  | [] => false
  | c :: rest => isNameStart c && rest.all isNamePart

/-- The text begins with an upper-case letter. -/
def isCapitalized (name : String) : Bool := name.toList.head?.any isUpper

/-- The text holds nothing but upper-case letters. -/
def isUpperOnly (name : String) : Bool := name.toList.all isUpper

/-- The text before the first period and the text after it. -/
def splitFirst? (name : String) : Option (String × String) :=
  (Text.cut? (· == '.') name.toList).map fun (first, rest) =>
    (String.ofList first, String.ofList rest)

/-- The part after the last occurrence of a character, or the whole text. -/
def afterLast (separator : Char) (name : String) : String :=
  String.ofList ((name.toList.splitOn separator).getLastD [])

/-- The name ends with a period and the simple name. -/
def hasLast (name simple : String) : Bool := ('.' :: simple.toList).isSuffixOf name.toList

/-- The name with `$` for each period: the form of a path of nested declarations. -/
def nestedForm (name : String) : String := Text.onString (Text.replaceChar '.' ['$']) name

/-- The text without white space. -/
def withoutBlanks (name : List Char) : String :=
  String.ofList (name.filter fun c => !isBlank c)

/-! ## Whole identifiers in a text -/

/-- An occurrence between these two characters is a whole identifier, and none that a period
qualifies. -/
def standsAlone (before next : Option Char) : Bool :=
  !(before.any fun c => isNamePart c || c == '.') && !next.any isNamePart

/-- Puts `replacement` in the place of each occurrence of `identifier` that stands alone.
Occurrences are taken from left to right and do not overlap; `pending` more characters belong to the
last one and are kept if `shown`. -/
def substituteFrom (identifier replacement : List Char) (before : Option Char) (shown : Bool) :
    (pending : Nat) → List Char → List Char
  | 0, [] =>
    if identifier.isEmpty && standsAlone before none then replacement else []
  | _, [] => []
  | pending + 1, c :: rest =>
    let tail := substituteFrom identifier replacement (some c) shown pending rest
    if shown then c :: tail else tail
  | 0, c :: rest =>
    if identifier.isPrefixOf (c :: rest) then
      let next := ((c :: rest).drop identifier.length).head?
      let alone := standsAlone before next
      let start := if alone then replacement else []
      let shown := !alone || identifier.isEmpty
      let tail := substituteFrom identifier replacement (some c) shown (identifier.length - 1) rest
      start ++ if shown then c :: tail else tail
    else c :: substituteFrom identifier replacement (some c) shown 0 rest

/-- Puts `replacement` in the place of each occurrence of `identifier` that is a whole identifier
and not qualified by a period. -/
def substitute (identifier replacement text : String) : String :=
  Text.onString
    (substituteFrom identifier.toList replacement.toList none true 0) text

/-- The package whose types every unit sees without an import. -/
def implicitPackage : String := "java.lang."

/-- The text without the package that needs no import. -/
def dropImplicitPackage (text : String) : String :=
  Text.onString (Text.replace implicitPackage.toList []) text

end JavaSignatures.Name
