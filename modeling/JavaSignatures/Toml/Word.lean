import JavaSignatures.Toml.Value

set_option autoImplicit false

/-!
# TOML: words

A value without quotes or brackets is a word: `true` and `false`, an integer in one of four bases, a
number with a fraction or an exponent, a date, a time, or both.  Integers have 64 bits.
-/

namespace JavaSignatures.Toml.Word

/-- Characters that words consist of. -/
def isPart (c : Char) : Bool := c.isAlphanum || ['+', '-', '.', ':', '_'].contains c

/-! ## Digits -/

/-- The digits from 0 to 9 and from A to F, in both cases. -/
def isHexDigit (c : Char) : Bool :=
  c.isDigit || 'a' ≤ c && c ≤ 'f' || 'A' ≤ c && c ≤ 'F'

/-- The value of a digit. -/
def digitValue (c : Char) : Nat :=
  if c.isDigit then c.toNat - '0'.toNat
  else if c.toNat < 'a'.toNat then c.toNat - 'A'.toNat + 10
  else c.toNat - 'a'.toNat + 10

/-- The number that digits write in a base; the underscores between them mean nothing. -/
def digitsValue (base : Nat) (digits : List Char) : Nat :=
  (digits.filter (· != '_')).foldl (fun value c => value * base + digitValue c) 0

/-- One or more digits, with single underscores allowed between them. -/
def isGrouped (isDigit : Char → Bool) : List Char → Bool
  | [] => false
  | [c] => isDigit c
  | c :: '_' :: rest => isDigit c && isGrouped isDigit rest
  | c :: d :: rest => isDigit c && isGrouped isDigit (d :: rest)

/-- Decimal digits without a needless zero in front. -/
def isDecimal (digits : List Char) : Bool :=
  isGrouped Char.isDigit digits && (digits.length == 1 || digits.head? != some '0')

/-- Whether a number is negative, and what follows its sign. -/
def splitSign : List Char → Bool × List Char
  | '+' :: rest => (false, rest)
  | '-' :: rest => (true, rest)
  | text => (false, text)

/-! ## Numbers -/

/-- An integer of 64 bits. -/
def ofInt? (value : Int) : Option Value :=
  if -9223372036854775808 ≤ value && value ≤ 9223372036854775807 then some (.integer value)
  else none

/-- An integer without a sign, written in a base other than ten. -/
def inBase? (base : Nat) (isDigit : Char → Bool) (digits : List Char) : Option Value :=
  if isGrouped isDigit digits then ofInt? (digitsValue base digits) else none

/-- An integer. -/
def integer? : List Char → Option Value
  | '0' :: 'x' :: digits => inBase? 16 isHexDigit digits
  | '0' :: 'o' :: digits => inBase? 8 (fun c => c.isDigit && c ≤ '7') digits
  | '0' :: 'b' :: digits => inBase? 2 (fun c => c == '0' || c == '1') digits
  | word =>
    let (negative, digits) := splitSign word
    if isDecimal digits then
      let value := digitsValue 10 digits
      ofInt? (if negative then -value else value)
    else none

/-- The exponent that ends a number; without one it is zero. -/
def exponent? : List Char → Option Int
  | [] => some 0
  | c :: rest =>
    let (negative, digits) := splitSign rest
    if (c == 'e' || c == 'E') && isGrouped Char.isDigit digits then
      let value := digitsValue 10 digits
      some (if negative then -value else value)
    else none

/-- The least number that is too large for a float of 64 bits. -/
def floatBound : Nat := Nat.pow 2 1024 - Nat.pow 2 970

/-- Whether `digits · 10 ^ exponent` is below the bound of floats.  Numbers far from the bound are
told by their number of digits. -/
def isBelowBound (digits : List Char) (exponent : Int) : Bool :=
  let digits := (digits.filter (· != '_')).dropWhile (· == '0')
  let scale := digits.length + exponent
  if digits.isEmpty || scale < 300 then true
  else if 320 < scale then false
  else
    digitsValue 10 digits * Nat.pow 10 exponent.toNat < floatBound * Nat.pow 10 (-exponent).toNat

/-- Whether the text is a number with a fraction or an exponent, which may not be too large. -/
def isFloat (word : List Char) : Bool :=
  let (negative, body) := splitSign word
  let isPlace := fun (c : Char) => c.isDigit || c == '_'
  let whole := body.takeWhile isPlace
  let rest := body.dropWhile isPlace
  if body == "inf".toList || body == "nan".toList then true
  else if !isDecimal whole then false
  else
    match rest with
    | [] => false
    | '.' :: rest =>
      let fraction := rest.takeWhile isPlace
      isGrouped Char.isDigit fraction &&
        match exponent? (rest.dropWhile isPlace) with
        | none => false
        | some exponent =>
          let places := (fraction.filter (· != '_')).length
          negative || isBelowBound (whole ++ fraction) (exponent - places)
    | rest =>
      match exponent? rest with
      | none => false
      | some exponent => negative || isBelowBound whole exponent

/-! ## Dates and times -/

/-- What follows a number of exactly `count` digits from `least` to `most`, and the number. -/
def fixed? (count least most : Nat) (text : List Char) : Option (Nat × List Char) :=
  let digits := text.take count
  let value := digitsValue 10 digits
  if digits.length == count && digits.all Char.isDigit && least ≤ value && value ≤ most then
    some (value, text.drop count)
  else none

/-- The number of days of a month. -/
def daysIn (year month : Nat) : Nat :=
  if month == 2 then
    if year % 4 == 0 && (year % 100 != 0 || year % 400 == 0) then 29 else 28
  else if [4, 6, 9, 11].contains month then 30 else 31

/-- What follows a date. -/
def afterDate? (text : List Char) : Option (List Char) := do
  let (year, text) ← fixed? 4 0 9999 text
  let (month, text) ← fixed? 2 1 12 (← Text.after? ['-'] text)
  let (_, text) ← fixed? 2 1 (daysIn year month) (← Text.after? ['-'] text)
  return text

/-- What follows an hour and a minute. -/
def afterMinute? (text : List Char) : Option (List Char) := do
  let (_, text) ← fixed? 2 0 23 text
  let (_, text) ← fixed? 2 0 59 (← Text.after? [':'] text)
  return text

/-- What follows a time; its seconds may have a fraction. -/
def afterTime? (text : List Char) : Option (List Char) := do
  let text ← afterMinute? text
  let (_, text) ← fixed? 2 0 60 (← Text.after? [':'] text)
  match text with
  | '.' :: c :: rest => if c.isDigit then return rest.dropWhile Char.isDigit else none
  | _ => return text

/-- The text is empty or the distance of a time from the universal one. -/
def isOffset : List Char → Bool
  | [] | ['Z'] | ['z'] => true
  | c :: rest => (c == '+' || c == '-') && afterMinute? rest == some []

/-- The text is a date, a time, or a date with a time. -/
def isDate (text : List Char) : Bool :=
  match afterDate? text with
  | some [] => true
  | some (c :: rest) =>
    ['T', 't', ' '].contains c && (afterTime? rest).any isOffset
  | none => afterTime? text == some []

/-! ## Words -/

/-- The value that a word means. -/
def value? (word : List Char) : Option Value :=
  if word == "true".toList then some (.boolean true)
  else if word == "false".toList then some (.boolean false)
  else if isDate word then some (.date (String.ofList word))
  else if isFloat word then some (.float (String.ofList word))
  else integer? word

/-- The first word of a text without the space that may stand in it, and what follows. -/
def cutShort (text : List Char) : List Char × List Char :=
  (text.takeWhile isPart, text.dropWhile isPart)

/-- Cuts a text behind its first word.  A space between a date and a time belongs to the word. -/
def cut (text : List Char) : List Char × List Char :=
  match cutShort text with
  | (word, ' ' :: rest) =>
    let (time, after) := cutShort rest
    if afterDate? word == some [] && isDate (word ++ ' ' :: time) then (word ++ ' ' :: time, after)
    else (word, ' ' :: rest)
  | (word, rest) => (word, rest)

/-- Reads a word. -/
def read? : Reader Value := fun text =>
  (value? (cut text).1).map fun value => (value, (cut text).2)

theorem cutShort_append (text : List Char) : (cutShort text).1 ++ (cutShort text).2 = text :=
  List.takeWhile_append_dropWhile

theorem cut_append (text : List Char) : (cut text).1 ++ (cut text).2 = text := by
  have h := cutShort_append text
  unfold cut
  split
  · next word rest heq =>
    rw [heq] at h
    dsimp only
    split
    · rw [List.append_assoc, List.cons_append, cutShort_append, h]
    · exact h
  · next word rest _ heq =>
    rw [heq] at h
    exact h

end JavaSignatures.Toml.Word
