set_option autoImplicit false

/-!
# Reports: accents on a terminal

A piece of text may carry accents, colours and weights.  With colours on they are written as escape
sequences around the text, and with colours off the text stays as it is.
-/

namespace JavaSignatures.Report

/-- A colour or a weight. -/
inductive Accent where
  | bold
  | dim
  | italic
  | red
  | green
  | cyan
  deriving DecidableEq, Repr, Inhabited

namespace Accent

/-- The number of the accent in an escape sequence. -/
def code : Accent → String
  | bold => "1"
  | dim => "2"
  | italic => "3"
  | red => "31"
  | green => "32"
  | cyan => "36"

/-- The sequence that turns an accent on. -/
def start (accent : Accent) : String := "\x1b[" ++ accent.code ++ "m"

/-- The sequence that turns all accents off. -/
def stop : String := "\x1b[0m"

end Accent

/-- A text with accents, if colours are on. -/
def accented (colors : Bool) (accents : List Accent) (text : String) : String :=
  if colors then String.join (accents.map Accent.start) ++ text ++ Accent.stop else text

@[simp]
theorem accented_false (accents : List Accent) (text : String) :
    accented false accents text = text := rfl

end JavaSignatures.Report
