set_option autoImplicit false

/-!
# Characters: tables of code points

A character class is a list of closed ranges of code points, or of runs with a step where
upper-case and lower-case letters alternate.  A case map is a list of runs that all move by one
offset.  The tables themselves are in `Character.Table` and `Character.CaseTable`; ASCII is left
out of them, since `Character.Class` and `Character.Case` decide it directly.
-/

namespace JavaSignatures.Character

/-- Whether a code point lies in one of the closed ranges. -/
def inRanges (ranges : List (Nat × Nat)) (code : Nat) : Bool :=
  ranges.any fun range => range.1 ≤ code && code ≤ range.2

/-- The code points `first`, `first + step`, … up to `last`. -/
structure Run where
  first : Nat
  last : Nat
  step : Nat
  deriving DecidableEq, Repr, Inhabited

namespace Run

/-- Whether a code point is one of the run. -/
def contains (run : Run) (code : Nat) : Bool :=
  run.first ≤ code && code ≤ run.last && (code - run.first) % run.step == 0

end Run

/-- Whether a code point is in one of the runs. -/
def inRuns (runs : List Run) (code : Nat) : Bool :=
  runs.any fun run => run.contains code

/-- A run of code points whose images all lie at the same distance. -/
structure Shift where
  first : Nat
  last : Nat
  step : Nat
  offset : Int
  deriving DecidableEq, Repr, Inhabited

namespace Shift

/-- The code points that the shift moves. -/
def run (shift : Shift) : Run := ⟨shift.first, shift.last, shift.step⟩

/-- The image of a code point of the run. -/
def apply (shift : Shift) (code : Nat) : Nat :=
  (code + shift.offset).toNat

end Shift

/-- The image of a code point under the first shift that moves it. -/
def shifted? (shifts : List Shift) (code : Nat) : Option Nat :=
  (shifts.find? fun shift => shift.run.contains code).map fun shift => shift.apply code

end JavaSignatures.Character
