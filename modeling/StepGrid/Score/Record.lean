import StepGrid.Error

/-! What the compiler notes down while it works. -/

namespace StepGrid

inductive Record where
  | struck (bar step : Int) (notes : Nat) (start : Rat) (length : Nat)
  | orphan (bar step : Int)
  | compiled (steps events : Nat)
deriving DecidableEq, Repr

namespace Record

/-- A place counted from one, as an unsigned number of 64 bits. -/
def placeText (bar step : Int) : String :=
  let number (index : Int) := toString ((index + 1) % 18446744073709551616)
  "bar " ++ number bar ++ " step " ++ number step

def text : Record → String
  | struck bar step notes start length =>
    "DEBUG " ++ placeText bar step ++ ": " ++ toString notes ++ " note(s) at beat " ++
      fractionText start ++ " for " ++ toString length ++ " step(s)"
  | orphan bar step =>
    "WARN " ++ placeText bar step ++ ": sustain with no preceding note, ignored"
  | compiled steps events =>
    "INFO compiled " ++ toString steps ++ " steps into " ++ toString events ++ " note events"

end Record

end StepGrid
