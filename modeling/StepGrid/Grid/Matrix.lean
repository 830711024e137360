import StepGrid.Error
import StepGrid.Grid.Step

/-! A bar matrix as one row of placed steps. All bars are measured before any step is
looked at, so a bar of the wrong length wins over a bad step in an earlier bar. -/

namespace StepGrid.Matrix

/-- The values of a bar of the right length. -/
def bar (stepsPerBar : Nat) (index : Nat) (value : Json) : Except Error (List Json) :=
  match value.items? with
  | none => .error (.notSteps index value.kind)
  | some steps =>
    if steps.length = stepsPerBar then .ok steps
    else .error (.barLength index steps.length stepsPerBar)

def bars (stepsPerBar : Nat) (matrix : Json) : Except Error (List (List Json)) :=
  match matrix.items? with
  | none => .error (.notBars matrix.kind)
  | some values => values.zipIdx.mapM fun (value, index) => bar stepsPerBar index value

/-- A value of a matrix with its bar and its step. -/
structure Cell where
  bar : Nat
  step : Nat
  value : Json

def cells (rows : List (List Json)) : List Cell :=
  rows.zipIdx.flatMap fun (row, bar) => row.zipIdx.map fun (value, step) => ⟨bar, step, value⟩

def Cell.place (cell : Cell) : Except Error PlacedStep :=
  match Step.classify cell.value with
  | some step => .ok ⟨cell.bar, cell.step, step⟩
  | none => .error (.unsupportedStep cell.bar cell.step cell.value)

/-- The steps of a matrix, bar by bar. -/
def flatten (stepsPerBar : Nat) (matrix : Json) : Except Error (List PlacedStep) :=
  if stepsPerBar = 0 then .error .emptyBars
  else do
    let rows ← bars stepsPerBar matrix
    (cells rows).mapM Cell.place

end StepGrid.Matrix
