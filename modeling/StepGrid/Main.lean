import StepGrid.CommandLine.Run

/-! The program on a whole machine. -/

namespace StepGrid.CommandLine

/-- The words of the machine for what went wrong with a file. -/
def reason : IO.Error → String
  | .noFileOrDirectory .. => FileFault.missing.phrase
  | .inappropriateType _ code details => details ++ " (os error " ++ toString code ++ ")"
  | .permissionDenied _ code details => details ++ " (os error " ++ toString code ++ ")"
  | .resourceExhausted _ code details => details ++ " (os error " ++ toString code ++ ")"
  | other => toString other

def machine : Host IO where
  read path := do
    try
      let content ← IO.FS.readBinFile path
      match String.fromUTF8? content with
      | some text => return .ok text
      | none => return .error FileFault.notText.phrase
    catch fault => return .error (reason fault)
  write path bytes := do
    try
      IO.FS.writeBinFile path ⟨bytes.toArray⟩
      return .ok ()
    catch fault => return .error (reason fault)

end StepGrid.CommandLine

def main (arguments : List String) : IO UInt32 := do
  let report ← StepGrid.CommandLine.run StepGrid.CommandLine.machine arguments
  IO.print report.stdout
  IO.eprint report.stderr
  return UInt32.ofNat report.exit
