import Reckoner.Loan

/-!
# Command line

Prints the transcript of a sample loan: values on standard output, faults on
standard error.
-/

/-- Write the transcript of the sample loan. -/
def main : IO Unit := do
  let transcript := Reckoner.Loan.sampleTranscript
  let output ← IO.getStdout
  output.write ⟨transcript.values.toArray⟩
  output.flush
  let errors ← IO.getStderr
  errors.write ⟨transcript.faults.toArray⟩
  errors.flush
