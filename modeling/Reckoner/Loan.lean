import Reckoner.Session

/-!
# A loan calculator

Formulas about a loan are evaluated with its principal, its monthly rate and
its number of months. Besides the built-in functions they may use `interest`,
the total interest paid over the life of a loan.
-/

namespace Reckoner

/-- What is known about a loan. -/
structure Loan where
  principal : Binary64
  annualRate : Binary64
  years : Binary64
  deriving DecidableEq

namespace Loan

/-- The number of months in a year. -/
def monthsPerYear : Binary64 :=
  .ofNat 12

/-- The interest rate of one month. -/
def rate (loan : Loan) : Binary64 :=
  loan.annualRate / monthsPerYear

/-- The number of monthly payments. -/
def months (loan : Loan) : Binary64 :=
  loan.years * monthsPerYear

/-- The variables of formulas about a loan. -/
def bindings (loan : Loan) : Bindings :=
  .ofList [
    (Text.ofString "principal", loan.principal),
    (Text.ofString "rate", loan.rate),
    (Text.ofString "months", loan.months)
  ]

/-- Total interest: all payments less the principal. -/
def totalInterest (rate months principal : Binary64) : Except Report Binary64 :=
  (Finance.payment rate months principal).map fun payment =>
    payment * months - principal

/-- The total interest as a function of rate, months and principal. -/
def interest : Function :=
  .ofBody 3 fun arguments =>
    totalInterest (Builtin.argument 0 arguments) (Builtin.argument 1 arguments)
      (Builtin.argument 2 arguments)

/-- The evaluator of formulas about a loan. -/
def evaluator : Evaluator where
  functions := Builtin.table.insert (Text.ofString "interest") (by decide) interest
  strict := false

/-- What is written while formulas are evaluated: values, and faults apart from them. -/
structure Transcript where
  values : Text
  faults : Text
  deriving DecidableEq

namespace Transcript

/-- Nothing written yet. -/
def empty : Transcript where
  values := []
  faults := []

/-- Write one transcript after another. -/
def append (first second : Transcript) : Transcript where
  values := first.values ++ second.values
  faults := first.faults ++ second.faults

end Transcript

/-- A text as one line, ended by a line feed. -/
def line (text : Text) : Text :=
  text ++ [10]

/-- Evaluate a formula and write its value with six significant digits, or its fault. -/
def transcript (evaluator : Evaluator) (bindings : Bindings) (formula : Text) : Transcript :=
  match evaluator.evaluate bindings formula with
  | .ok value => {
      values := line (formula ++ Text.ofString " = " ++ value.sixDigits)
      faults := []
    }
  | .error fault => {
      values := []
      faults :=
        line (formula ++ Text.ofString ": " ++ fault.report.kind.name ++
          Text.ofString ": " ++ fault.report.message)
    }

/-- Evaluate formulas about a loan one after the other. -/
def transcriptAll (loan : Loan) (formulas : List Text) : Transcript :=
  formulas.foldl
    (fun written formula => written.append (transcript evaluator loan.bindings formula))
    .empty

/-- A loan of 200000 at six percent for thirty years. -/
def sample : Loan where
  principal := .ofNat 200000
  annualRate := .ofRat (6 / 100)
  years := .ofNat 30

/-- Payments, interest and savings, and three formulas that have no value. -/
def sampleFormulas : List Text := [
  Text.ofString "pmt(rate, months, principal)",
  Text.ofString "round(interest(rate, months, principal))",
  Text.ofString "fv(rate, 12, 0 - 100)",
  Text.ofString "fv(rate, 12, 0 - 100, 1000)",
  Text.ofString "principal / (rate - rate)",
  Text.ofString "principal * deposit",
  Text.ofString "(1 + 2"
]

/-- The transcript of the sample loan. -/
def sampleTranscript : Transcript :=
  sample.transcriptAll sampleFormulas

end Loan

end Reckoner
