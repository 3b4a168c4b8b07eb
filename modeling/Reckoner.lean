import Reckoner.Binary64.Interchange
import Reckoner.Body
import Reckoner.Main
import Reckoner.Proofs.Interpretation
import Reckoner.Proofs.StrictNames
import Reckoner.Proofs.Substitution
import Reckoner.Proofs.Brackets
import Reckoner.Proofs.Segments
import Reckoner.Proofs.RoundTrip
import Reckoner.Proofs.TableHistory
import Reckoner.Proofs.Spelling
import Reckoner.Proofs.Agreement
import Reckoner.Proofs.Blame
import Reckoner.Proofs.MachineSteps
import Reckoner.Proofs.NaNOrigins
import Reckoner.Proofs.StackDepth
import Reckoner.Proofs.CompleteArguments
import Reckoner.Proofs.Conservation
import Reckoner.Proofs.Enclosures
import Reckoner.Proofs.Blocks
import Reckoner.Proofs.Juxtaposition
import Reckoner.Proofs.NumberTexts
import Reckoner.Proofs.CallNotations
import Reckoner.Proofs.LiteralGrammar
import Reckoner.Proofs.Numerals
import Reckoner.Proofs.StackDiscipline
import Reckoner.Proofs.Rounding
import Reckoner.Proofs.NearestInteger
import Reckoner.Proofs.EnclosureSoundness
import Reckoner.Proofs.CorrectRounding
import Reckoner.Proofs.RoundedArithmetic
import Reckoner.Proofs.SavingsPlans
import Reckoner.Proofs.LoanInterest
