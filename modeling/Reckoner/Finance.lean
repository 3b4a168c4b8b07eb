import Reckoner.Binary64.Elementary
import Reckoner.Fault

/-!
# Payments at compound interest

Periodic payments of a loan and the future value of savings. Both treat a rate
of zero on its own. Each formula is evaluated as it is written, with every step
rounded.
-/

namespace Reckoner

namespace Finance

/--
The payment per period that pays off a present value:
`rate * presentValue / (1 - (1 + rate) ^ (-periods))`.
-/
def payment (rate periods presentValue : Binary64) : Except Report Binary64 :=
  if rate.isZero then
    if periods.isZero then
      .error (.evaluation .divisionByZero
        (Text.ofString "pmt: number of periods is zero"))
    else
      .ok (-presentValue / periods)
  else
    let annuity := .one - (.one + rate).pow (-periods)
    if annuity.isZero then
      .error (.evaluation .divisionByZero
        (Text.ofString "pmt: annuity factor is zero"))
    else
      .ok (rate * presentValue / annuity)

/--
The value of a present value and equal payments after a number of periods,
counted as money paid out: `-(presentValue * growth + payment * (growth - 1) / rate)`
with `growth = (1 + rate) ^ periods`.
-/
def futureValue (rate periods payment presentValue : Binary64) : Binary64 :=
  if rate.isZero then
    (presentValue + payment * periods).neg
  else
    let growth := (.one + rate).pow periods
    (presentValue * growth + payment * (growth - .one) / rate).neg

end Finance

end Reckoner
