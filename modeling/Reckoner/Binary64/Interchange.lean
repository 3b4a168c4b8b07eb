import Reckoner.Binary64

/-!
# The 64-bit interchange format

A word holds a sign bit, eleven exponent bits and 52 fraction bits. The
exponent field is zero for the significands below `2 ^ 52`; otherwise it is one
more than the exponent of the magnitude and the leading significand bit is
implied. A full exponent field marks infinities and NaNs.
-/

namespace Reckoner

namespace Magnitude

/-- The exponent and fraction fields of a magnitude as one number. -/
def toBits (magnitude : Magnitude) : Nat :=
  if magnitude.significand < 0x10000000000000 then
    magnitude.significand
  else
    (magnitude.exponent + 1) <<< 52 + (magnitude.significand - 0x10000000000000)

/-- The magnitude with the given fields, if the exponent field is not full. -/
def ofBits? (exponentField fraction : Nat) : Option Magnitude :=
  if exponentField = 0 then
    ofParts? fraction 0
  else
    ofParts? (0x10000000000000 + fraction) (exponentField - 1)

end Magnitude

namespace Binary64

/-- The sign bit in place. -/
def signBit (negative : Bool) : Nat :=
  if negative then 1 <<< 63 else 0

/-- The word of a value; `none` for NaN, which has many words. -/
def toBits? : Binary64 → Option Nat
  | .nan => none
  | .infinity negative =>
      some (signBit negative + 2047 <<< 52)
  | .finite negative magnitude =>
      some (signBit negative + magnitude.toBits)

/-- The value of a word. -/
def ofBits (word : Nat) : Binary64 :=
  let negative := (word >>> 63) % 2 == 1
  let exponentField := (word >>> 52) % 2048
  let fraction := word % 0x10000000000000
  if exponentField = 2047 then
    if fraction = 0 then .infinity negative else .nan
  else
    match Magnitude.ofBits? exponentField fraction with
    | some magnitude => .finite negative magnitude
    | none => .nan

end Binary64

end Reckoner
