import ResourceSchema.Json.Value
import ResourceSchema.Decimal.Digits
import ResourceSchema.Word

/-!
# The value of a JSON number as written

An integer that fits 64 bits keeps its value. Every other number becomes a binary64 number: as
many leading digits as fit 64 bits make a significand, which is rounded and then scaled by the
power of ten, with one more rounding.
-/

namespace ResourceSchema.Json

/-- The parts of a number as written. -/
structure NumberText where
  negative : Bool
  /-- The digits before the point. -/
  whole : List Char
  /-- The digits after the point. -/
  fraction : Option (List Char)
  /-- Whether the exponent is negative, and its digits. -/
  exponent : Option (Bool × List Char)

/-- Appends digits to a significand of 64 bits as long as they fit; also the digits left over. -/
def absorb (significand : Nat) : List Char → Nat × List Char
  | [] => (significand, [])
  | c :: rest =>
    let next := 10 * significand + (c.toNat - '0'.toNat)
    if next < UInt64.size then absorb next rest else (significand, c :: rest)

/-- Divides by `10 ^ exponent`, rounding once for every full or partial factor `10 ^ 308`. -/
def divideByPower? (x : Binary64) (exponent : Nat) : Option Binary64 :=
  if exponent ≤ 308 then do x.div? (← Binary64.powerOfTen? exponent)
  else if x.pattern = 0 then some x
  else do divideByPower? (← x.div? (← Binary64.powerOfTen? 308)) (exponent - 308)
termination_by exponent

/-- Multiplies by `10 ^ exponent`; nothing when the result is infinite. -/
def scaleByPower? (x : Binary64) (exponent : Int) : Option Binary64 :=
  if exponent < 0 then divideByPower? x exponent.natAbs
  else if exponent ≤ 308 then do x.mul? (← Binary64.powerOfTen? exponent.toNat)
  else if x.pattern = 0 then some x
  else none

/-- Exponents from here on are not computed with: their powers are zero or too large. -/
def farExponent : Nat := 1 <<< 31

/-- The float that a number is read as: the leading digits that fit 64 bits are rounded, and then
scaled by the power of ten. Nothing when the number is too large. -/
def NumberText.float? (t : NumberText) : Option Binary64 := do
  let (leading, dropped) := absorb 0 t.whole
  let fraction := t.fraction.getD []
  let (significand, unused) := absorb leading fraction
  let shift : Int := dropped.length - (fraction.length - unused.length : Nat)
  let (down, exponent) := match t.exponent with
    | none => (false, 0)
    | some (down, ds) => (down, (Decimal.natOfChars? ds).getD 0)
  if exponent < farExponent then
    let x ← Binary64.ofNat? significand
    let y ← scaleByPower? x (if down then shift - exponent else shift + exponent)
    return { y with negative := t.negative }
  else if significand = 0 ∨ down then return Binary64.zero t.negative
  else none

/-- An integer of 64 bits when there is neither point nor exponent, else a float. Minus zero is
a float. -/
def NumberText.number? (t : NumberText) : Option Number :=
  match t.fraction, t.exponent, Decimal.natOfChars? t.whole with
  | none, none, some n =>
    if ¬ t.negative ∧ n < UInt64.size then some (.integer n)
    else if t.negative ∧ 0 < n ∧ (Word.int64? (-n)).isSome then some (.integer (-n))
    else t.float?.map .float
  | _, _, _ => t.float?.map .float

end ResourceSchema.Json
