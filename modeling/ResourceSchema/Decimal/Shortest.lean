import ResourceSchema.Decimal.Binary64
import ResourceSchema.Decimal.Digits

/-!
# The shortest decimal that reads back

`Binary64.shortest` finds, for a finite number, the decimal with the fewest digits that lies in
the interval of reals rounding to that number; of two such decimals it takes the nearer one, and
on a tie the one with the even last digit. `Decimal.Layout` then says where the point goes.
-/

namespace ResourceSchema

/-- A decimal: the value `coefficient * 10 ^ exponent`. -/
structure Decimal where
  coefficient : Nat
  exponent : Int
deriving DecidableEq, Repr

namespace Binary64

/-- The ends of the interval that rounds to a number, and the number itself, all in quarter
units. Below a power of two the neighbour is only half as far away. -/
def interval (x : Binary64) : Nat × Nat × Nat :=
  let below := if x.significand = firstNormal ∧ 0 < x.scale then 1 else 2
  let quarters := 4 * x.significand
  ((quarters - below) <<< x.scale, quarters <<< x.scale, (quarters + 2) <<< x.scale)

/-- The exponent of the first significant digit of `num / den`, for a positive quotient. -/
def leadingExponent (num den : Nat) : Int :=
  if den ≤ num then ((Decimal.digits (num / den)).length : Int) - 1
  else -((Decimal.digits ((den + num - 1) / num - 1)).length : Int)

/-- The nearest decimal to `x` on the grid of multiples of `10 ^ exponent`, if one of the two
neighbours of `x` on the grid rounds to `x`. -/
def onGrid? (x : Binary64) (exponent : Int) : Option Decimal :=
  let (low, middle, high) := x.interval
  -- one step of the grid is `step` quarter units divided by `per`
  let step := Nat.pow 10 exponent.toNat <<< 1076
  let per := Nat.pow 10 (-exponent).toNat
  let down := middle * per / step
  let up := down + 1
  let inside (n : Nat) : Bool :=
    if x.significand % 2 = 0 then low * per ≤ n * step ∧ n * step ≤ high * per
    else low * per < n * step ∧ n * step < high * per
  let toDown := middle * per - down * step
  let toUp := up * step - middle * per
  match inside down, inside up with
  | true, true =>
    if toDown < toUp ∨ (toDown = toUp ∧ down % 2 = 0) then some ⟨down, exponent⟩
    else some ⟨up, exponent⟩
  | true, false => some ⟨down, exponent⟩
  | false, true => some ⟨up, exponent⟩
  | false, false => none

/-- The shortest decimal that reads back as the magnitude of `x`. Seventeen digits suffice for
every finite number. -/
def shortest (x : Binary64) : Decimal :=
  if x.pattern = 0 then ⟨0, 0⟩
  else
    let first := leadingExponent x.units (1 <<< 1074)
    ((List.range 17).findSome? fun (extra : Nat) => x.onGrid? (first - extra)).getD ⟨0, 0⟩

end Binary64

namespace Decimal

/-- Which exponents of the first digit are written in plain notation: those from `least` on and
below `limit`. -/
structure Layout where
  least : Int
  limit : Int

/-- Drops the zeros at the end. -/
def trimZeros (cs : List Char) : List Char := (cs.reverse.dropWhile (· == '0')).reverse

/-- A decimal as text: plain notation with at least one digit after the point, or one digit
before the point and an exponent with its sign. -/
def Layout.write (layout : Layout) (d : Decimal) : List Char :=
  if d.coefficient = 0 then ['0', '.', '0']
  else
    let all := digits d.coefficient
    let exponent := d.exponent + all.length - 1
    let ds := trimZeros all
    if layout.least ≤ exponent ∧ exponent < layout.limit then
      if 0 ≤ exponent then
        let whole := exponent.toNat + 1
        let fraction := ds.drop whole
        ds.take whole ++ List.replicate (whole - ds.length) '0' ++
          '.' :: (if fraction.isEmpty then ['0'] else fraction)
      else '0' :: '.' :: List.replicate ((-exponent).toNat - 1) '0' ++ ds
    else
      let mantissa := if ds.length = 1 then ds else ds.take 1 ++ '.' :: ds.drop 1
      let sign := if exponent < 0 then '-' else '+'
      mantissa ++ 'e' :: sign :: digits exponent.natAbs

end Decimal

end ResourceSchema
