/-!
# Finite binary64 numbers in exact arithmetic

A finite binary64 number is a sign and the bit pattern of its magnitude. Its value is a whole
number of units of `2 ^ -1074`, so every operation here is computed exactly on natural numbers
and rounded once, to the nearest number and on a tie to the even pattern.
-/

namespace ResourceSchema

/-- The pattern of the least normal number: the place above the fraction bits. -/
def Binary64.firstNormal : Nat := 1 <<< 52

/-- The pattern of infinity: exponent bits all set, fraction bits clear. -/
def Binary64.limit : Nat := 2047 * firstNormal

/-- A finite binary64 number. -/
structure Binary64 where
  negative : Bool
  /-- The exponent and fraction bits, read as a natural number. -/
  pattern : Nat
  finite : pattern < Binary64.limit
deriving DecidableEq

namespace Binary64

/-- Zero with a sign. -/
def zero (negative : Bool) : Binary64 := ⟨negative, 0, by decide⟩

instance : Inhabited Binary64 := ⟨zero false⟩

/-- How often the significand is doubled to give the magnitude in units. -/
def scale (x : Binary64) : Nat := x.pattern / firstNormal - 1

/-- The fraction bits, with the leading bit of a normal number. -/
def significand (x : Binary64) : Nat :=
  if x.pattern < firstNormal then x.pattern else firstNormal + x.pattern % firstNormal

/-- The magnitude, counted in units of `2 ^ -1074`. -/
def units (x : Binary64) : Nat := x.significand <<< x.scale

/-- The whole number nearest to a quotient, the even one of two. -/
def roundQuotient (num den : Nat) : Nat :=
  let q := num / den
  let twice := 2 * (num % den)
  if den < twice ∨ (twice = den ∧ q % 2 = 1) then q + 1 else q

/-- Rounding moves a quotient by at most one half. -/
theorem roundQuotient_near (num : Nat) {den : Nat} (h : 0 < den) :
    2 * num ≤ 2 * (roundQuotient num den * den) + den ∧
      2 * (roundQuotient num den * den) ≤ 2 * num + den := by
  have whole : num / den * den + num % den = num := Nat.div_add_mod' num den
  have small : num % den < den := Nat.mod_lt num h
  simp only [roundQuotient]
  split
  · next up =>
    rw [Nat.add_mul, Nat.one_mul]
    omega
  · next down =>
    have : 2 * (num % den) ≤ den := Nat.le_of_not_lt fun hlt => down (.inl hlt)
    omega

/-- The finite number nearest to `num / den`, or nothing when that is infinity. -/
def ofQuotient? (negative : Bool) (num den : Nat) : Option Binary64 :=
  let exact := num <<< 1074
  let shift := Nat.log2 (exact / den) - 52
  let pattern := shift * firstNormal + roundQuotient exact (den <<< shift)
  if h : pattern < limit then some ⟨negative, pattern, h⟩ else none

/-- The number nearest to a natural number. -/
def ofNat? (n : Nat) : Option Binary64 := ofQuotient? false n 1

/-- The number nearest to a power of ten. -/
def powerOfTen? (exponent : Nat) : Option Binary64 := ofNat? (Nat.pow 10 exponent)

/-- The rounded product. -/
def mul? (x y : Binary64) : Option Binary64 :=
  ofQuotient? (x.negative != y.negative) (x.units * y.units) (1 <<< 2148)

/-- The rounded quotient. -/
def div? (x y : Binary64) : Option Binary64 :=
  ofQuotient? (x.negative != y.negative) x.units y.units

/-- The same magnitude with the other sign. -/
def neg (x : Binary64) : Binary64 := { x with negative := !x.negative }

example : ofNat? 1 = some ⟨false, 1023 * firstNormal, by decide⟩ := by decide +kernel

/-- A tie goes to the even pattern. -/
example : ofNat? (1 <<< 53 + 1) = ofNat? (1 <<< 53) := by decide +kernel

end Binary64

end ResourceSchema
