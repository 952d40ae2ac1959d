/-!
# Decimal digits of whole numbers
-/

namespace ResourceSchema.Decimal

/-- The decimal digits of a natural number, `0` for zero. -/
def digits (n : Nat) : List Char := Nat.toDigits 10 n

/-- A natural number as text. -/
def ofNat (n : Nat) : String := String.ofList (digits n)

/-- An integer as text, with a minus sign when it is negative. -/
def ofInt : Int → String
  | .ofNat n => ofNat n
  | .negSucc n => String.ofList ('-' :: digits (n + 1))

/-- The value of an ASCII decimal digit. -/
def digitValue? (c : Char) : Option Nat :=
  if '0'.toNat ≤ c.toNat ∧ c.toNat ≤ '9'.toNat then some (c.toNat - '0'.toNat) else none

/-- The character is one of `0` to `9`. -/
def isDigit (c : Char) : Bool := (digitValue? c).isSome

/-- Reads a nonempty run of decimal digits. -/
def natOfChars? : List Char → Option Nat
  | [] => none
  | cs => cs.foldlM (fun n c => (digitValue? c).map (10 * n + ·)) 0

/-- Reads an integer: an optional sign and at least one digit. -/
def intOfChars? : List Char → Option Int
  | '-' :: cs => (natOfChars? cs).map fun n => -(n : Int)
  | '+' :: cs => (natOfChars? cs).map fun n => (n : Int)
  | cs => (natOfChars? cs).map fun n => (n : Int)

/-- Reads an integer from text. -/
def int? (s : String) : Option Int := intOfChars? s.toList

end ResourceSchema.Decimal
