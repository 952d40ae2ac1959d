import ResourceSchema.Json.NumberText

/-!
# Reading JSON text: blanks, words, numbers and strings

Text is read from left to right, and the first problem decides what is wrong with it: a `Fault`.
A `Reader` takes characters off the front of a text or stops with a fault. This module holds the
readers of the smallest pieces; each of them ends at the first character it does not need.
-/

namespace ResourceSchema.Json

/-- Why a text is refused. -/
inductive Fault where
  /-- The text is not JSON. -/
  | malformed
  /-- The text ends too early. -/
  | truncated
  /-- The text is JSON so far, but not of the wanted shape. -/
  | mismatched
deriving DecidableEq, Repr

/-- Takes characters off the front of a text. -/
abbrev Reader := StateT (List Char) (Except Fault)

namespace Reader

/-- The next character, which stays. -/
def peek : Reader (Option Char) := return (← get).head?

/-- Passes over one character. -/
def advance : Reader Unit := modify List.tail

/-- Space, tabulator, line feed and carriage return. -/
def isBlank (c : Char) : Bool := c = ' ' ∨ c = '\t' ∨ c = '\n' ∨ c = '\r'

/-- The next character that is not blank, which stays. -/
def peekToken : Reader (Option Char) := do
  modify (List.dropWhile isBlank)
  peek

/-- Passes over the given characters. -/
def expect : List Char → Reader Unit
  | [] => return
  | c :: rest => do
    match ← peek with
    | none => throw .truncated
    | some d => if d = c then do advance; expect rest else throw .malformed

/-! ## Numbers -/

/-- A run of digits, possibly empty. -/
def digitRun : Reader (List Char) := do
  let text ← get
  set (text.dropWhile Decimal.isDigit)
  return text.takeWhile Decimal.isDigit

/-- At least one digit. `cut` is the fault of a text that ends here. -/
def someDigits (cut : Fault) : Reader (List Char) := do
  let ds ← digitRun
  if ds.isEmpty then
    throw (if (← peek).isNone then cut else .malformed)
  return ds

/-- The digits before the point: `0` alone or a run that starts with another digit. -/
def wholeDigits (cut : Fault) : Reader (List Char) := do
  let ds ← someDigits cut
  if ds.head? = some '0' ∧ 1 < ds.length then throw .malformed
  return ds

/-- The parts of a number. `cut` is the fault of a text that ends inside it. -/
def numberText (cut : Fault) : Reader NumberText := do
  let negative := (← peek) = some '-'
  if negative then advance
  let whole ← wholeDigits cut
  let fraction ← if (← peek) = some '.' then do
      advance
      some <$> someDigits cut
    else pure none
  let exponent ← if (← peek) = some 'e' ∨ (← peek) = some 'E' then do
      advance
      let sign ← peek
      if sign = some '-' ∨ sign = some '+' then advance
      let ds ← someDigits cut
      pure (some (decide (sign = some '-'), ds))
    else pure none
  return ⟨negative, whole, fraction, exponent⟩

/-- A number; one too large for a float is malformed. -/
def number : Reader Number := do
  match (← numberText .truncated).number? with
  | some n => return n
  | none => throw .malformed

/-! ## Strings -/

/-- The value of a hexadecimal digit. -/
def hexValue? (c : Char) : Option Nat :=
  let n := c.toNat
  if 48 ≤ n ∧ n ≤ 57 then some (n - 48)
  else if 97 ≤ n ∧ n ≤ 102 then some (n - 87)
  else if 65 ≤ n ∧ n ≤ 70 then some (n - 55)
  else none

/-- Four hexadecimal digits. A text with fewer than four bytes left ends too early. -/
def hexQuad : Reader Nat := do
  let text ← get
  match (text.take 4).mapM hexValue? with
  | some [a, b, c, d] => do
    set (text.drop 4)
    return ((a * 16 + b) * 16 + c) * 16 + d
  | _ =>
    throw (if 4 ≤ (String.ofList (text.take 4)).utf8ByteSize then .malformed else .truncated)

/-- The character that a letter after a backslash stands for. -/
def simpleEscape? : Char → Option Char
  | '"' => some '"'
  | '\\' => some '\\'
  | '/' => some '/'
  | 'b' => some '\x08'
  | 'f' => some '\x0c'
  | 'n' => some '\n'
  | 'r' => some '\r'
  | 't' => some '\t'
  | _ => none

/-- The code of a leading surrogate has to be followed by that of a trailing one. -/
def surrogatePair (leading : Nat) : Reader Char := do
  expect ['\\', 'u']
  let trailing ← hexQuad
  if 0xDC00 ≤ trailing ∧ trailing < 0xE000 then
    return Char.ofNat (0x10000 + (leading - 0xD800) * 0x400 + (trailing - 0xDC00))
  else throw .malformed

/-- The rest of an escape after the backslash. -/
def escape : Reader Char := do
  match ← peek with
  | none => throw .truncated
  | some 'u' =>
    advance
    let code ← hexQuad
    if 0xDC00 ≤ code ∧ code < 0xE000 then throw .malformed
    else if 0xD800 ≤ code ∧ code < 0xDC00 then surrogatePair code
    else return Char.ofNat code
  | some c =>
    advance
    match simpleEscape? c with
    | some d => return d
    | none => throw .malformed

/-- The rest of an escape after the backslash, whatever code it names. -/
def skipEscape : Reader Char := do
  match ← peek with
  | some 'u' =>
    advance
    discard hexQuad
    return '\ufffd'
  | _ => escape

/-- The characters of a string up to its closing quote, latest first. Every step takes at least
one character, so the length of the text is enough fuel. -/
def stringRest (onEscape : Reader Char) : Nat → List Char → Reader (List Char)
  | 0, _ => throw .truncated
  | fuel + 1, taken => do
    match ← peek with
    | none => throw .truncated
    | some '"' => do advance; return taken
    | some '\\' => do
      advance
      stringRest onEscape fuel ((← onEscape) :: taken)
    | some c =>
      if c.toNat < 32 then throw .malformed
      else do advance; stringRest onEscape fuel (c :: taken)

/-- A string, at its opening quote. -/
def string : Reader String := do
  advance
  let taken ← stringRest escape ((← get).length + 1) []
  return String.ofList taken.reverse

/-- Passes over a string whose escapes may name single surrogates. -/
def skipString : Reader Unit := do
  advance
  discard <| stringRest skipEscape ((← get).length + 1) []

end Reader

end ResourceSchema.Json
