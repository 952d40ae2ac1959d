import ResourceSchema.Decimal.Shortest
import ResourceSchema.Json.Value

/-!
# JSON text of a value

`Json.compact` writes a value without blanks; `Json.pretty` puts every item and member on a line
of its own, indented by two blanks a level. Members are written in the order of the value.
-/

namespace ResourceSchema.Json

/-- Floats are written in plain notation when the first digit has an exponent from -5 to 15. -/
def Number.layout : Decimal.Layout := ⟨-5, 16⟩

/-- An integer as its digits, a float as the fewest digits that read back. -/
def Number.chars : Number → List Char
  | .integer n => (Decimal.ofInt n).toList
  | .float x => (if x.negative then ['-'] else []) ++ layout.write x.shortest

/-- The text of a number. -/
def Number.render (n : Number) : String := String.ofList n.chars

/-- A character inside a string: quote, backslash and control characters are escaped. -/
def escapeChar (c : Char) : List Char :=
  if c = '"' then ['\\', '"']
  else if c = '\\' then ['\\', '\\']
  else if c = '\x08' then ['\\', 'b']
  else if c = '\x0c' then ['\\', 'f']
  else if c = '\n' then ['\\', 'n']
  else if c = '\r' then ['\\', 'r']
  else if c = '\t' then ['\\', 't']
  else if c.toNat < 32 then
    ['\\', 'u', '0', '0', Nat.digitChar (c.toNat / 16), Nat.digitChar (c.toNat % 16)]
  else [c]

/-- A string between quotes. -/
def quoted (s : String) : List Char := '"' :: s.toList.flatMap escapeChar ++ ['"']

/-- Texts with a separator between them. -/
def joined (separator : List Char) : List (List Char) → List Char
  | [] => []
  | [text] => text
  | text :: rest => text ++ separator ++ joined separator rest

mutual

/-- The characters of a value without blanks. -/
def compactChars : Json → List Char
  | .null => ['n', 'u', 'l', 'l']
  | .bool true => ['t', 'r', 'u', 'e']
  | .bool false => ['f', 'a', 'l', 's', 'e']
  | .number n => n.chars
  | .string s => quoted s
  | .array items => '[' :: joined [','] (compactItems items) ++ [']']
  | .object members => '\x7b' :: joined [','] (compactMembers members) ++ ['\x7d']

def compactItems : List Json → List (List Char)
  | [] => []
  | j :: rest => compactChars j :: compactItems rest

def compactMembers : List (String × Json) → List (List Char)
  | [] => []
  | (k, j) :: rest => (quoted k ++ ':' :: compactChars j) :: compactMembers rest

end

/-- The text of a value without blanks. -/
def compact (j : Json) : String := String.ofList j.compactChars

/-- A line break and the indentation of a level. -/
def newline (level : Nat) : List Char := '\n' :: List.replicate (2 * level) ' '

/-- Lines between brackets, one level deeper than the brackets. -/
def indented (level : Nat) (start finish : Char) (lines : List (List Char)) : List Char :=
  if lines.isEmpty then [start, finish]
  else start :: newline (level + 1) ++ joined (',' :: newline (level + 1)) lines ++
    newline level ++ [finish]

mutual

/-- The characters of a value whose first line is at a level. -/
def prettyChars (level : Nat) : Json → List Char
  | .array items => indented level '[' ']' (prettyItems (level + 1) items)
  | .object members => indented level '\x7b' '\x7d' (prettyMembers (level + 1) members)
  | .null => compactChars .null
  | .bool b => compactChars (.bool b)
  | .number n => n.chars
  | .string s => quoted s

def prettyItems (level : Nat) : List Json → List (List Char)
  | [] => []
  | j :: rest => prettyChars level j :: prettyItems level rest

def prettyMembers (level : Nat) : List (String × Json) → List (List Char)
  | [] => []
  | (k, j) :: rest =>
    (quoted k ++ ':' :: ' ' :: prettyChars level j) :: prettyMembers level rest

end

/-- The text of a value, indented. -/
def pretty (j : Json) : String := String.ofList (j.prettyChars 0)

end ResourceSchema.Json
