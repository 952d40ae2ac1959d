import ResourceSchema.Text.DecimalDigit

/-!
# Column types that may stand in DDL as they are

A type literal is a list of words with single blanks between them, an optional modifier of one or
two numbers in parentheses, more words, and any number of `[]`. An automaton over the characters
decides it.
-/

namespace ResourceSchema.TypeLiteral

/-- A letter of a word: `a` to `z` in either case, or one of the two other characters that are
equal to such a letter but for case. -/
def isLetter (c : Char) : Bool := c.isLower || c.isUpper || c = '\u017f' || c = '\u212a'

/-- A character of a word after the first. -/
def isWordChar (c : Char) : Bool := isLetter c || c.isDigit || c = '_'

/-- How far a type literal has been read. `modified` says whether the modifier is behind. -/
inductive State where
  | start
  /-- Inside a word. -/
  | word (modified : Bool)
  /-- After the blank between two words, or before the modifier. -/
  | gap (modified : Bool)
  /-- After the opening parenthesis. -/
  | opened
  /-- Inside the first number. -/
  | first
  /-- After the blank before the comma. -/
  | beforeComma
  /-- After the comma. -/
  | afterComma
  /-- After the blank behind the comma. -/
  | beforeSecond
  /-- Inside the second number. -/
  | second
  /-- After the closing parenthesis. -/
  | closed
  /-- After an opening bracket. -/
  | bracket
  /-- After a closing bracket. -/
  | array
deriving DecidableEq, Repr

/-- The state after one more character, if there is one. -/
def State.next? : State → Char → Option State
  | start, c => if isLetter c then some (word false) else none
  | word modified, c =>
    if isWordChar c then some (word modified)
    else if c = ' ' then some (gap modified)
    else if c = '(' ∧ modified = false then some opened
    else if c = '[' then some bracket
    else none
  | gap modified, c =>
    if isLetter c then some (word modified)
    else if c = '(' ∧ modified = false then some opened
    else none
  | opened, c => if Text.isDecimalDigit c then some first else none
  | first, c =>
    if Text.isDecimalDigit c then some first
    else if c = ' ' then some beforeComma
    else if c = ',' then some afterComma
    else if c = ')' then some closed
    else none
  | beforeComma, c => if c = ',' then some afterComma else none
  | afterComma, c =>
    if c = ' ' then some beforeSecond
    else if Text.isDecimalDigit c then some second
    else none
  | beforeSecond, c => if Text.isDecimalDigit c then some second else none
  | second, c =>
    if Text.isDecimalDigit c then some second
    else if c = ')' then some closed
    else none
  | closed, c =>
    if c = ' ' then some (gap true)
    else if c = '[' then some bracket
    else none
  | bracket, c => if c = ']' then some array else none
  | array, c => if c = '[' then some bracket else none

/-- A type literal may end here. -/
def State.isFinal : State → Bool
  | word _ | closed | array => true
  | _ => false

/-- The characters lead from a state to a final one. -/
def accepts : State → List Char → Bool
  | s, [] => s.isFinal
  | s, c :: rest =>
    match s.next? c with
    | some t => accepts t rest
    | none => false

end ResourceSchema.TypeLiteral

namespace ResourceSchema

/-- The text may stand in DDL as the type of a column. -/
def isTypeLiteral (text : String) : Bool := TypeLiteral.accepts .start text.toList

/-- The type as it stands in DDL, if it may stand there. -/
def typeLiteral? (text : String) : Option String := if isTypeLiteral text then some text else none

example : isTypeLiteral "timestamp (3) with time zone[][]" = true := by decide +kernel

example : isTypeLiteral "numeric(10 , 2) (3)" = false := by decide +kernel

end ResourceSchema
