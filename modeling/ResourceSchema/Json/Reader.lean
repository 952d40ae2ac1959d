import ResourceSchema.Json.Scanner

/-!
# Reading JSON text: values, containers and records

`Reader.value` reads any value. The other readers take a text that has to have a given shape and
stop as soon as it cannot: at a value of another kind, at a member given twice, at the end of an
object without a required member. Members that a record does not know are passed over, and there
neither depth, single surrogates nor the size of a number matter.
-/

namespace ResourceSchema.Json.Reader

universe u

variable {σ : Type} {α : Type}

/-! ## Containers -/

/-- Inside an array, whether an item follows; passes over the comma before it. -/
def moreItems (first : Bool) : Reader Bool := do
  match ← peekToken with
  | none => throw .truncated
  | some ']' => return false
  | some c =>
    if first then return true
    else if c = ',' then do
      advance
      match ← peekToken with
      | none => throw .truncated
      | some ']' => throw .malformed
      | some _ => return true
    else throw .malformed

/-- Inside an object, whether a member follows; passes over the comma before it. -/
def moreMembers (first : Bool) : Reader Bool := do
  match ← peekToken with
  | none => throw .truncated
  | some '\x7d' => return false
  | some c =>
    if first then
      if c = '"' then return true else throw .malformed
    else if c = ',' then do
      advance
      match ← peekToken with
      | none => throw .truncated
      | some '"' => return true
      | some _ => throw .malformed
    else throw .malformed

/-- The colon between the key and the value of a member. -/
def colon : Reader Unit := do
  match ← peekToken with
  | none => throw .truncated
  | some ':' => advance
  | some _ => throw .malformed

/-- The items of an array and its closing bracket. Every item takes a character. -/
def itemsLoop (item : σ → Reader σ) : Nat → Bool → σ → Reader σ
  | 0, _, _ => throw .truncated
  | fuel + 1, first, acc => do
    if ← moreItems first then itemsLoop item fuel false (← item acc)
    else do advance; return acc

/-- The members of an object and its closing brace. Every member takes a character. -/
def membersLoop (member : String → σ → Reader σ) : Nat → Bool → σ → Reader σ
  | 0, _, _ => throw .truncated
  | fuel + 1, first, acc => do
    if ← moreMembers first then do
      let key ← string
      membersLoop member fuel false (← member key acc)
    else do advance; return acc

/-- The rest of an array after its opening bracket, read item by item. -/
def items (item : σ → Reader σ) (start : σ) : Reader σ := do
  itemsLoop item ((← get).length + 1) true start

/-- The rest of an object after its opening brace. `member` reads from the colon on. -/
def members (member : String → σ → Reader σ) (start : σ) : Reader σ := do
  membersLoop member ((← get).length + 1) true start

/-! ## Values -/

/-- Any value in which at most `room` containers are nested. -/
def value (room : Nat) : Reader Json := do
  match ← peekToken with
  | none => throw .truncated
  | some 'n' => do expect ['n', 'u', 'l', 'l']; return .null
  | some 't' => do expect ['t', 'r', 'u', 'e']; return .bool true
  | some 'f' => do expect ['f', 'a', 'l', 's', 'e']; return .bool false
  | some '"' => return .string (← string)
  | some '[' =>
    match room with
    | 0 => throw .malformed
    | room + 1 => do
      advance
      let taken ← items (fun taken => return (← value room) :: taken) []
      return .array taken.reverse
  | some '\x7b' =>
    match room with
    | 0 => throw .malformed
    | room + 1 => do
      advance
      let taken ← members (fun key taken => do
        colon
        return (key, ← value room) :: taken) []
      return .object taken.reverse
  | some c =>
    if c = '-' ∨ Decimal.isDigit c then return .number (← number) else throw .malformed

/-- How many containers a document may nest. -/
def depth : Nat := 127

/-- A value of the wrong kind. One that is not a container is read first, so that a fault inside
it wins. -/
def wrongKind : Reader α := do
  match ← peekToken with
  | some '[' | some '\x7b' => throw .mismatched
  | _ => do
    discard (value 0)
    throw .mismatched

/-! ## Passing over a value -/

/-- Where a walk through a value stands. -/
inductive Walk where
  | beforeValue
  | beforeKey
  | afterValue

/-- Passes over a value of any depth. The brackets still open are kept in a list, which says for
each whether it is that of an object. Every step but the last takes a character. -/
def skipLoop : Nat → Walk → List Bool → Reader Unit
  | 0, _, _ => throw .truncated
  | fuel + 1, .beforeValue, opened => do
    match ← peekToken with
    | none => throw .truncated
    | some 'n' => do expect ['n', 'u', 'l', 'l']; skipLoop fuel .afterValue opened
    | some 't' => do expect ['t', 'r', 'u', 'e']; skipLoop fuel .afterValue opened
    | some 'f' => do expect ['f', 'a', 'l', 's', 'e']; skipLoop fuel .afterValue opened
    | some '"' => do skipString; skipLoop fuel .afterValue opened
    | some '[' => do
      advance
      if (← peekToken) = some ']' then do advance; skipLoop fuel .afterValue opened
      else skipLoop fuel .beforeValue (false :: opened)
    | some '\x7b' => do
      advance
      if (← peekToken) = some '\x7d' then do advance; skipLoop fuel .afterValue opened
      else skipLoop fuel .beforeKey (true :: opened)
    | some c =>
      if c = '-' ∨ Decimal.isDigit c then do
        discard (numberText .malformed)
        skipLoop fuel .afterValue opened
      else throw .malformed
  | fuel + 1, .beforeKey, opened => do
    match ← peekToken with
    | none => throw .truncated
    | some '"' => do
      skipString
      colon
      skipLoop fuel .beforeValue opened
    | some _ => throw .malformed
  | _ + 1, .afterValue, [] => return
  | fuel + 1, .afterValue, inObject :: opened => do
    match ← peekToken with
    | none => throw .truncated
    | some ',' => do
      advance
      skipLoop fuel (if inObject then .beforeKey else .beforeValue) (inObject :: opened)
    | some c =>
      if c = (if inObject then '\x7d' else ']') then do
        advance
        skipLoop fuel .afterValue opened
      else throw .malformed

/-- Passes over a value. -/
def skip : Reader Unit := do
  skipLoop ((← get).length + 1) .beforeValue []

/-! ## Values of a given shape -/

/-- A string. -/
def text : Reader String := do
  match ← peekToken with
  | none => throw .truncated
  | some '"' => string
  | some _ => wrongKind

/-- A truth value. -/
def truth : Reader Bool := do
  match ← peekToken with
  | none => throw .truncated
  | some 't' => do expect ['t', 'r', 'u', 'e']; return true
  | some 'f' => do expect ['f', 'a', 'l', 's', 'e']; return false
  | some _ => wrongKind

/-- `null` or a value. -/
def optional (inner : Reader α) : Reader (Option α) := do
  match ← peekToken with
  | some 'n' => do expect ['n', 'u', 'l', 'l']; return none
  | _ => some <$> inner

/-- Any value, which `decode` then has to accept. -/
def decoded (room : Nat) (decode : Json → Option α) : Reader α := do
  match decode (← value room) with
  | some a => return a
  | none => throw .mismatched

/-- An object read as a map. The last of several values for a key stays. -/
def mapOf (room : Nat) (decode : Json → Option α) : Reader (SortedMap α) := do
  match ← peekToken with
  | none => throw .truncated
  | some '\x7b' =>
    if room = 0 then throw .malformed
    advance
    members (fun key m => do
      colon
      return m.insert key (← decoded (room - 1) decode)) .empty
  | some _ => wrongKind

/-- The first key of an object. Nothing but a string may stand there. -/
def firstKey : Reader String := do
  match ← peekToken with
  | none => throw .truncated
  | some '"' => string
  | some _ => throw .malformed

/-- An array of names from a fixed list, each given as a string or as an object with that name as
its only key and the value `null`. -/
def setOf (room : Nat) (add : String → σ → Option σ) (start : σ) : Reader σ := do
  match ← peekToken with
  | none => throw .truncated
  | some '[' =>
    if room = 0 then throw .malformed
    advance
    items (fun acc => do
      match ← peekToken with
      | none => throw .truncated
      | some '"' => named (← string) acc
      | some '\x7b' => do
        if room = 1 then throw .malformed
        advance
        let acc ← named (← firstKey) acc
        colon
        if (← peekToken) = some 'n' then expect ['n', 'u', 'l', 'l'] else wrongKind
        match ← peekToken with
        | none => throw .truncated
        | some '\x7d' => do advance; return acc
        | some _ => throw .malformed
      | some _ => throw .malformed) start
  | some _ => wrongKind
where
  named (name : String) (acc : σ) : Reader σ :=
    match add name acc with
    | some acc => return acc
    | none => throw .mismatched

/-! ## Records -/

/-- A field of a record, and how its value is read into the record. -/
structure Field (σ : Type) where
  name : String
  required : Bool
  read : σ → Reader σ

/-- The rest of a record given as an object. -/
def recordMembers (fields : List (Field σ)) (start : σ) : Reader σ := do
  let (record, seen) ← members (fun key (record, seen) => do
    match fields.find? (·.name == key) with
    | some field =>
      if seen.contains key then throw .mismatched
      colon
      return (← field.read record, key :: seen)
    | none =>
      colon
      skip
      return (record, seen)) (start, ([] : List String))
  if fields.any fun field => field.required && !seen.contains field.name then throw .mismatched
  return record

/-- The rest of a record given as the array of its fields in order; optional fields may be missing
at the end. -/
def recordItems : List (Field σ) → Bool → σ → Reader σ
  | [], _, record => do
    match ← peekToken with
    | none => throw .truncated
    | some ']' => do advance; return record
    | some _ => throw .malformed
  | field :: rest, first, record => do
    if ← moreItems first then recordItems rest false (← field.read record)
    else if (field :: rest).any (·.required) then throw .mismatched
    else do advance; return record

/-- A record. -/
def record (room : Nat) (fields : List (Field σ)) (start : σ) : Reader σ := do
  match ← peekToken with
  | none => throw .truncated
  | some '\x7b' =>
    if room = 0 then throw .malformed
    advance
    recordMembers fields start
  | some '[' =>
    if room = 0 then throw .malformed
    advance
    recordItems fields true start
  | some _ => wrongKind

end ResourceSchema.Json.Reader

namespace ResourceSchema.Json

/-- Reads a whole text; after the value only blanks may follow. -/
def readAll {α : Type} (reader : Reader α) (text : String) : Except Fault α := do
  let (a, rest) ← reader.run text.toList
  if (rest.dropWhile Reader.isBlank).isEmpty then return a else throw .malformed

/-- Reads a value from a text. -/
def parse (text : String) : Except Fault Json := readAll (Reader.value Reader.depth) text

end ResourceSchema.Json
