import ResourceSchema.Json.Value

/-!
# Records and maps inside JSON values

A record is given as an object, whose unknown members do not matter, or as the array of its fields
in order. Either way it becomes a list of members in which fields are looked up by name.
-/

namespace ResourceSchema.Json

variable {α : Type}

/-- The members of a record given as an object in which no field is given twice. -/
def objectRecord? (fields : List String) : Json → Option (List (String × Json))
  | .object members =>
    if fields.all fun f => Nat.ble (members.countP (·.1 == f)) 1 then some members else none
  | _ => none

/-- The members of a record given as such an object, or as an array with the first `least` of its
fields at least. -/
def record? (fields : List String) (least : Nat) : Json → Option (List (String × Json))
  | .array items =>
    if least ≤ items.length ∧ items.length ≤ fields.length then some (fields.zip items) else none
  | j => objectRecord? fields j

/-- The value of a field that has to be there. -/
def required (decode : Json → Option α) (members : List (String × Json)) (field : String) :
    Option α :=
  (members.lookup field).bind decode

/-- The value of a field that may be absent or `null`. -/
def optional (decode : Json → Option α) (members : List (String × Json)) (field : String) :
    Option (Option α) :=
  match members.lookup field with
  | none | some .null => some none
  | some j => (decode j).map some

/-- The value of a field that has a default when it is absent, but not when it is `null`. -/
def defaulted (fallback : α) (decode : Json → Option α) (members : List (String × Json))
    (field : String) : Option α :=
  match members.lookup field with
  | none => some fallback
  | some j => decode j

/-- An object as a map. The last of several values for a key stays. -/
def map? (decode : Json → Option α) : Json → Option (SortedMap α)
  | .object members => do
    let entries ← members.mapM fun e => do return (e.1, ← decode e.2)
    return SortedMap.ofList entries
  | _ => none

/-- A name given as a string, or as an object with it as the only key and the value `null`. -/
def name? : Json → Option String
  | .string s => some s
  | .object [(s, .null)] => some s
  | _ => none

end ResourceSchema.Json
