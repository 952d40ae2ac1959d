import ResourceSchema.Json.Value

/-!
# Values bound to placeholders
-/

namespace ResourceSchema.Sql

/-- A value that a statement is run with. -/
inductive Value where
  | null
  | bool (value : Bool)
  | int (value : Int64)
  | float (value : Binary64)
  | text (value : String)
  | json (value : Json)
deriving DecidableEq

namespace Value

/-- A number as an integer if it is one of 64 bits with sign, else as a float. -/
def ofNumber : Json.Number → Value
  | .integer n =>
    match Word.int64? n with
    | some w => int w
    | none =>
      match Binary64.ofQuotient? (n < 0) n.natAbs 1 with
      | some x => float x
      | none => json (.number (.integer n))
  | .float x => float x

/-- A JSON value; arrays and objects stay JSON. -/
def ofJson : Json → Value
  | .null => null
  | .bool b => bool b
  | .number n => ofNumber n
  | .string s => text s
  | .array items => json (.array items)
  | .object members => json (.object members)

end Value

end ResourceSchema.Sql
