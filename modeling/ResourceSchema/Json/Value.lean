import ResourceSchema.Decimal.Binary64
import ResourceSchema.SortedMap
import ResourceSchema.Word

/-!
# JSON values

An object keeps its members in the order in which they were written, repetitions included.
`Json.canonical` sorts the members of every object by key and keeps the last of those that share
one; two texts that mean the same data have the same canonical value.
-/

namespace ResourceSchema

/-- A JSON number: an integer of at most 64 bits, or a binary64 number. -/
inductive Json.Number where
  | integer (value : Int)
  | float (value : Binary64)
deriving DecidableEq

/-- A JSON value. -/
inductive Json where
  | null
  | bool (value : Bool)
  | number (value : Json.Number)
  | string (value : String)
  | array (items : List Json)
  | object (members : List (String × Json))
deriving Inhabited

namespace Json

/-! ## Equality -/

mutual

/-- Structural equality as a Boolean. -/
def equal : Json → Json → Bool
  | .null, .null => true
  | .bool a, .bool b => a == b
  | .number a, .number b => a == b
  | .string a, .string b => a == b
  | .array a, .array b => equalItems a b
  | .object a, .object b => equalMembers a b
  | _, _ => false

def equalItems : List Json → List Json → Bool
  | [], [] => true
  | a :: as, b :: bs => equal a b && equalItems as bs
  | _, _ => false

def equalMembers : List (String × Json) → List (String × Json) → Bool
  | [], [] => true
  | (k, a) :: as, (l, b) :: bs => k == l && equal a b && equalMembers as bs
  | _, _ => false

end

mutual

theorem eq_of_equal : {a b : Json} → equal a b = true → a = b
  | .null, .null, _ => rfl
  | .bool _, .bool _, h => by simpa [equal] using h
  | .number _, .number _, h => by simpa [equal] using h
  | .string _, .string _, h => by simpa [equal] using h
  | .array a, .array b, h => by rw [items_eq_of_equal (a := a) (b := b) (by simpa [equal] using h)]
  | .object a, .object b, h => by
    rw [members_eq_of_equal (a := a) (b := b) (by simpa [equal] using h)]

theorem items_eq_of_equal : {a b : List Json} → equalItems a b = true → a = b
  | [], [], _ => rfl
  | a :: as, b :: bs, h => by
    simp only [equalItems, Bool.and_eq_true] at h
    rw [eq_of_equal h.1, items_eq_of_equal h.2]

theorem members_eq_of_equal : {a b : List (String × Json)} → equalMembers a b = true → a = b
  | [], [], _ => rfl
  | (k, a) :: as, (l, b) :: bs, h => by
    simp only [equalMembers, Bool.and_eq_true, beq_iff_eq] at h
    rw [h.1.1, eq_of_equal h.1.2, members_eq_of_equal h.2]

end

mutual

theorem equal_self : (a : Json) → equal a a = true
  | .null => rfl
  | .bool _ => by simp [equal]
  | .number _ => by simp [equal]
  | .string _ => by simp [equal]
  | .array a => by simpa [equal] using equalItems_self a
  | .object a => by simpa [equal] using equalMembers_self a

theorem equalItems_self : (a : List Json) → equalItems a a = true
  | [] => rfl
  | a :: as => by simp [equalItems, equal_self a, equalItems_self as]

theorem equalMembers_self : (a : List (String × Json)) → equalMembers a a = true
  | [] => rfl
  | (_, a) :: as => by simp [equalMembers, equal_self a, equalMembers_self as]

end

instance : DecidableEq Json := fun a b =>
  if h : equal a b = true then isTrue (eq_of_equal h)
  else isFalse fun e => h (e ▸ equal_self a)

/-! ## Canonical values -/

mutual

/-- Sorts the members of every object by key; of several members with one key the last stays. -/
def canonical : Json → Json
  | .array items => .array (canonicalItems items)
  | .object members => .object (SortedMap.ofList (canonicalMembers members)).entries
  | j => j

def canonicalItems : List Json → List Json
  | [] => []
  | j :: rest => canonical j :: canonicalItems rest

def canonicalMembers : List (String × Json) → List (String × Json)
  | [] => []
  | (k, j) :: rest => (k, canonical j) :: canonicalMembers rest

end

/-! ## Looking into a value -/

/-- The value is `null`. -/
def isNull : Json → Bool
  | .null => true
  | _ => false

/-- The text of a string. -/
def string? : Json → Option String
  | .string s => some s
  | _ => none

/-- The truth value of a Boolean. -/
def bool? : Json → Option Bool
  | .bool b => some b
  | _ => none

/-- The integer of a number without fraction and exponent. -/
def integer? : Json → Option Int
  | .number (.integer n) => some n
  | _ => none

/-- An integer that is a word of 32 bits without sign. -/
def uint32? (j : Json) : Option UInt32 := j.integer?.bind Word.uint32?

/-- An integer that is a word of 64 bits with sign. -/
def int64? (j : Json) : Option Int64 := j.integer?.bind Word.int64?

/-- A number with the value of an unsigned word. -/
def ofUInt32 (n : UInt32) : Json := .number (.integer n.toNat)

/-- A string, or `null`. -/
def ofString? : Option String → Json
  | none => .null
  | some s => .string s

/-- The canonical object with the entries of a map. -/
def ofMap {α : Type} (f : α → Json) (m : SortedMap α) : Json :=
  .object (m.entries.map fun e => (e.1, f e.2))

end Json

end ResourceSchema
