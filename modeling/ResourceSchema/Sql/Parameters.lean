import ResourceSchema.Decimal.Digits
import ResourceSchema.Sql.Value

/-!
# Parameters of a statement

Values are bound by name while a statement is written. A name keeps its first position and its
first value, however often it is bound.
-/

namespace ResourceSchema.Sql

/-- The place of a parameter in a statement, counted from one. -/
structure Placeholder where
  position : Nat
deriving DecidableEq, Repr

/-- A placeholder as it stands in SQL text. -/
def Placeholder.render (p : Placeholder) : String := "$" ++ Decimal.ofNat p.position

/-- A value and the name it is bound under. -/
structure Parameter where
  name : String
  value : Value
deriving DecidableEq

/-- The parameters bound so far, in the order of their placeholders. -/
structure Parameters where
  list : List Parameter
deriving DecidableEq

namespace Parameters

/-- No parameters. -/
def empty : Parameters := ⟨[]⟩

/-- The position of a name, counted from zero. -/
def position? (ps : Parameters) (name : String) : Option Nat :=
  ps.list.findIdx? (·.name == name)

/-- Binds a value to a name, and says where it stands. -/
def bind (ps : Parameters) (name : String) (value : Value) : Placeholder × Parameters :=
  match ps.position? name with
  | some i => (⟨i + 1⟩, ps)
  | none => (⟨ps.list.length + 1⟩, ⟨ps.list ++ [⟨name, value⟩]⟩)

/-- The value bound to a name. -/
def value? (ps : Parameters) (name : String) : Option Value :=
  (ps.list.find? (·.name == name)).map Parameter.value

/-- The values in the order of their placeholders. -/
def values (ps : Parameters) : List Value := ps.list.map Parameter.value

end Parameters

/-- SQL text with the parameters it is run with. -/
structure Statement where
  text : String
  parameters : Parameters
deriving DecidableEq

end ResourceSchema.Sql
