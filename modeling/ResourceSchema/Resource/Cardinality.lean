/-!
# How many rows a relationship joins
-/

namespace ResourceSchema

/-- How many rows of the declaring resource belong to how many of the related one. -/
inductive Cardinality where
  | oneToOne
  | oneToMany
  | manyToOne
  | manyToMany
deriving DecidableEq, Repr

namespace Cardinality

/-- The cardinality seen from the other end. -/
def inverse : Cardinality → Cardinality
  | oneToOne => oneToOne
  | oneToMany => manyToOne
  | manyToOne => oneToMany
  | manyToMany => manyToMany

@[simp] theorem inverse_inverse (c : Cardinality) : c.inverse.inverse = c := by
  cases c <;> rfl

/-- A row may be related to several rows. -/
def isToMany : Cardinality → Bool
  | oneToMany | manyToMany => true
  | oneToOne | manyToOne => false

/-- The literal of a cardinality in descriptions. -/
def literal : Cardinality → String
  | oneToOne => "one-to-one"
  | oneToMany => "one-to-many"
  | manyToOne => "many-to-one"
  | manyToMany => "many-to-many"

/-- Reads a literal. -/
def ofLiteral? (text : String) : Option Cardinality :=
  [oneToOne, oneToMany, manyToOne, manyToMany].find? (·.literal == text)

@[simp] theorem ofLiteral?_literal (c : Cardinality) : ofLiteral? c.literal = some c := by
  cases c <;> decide

end Cardinality

end ResourceSchema
