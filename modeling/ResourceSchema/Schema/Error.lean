import ResourceSchema.Description.Issue

/-!
# Why a set of descriptions has no schema
-/

namespace ResourceSchema

/-- Why a relationship cannot be linked to the other end. -/
inductive UnresolvedReason where
  | unknownResource
  | badInverse (inverse : String) (cardinality : Cardinality)
  | noCounterpart (cardinality : Cardinality)
  | ambiguous (first second : String)
deriving DecidableEq, Repr

/-- A reason in words. -/
def UnresolvedReason.message : UnresolvedReason → String
  | unknownResource => "unknown resource"
  | badInverse inverse cardinality =>
    "inverse '" ++ inverse ++ "' is not a host-side " ++ cardinality.literal ++
      " relationship back to this resource"
  | noCounterpart cardinality =>
    "no host-side " ++ cardinality.literal ++ " relationship back to this resource"
  | ambiguous first second =>
    "ambiguous counterpart, '" ++ first ++ "' and '" ++ second ++
      "' both point back; name one with 'inverse'"

/-- Why a set of descriptions has no schema. -/
inductive SchemaError where
  | invalid (issues : List Issue)
  /-- The resources that could not be ordered. -/
  | cyclic (resources : List String)
  | unresolved (resource relationship target : String) (reason : UnresolvedReason)
deriving DecidableEq, Repr

/-- An error in words. -/
def SchemaError.message : SchemaError → String
  | invalid issues =>
    "Invalid resource descriptions:\n" ++
      "\n".intercalate (issues.map fun i => "  - " ++ i.render)
  | cyclic resources =>
    "Cyclic host relationships between resources: " ++ ", ".intercalate resources
  | unresolved resource relationship target reason =>
    "Relationship '" ++ resource ++ "." ++ relationship ++ "' to '" ++ target ++
      "' cannot be resolved: " ++ reason.message

end ResourceSchema
