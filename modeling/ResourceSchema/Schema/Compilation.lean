import ResourceSchema.Description.Completion
import ResourceSchema.Relationship.Inverse
import ResourceSchema.Schema.Error

/-!
# From descriptions to resources

`resourcesOf` checks a set of descriptions, fills in what they leave out and adds the missing
inverse relationships. `CompileError` says what can go wrong afterwards, when SQL is made.
-/

namespace ResourceSchema

/-- Accepts a set of descriptions without issues. -/
def validate (ds : List Description) : Except SchemaError Unit :=
  if (issues ds).isEmpty then .ok () else .error (.invalid (issues ds))

/-- The resources of a valid set of descriptions, each relationship visible from both ends. -/
def resourcesOf (ds : List Description) : Except SchemaError (List Resource) := do
  validate ds
  return addInverses (ds.map Description.complete)

/-- Why no SQL is made. -/
inductive CompileError where
  | schema (error : SchemaError)
  | unknownResource (name : String)
  | unknownField (resource field : String)
  | actionDisabled (action : Action) (resource : String)
  | missingId (action : Action) (resource : String)
  | duplicateTable (table : String)
  | duplicateColumn (table column : String)
  | invalidType (resource field type : String)
deriving DecidableEq, Repr

/-- An error in words. -/
def CompileError.message : CompileError → String
  | schema error => error.message
  | unknownResource name => "Unknown resource '" ++ name ++ "'"
  | unknownField resource field =>
    "Resource '" ++ resource ++ "' has no field '" ++ field ++ "'"
  | actionDisabled action resource =>
    "Action '" ++ action.name ++ "' is disabled on resource '" ++ resource ++ "'"
  | missingId action resource =>
    "Action '" ++ action.name ++ "' on resource '" ++ resource ++ "' requires an id"
  | duplicateTable table => "Table '" ++ table ++ "' would be created twice"
  | duplicateColumn table column =>
    "Table '" ++ table ++ "' would have two columns named '" ++ column ++ "'"
  | invalidType resource field type =>
    "Field '" ++ resource ++ "." ++ field ++ "' has unsupported type literal '" ++ type ++ "'"

end ResourceSchema
