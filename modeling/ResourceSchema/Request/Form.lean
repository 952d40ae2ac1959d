import ResourceSchema.Request.Page

/-!
# Requests on the rows of a resource
-/

namespace ResourceSchema

/-- What is read: one row or a list, some fields or all, and which page of a list. -/
structure ReadRequest where
  id : Option Int64 := none
  fields : Option NameSet := none
  page : Option Page := none
deriving DecidableEq

namespace ReadRequest

/-- One row is read if there is an id, and a list otherwise. -/
def action (r : ReadRequest) : Action := if r.id.isSome then .readOne else .readMany

/-- The field is asked for. -/
def wants (r : ReadRequest) (name : String) : Bool := r.fields.all (·.contains name)

/-- Reads an array of names as a set. -/
def namesOfJson? : Json → Option NameSet
  | .array items => (items.mapM Json.string?).map NameSet.ofNames
  | _ => none

/-- Reads a request; every field may be left out. -/
def ofJson? (j : Json) : Option ReadRequest := do
  let m ← j.record? ["id", "fields", "page"] 0
  return {
    id := ← Json.optional Json.int64? m "id"
    fields := ← Json.optional namesOfJson? m "fields"
    page := ← Json.optional Page.ofJson? m "page" }

end ReadRequest

/-- What is written: values by the keys of fields and relationships, and to which row. -/
structure WriteRequest where
  id : Option Int64 := none
  values : SortedMap Json := .empty
deriving DecidableEq

/-- Reads a request; every field may be left out. -/
def WriteRequest.ofJson? (j : Json) : Option WriteRequest := do
  let m ← j.record? ["id", "values"] 0
  return {
    id := ← Json.optional Json.int64? m "id"
    values := ← Json.defaulted .empty (Json.map? some) m "values" }

/-- A request on a resource. -/
inductive Request where
  | read (resource : String) (request : ReadRequest)
  | create (resource : String) (request : WriteRequest)
  | update (resource : String) (request : WriteRequest)
  | delete (resource : String) (id : Option Int64)

end ResourceSchema
