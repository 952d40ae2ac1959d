import ResourceSchema.Resource.Model

/-!
# Resources as JSON

`Resource.toJson` writes every field of a resource, a named inverse only where there is one.
`Resource.ofJson?` reads that form back and asks for every field.
-/

namespace ResourceSchema

namespace Cardinality

/-- The literal as a JSON string. -/
def toJson (c : Cardinality) : Json := .string c.literal

/-- Reads a literal from a JSON value. -/
def ofJson? (j : Json) : Option Cardinality := j.name?.bind ofLiteral?

end Cardinality

namespace Attribute

/-- The fields of an attribute, in order. -/
def fieldNames : List String := ["type", "nullable", "default"]

/-- Type, nullability and default; no default is `null`. -/
def toJson (a : Attribute) : Json :=
  .object [("type", .string a.type), ("nullable", .bool a.nullable),
    ("default", a.default.getD .null)]

/-- Reads type, nullability and default. -/
def ofJson? (j : Json) : Option Attribute := do
  let m ← j.record? fieldNames 3
  return {
    type := ← Json.required Json.string? m "type"
    nullable := ← Json.required Json.bool? m "nullable"
    default := ← Json.optional some m "default" }

end Attribute

namespace Relationship

/-- The fields of a relationship, in order. -/
def fieldNames : List String := ["resource", "cardinality", "host", "nullable", "inverse"]

/-- Every field; the inverse only if one is named. -/
def toJson (r : Relationship) : Json :=
  .object ([("resource", .string r.resource), ("cardinality", r.cardinality.toJson),
    ("host", .bool r.host), ("nullable", .bool r.nullable)] ++
    match r.inverse with
    | none => []
    | some name => [("inverse", .string name)])

/-- Reads every field; the inverse may be absent. -/
def ofJson? (j : Json) : Option Relationship := do
  let m ← j.record? fieldNames 4
  return {
    resource := ← Json.required Json.string? m "resource"
    cardinality := ← Json.required Cardinality.ofJson? m "cardinality"
    host := ← Json.required Json.bool? m "host"
    nullable := ← Json.required Json.bool? m "nullable"
    inverse := ← Json.optional Json.string? m "inverse" }

end Relationship

namespace Actions

/-- The names of the actions, in order. -/
def fieldNames : List String := ["create", "read_one", "read_many", "update", "delete"]

/-- A truth value for every action. -/
def toJson (a : Actions) : Json :=
  .object [("create", .bool a.create), ("read_one", .bool a.readOne),
    ("read_many", .bool a.readMany), ("update", .bool a.update), ("delete", .bool a.delete)]

/-- Reads a truth value for every action. -/
def ofJson? (j : Json) : Option Actions := do
  let m ← j.record? fieldNames 5
  return {
    create := ← Json.required Json.bool? m "create"
    readOne := ← Json.required Json.bool? m "read_one"
    readMany := ← Json.required Json.bool? m "read_many"
    update := ← Json.required Json.bool? m "update"
    delete := ← Json.required Json.bool? m "delete" }

end Actions

namespace Pagination

/-- The fields of a pagination, in order. -/
def fieldNames : List String := ["enabled", "default_page_size", "default_page_number"]

/-- Every field. -/
def toJson (p : Pagination) : Json :=
  .object [("enabled", .bool p.enabled), ("default_page_size", .ofUInt32 p.defaultPageSize),
    ("default_page_number", .ofUInt32 p.defaultPageNumber)]

/-- Reads every field. -/
def ofJson? (j : Json) : Option Pagination := do
  let m ← j.record? fieldNames 3
  return {
    enabled := ← Json.required Json.bool? m "enabled"
    defaultPageSize := ← Json.required Json.uint32? m "default_page_size"
    defaultPageNumber := ← Json.required Json.uint32? m "default_page_number" }

end Pagination

namespace BuiltIns

/-- The keys as an array. -/
def toJson (s : BuiltIns) : Json := .array (s.toList.map fun b => .string b.key)

/-- Adds the field with a key. -/
def addKey? (key : String) (s : BuiltIns) : Option BuiltIns := (BuiltIn.ofKey? key).map s.add

/-- Reads an array of keys as a set. -/
def ofJson? : Json → Option BuiltIns
  | .array items => items.foldlM (fun s j => j.name?.bind (addKey? · s)) none
  | _ => Option.none

end BuiltIns

namespace Resource

/-- The fields of a resource, in order. -/
def fieldNames : List String :=
  ["name", "plural_form", "attributes", "meta", "relationships", "actions", "pagination",
   "built_in_meta"]

/-- Every field. -/
def toJson (r : Resource) : Json :=
  .object [("name", .string r.name), ("plural_form", .string r.pluralForm),
    ("attributes", .ofMap Attribute.toJson r.attributes),
    ("meta", .ofMap Attribute.toJson r.metaFields),
    ("relationships", .ofMap Relationship.toJson r.relationships),
    ("actions", r.actions.toJson), ("pagination", r.pagination.toJson),
    ("built_in_meta", r.builtIns.toJson)]

/-- Reads every field. -/
def ofJson? (j : Json) : Option Resource := do
  let m ← j.record? fieldNames 8
  return {
    name := ← Json.required Json.string? m "name"
    pluralForm := ← Json.required Json.string? m "plural_form"
    attributes := ← Json.required (Json.map? Attribute.ofJson?) m "attributes"
    metaFields := ← Json.required (Json.map? Attribute.ofJson?) m "meta"
    relationships := ← Json.required (Json.map? Relationship.ofJson?) m "relationships"
    actions := ← Json.required Actions.ofJson? m "actions"
    pagination := ← Json.required Pagination.ofJson? m "pagination"
    builtIns := ← Json.required BuiltIns.ofJson? m "built_in_meta" }

end Resource

end ResourceSchema
