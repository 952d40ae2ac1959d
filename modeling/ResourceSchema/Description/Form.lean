import ResourceSchema.Resource.Serialized

/-!
# Descriptions of resources

A `Description` is what an author writes: everything but the name may be left out, and fields,
relationships and pagination have short forms. `Description.ofJson?` reads one from a JSON value;
members that it does not know do not matter.
-/

namespace ResourceSchema

/-- An attribute or meta field: its type alone, or with nullability and default. -/
inductive FieldForm where
  | short (type : String)
  | full (type : String) (nullable : Option Bool) (default : Option Json)
deriving DecidableEq

namespace FieldForm

/-- The type of either form. -/
def type : FieldForm → String
  | short type | full type _ _ => type

/-- Reads either form. -/
def ofJson? : Json → Option FieldForm
  | .string type => some (short type)
  | j => do
    let m ← j.objectRecord? Attribute.fieldNames
    return full (← Json.required Json.string? m "type") (← Json.optional Json.bool? m "nullable")
      (← Json.optional some m "default")

/-- Puts the default into canonical form. -/
def canonical : FieldForm → FieldForm
  | short type => short type
  | full type nullable default => full type nullable (default.map Json.canonical)

end FieldForm

/-- A relationship: its cardinality alone, or with any of the other fields. The related resource
is the one named like the relationship unless another is given. -/
inductive RelationshipForm where
  | short (cardinality : Cardinality)
  | full (resource : Option String) (cardinality : Cardinality) (host nullable : Option Bool)
      (inverse : Option String)
deriving DecidableEq

namespace RelationshipForm

/-- A full form with a resource and a side. -/
def between (resource : String) (cardinality : Cardinality) (host : Bool) : RelationshipForm :=
  full (some resource) cardinality (some host) none none

/-- Names the host relationship through which this one is read; the form becomes a full one. -/
def inverseOf (name : String) : RelationshipForm → RelationshipForm
  | short cardinality => full none cardinality none none (some name)
  | full resource cardinality host nullable _ =>
    full resource cardinality host nullable (some name)

/-- The related resource that is given. -/
def target? : RelationshipForm → Option String
  | short _ => none
  | full resource _ _ _ _ => resource

/-- The inverse that is named. -/
def inverse? : RelationshipForm → Option String
  | short _ => none
  | full _ _ _ _ inverse => inverse

/-- Reads either form. An object that reads as a cardinality is one. -/
def ofJson? (j : Json) : Option RelationshipForm :=
  match Cardinality.ofJson? j with
  | some cardinality => some (short cardinality)
  | none => do
    let m ← j.objectRecord? Relationship.fieldNames
    return full (← Json.optional Json.string? m "resource")
      (← Json.required Cardinality.ofJson? m "cardinality")
      (← Json.optional Json.bool? m "host") (← Json.optional Json.bool? m "nullable")
      (← Json.optional Json.string? m "inverse")

end RelationshipForm

/-- A pagination: a switch, or any of its settings. -/
inductive PaginationForm where
  | short (enabled : Bool)
  | full (enabled : Option Bool) (defaultPageSize defaultPageNumber : Option UInt32)
deriving DecidableEq

namespace PaginationForm

/-- Reads either form. -/
def ofJson? : Json → Option PaginationForm
  | .bool enabled => some (short enabled)
  | j => do
    let m ← j.objectRecord? Pagination.fieldNames
    return full (← Json.optional Json.bool? m "enabled")
      (← Json.optional Json.uint32? m "default_page_size")
      (← Json.optional Json.uint32? m "default_page_number")

end PaginationForm

/-- The actions that a description switches on or off. -/
structure ActionsForm where
  create : Option Bool := none
  readOne : Option Bool := none
  readMany : Option Bool := none
  update : Option Bool := none
  delete : Option Bool := none
deriving DecidableEq

/-- Reads the switches. -/
def ActionsForm.ofJson? (j : Json) : Option ActionsForm := do
  let m ← j.record? Actions.fieldNames 0
  return {
    create := ← Json.optional Json.bool? m "create"
    readOne := ← Json.optional Json.bool? m "read_one"
    readMany := ← Json.optional Json.bool? m "read_many"
    update := ← Json.optional Json.bool? m "update"
    delete := ← Json.optional Json.bool? m "delete" }

/-- What an author writes about a resource. -/
structure Description where
  name : String
  pluralForm : Option String := none
  attributes : SortedMap FieldForm := .empty
  metaFields : SortedMap FieldForm := .empty
  relationships : SortedMap RelationshipForm := .empty
  actions : Option ActionsForm := none
  pagination : Option PaginationForm := none
  builtIns : Option BuiltIns := none
deriving DecidableEq

namespace Description

/-- A description with a name only. -/
def named (name : String) : Description := { name }

/-- Adds an attribute with a type. -/
def withAttribute (d : Description) (key type : String) : Description :=
  { d with attributes := d.attributes.insert key (.short type) }

/-- Adds a relationship. -/
def withRelationship (d : Description) (key : String) (form : RelationshipForm) : Description :=
  { d with relationships := d.relationships.insert key form }

/-- Reads a description. -/
def ofJson? (j : Json) : Option Description := do
  let m ← j.record? Resource.fieldNames 1
  return {
    name := ← Json.required Json.string? m "name"
    pluralForm := ← Json.optional Json.string? m "plural_form"
    attributes := ← Json.defaulted .empty (Json.map? FieldForm.ofJson?) m "attributes"
    metaFields := ← Json.defaulted .empty (Json.map? FieldForm.ofJson?) m "meta"
    relationships := ← Json.defaulted .empty (Json.map? RelationshipForm.ofJson?) m "relationships"
    actions := ← Json.optional ActionsForm.ofJson? m "actions"
    pagination := ← Json.optional PaginationForm.ofJson? m "pagination"
    builtIns := ← Json.optional BuiltIns.ofJson? m "built_in_meta" }

end Description

end ResourceSchema
