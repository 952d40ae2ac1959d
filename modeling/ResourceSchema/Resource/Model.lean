import ResourceSchema.Json.Record
import ResourceSchema.Resource.Cardinality

/-!
# Resources

A `Resource` has every default filled in: typed attributes and meta fields, typed relationships to
other resources, the actions it allows, its pagination and the meta fields that the database
maintains for it.
-/

namespace ResourceSchema

/-- A typed column, of an attribute or a meta field. -/
structure Attribute where
  /-- The type as it stands in DDL. -/
  type : String
  nullable : Bool := true
  default : Option Json := none
deriving DecidableEq

namespace Attribute

/-- The column refuses NULL. -/
def notNull (a : Attribute) : Attribute := { a with nullable := false }

/-- Sets the default; `null` is none. -/
def defaultValue (a : Attribute) (value : Json) : Attribute :=
  { a with default := if value.isNull then none else some value }

end Attribute

/-- A link from the declaring resource to another one. -/
structure Relationship where
  /-- The name of the related resource. -/
  resource : String
  /-- The cardinality seen from the declaring resource. -/
  cardinality : Cardinality
  /-- The declaring resource stores the key, or names the link table of a many-to-many
  relationship. The other end is a guest. -/
  host : Bool := true
  nullable : Bool := true
  /-- On a guest, the host relationship of the related resource that stores the key. -/
  inverse : Option String := none
deriving DecidableEq, Repr

namespace Relationship

/-- The declaring resource does not store the key. -/
def guest (r : Relationship) : Relationship := { r with host := false }

/-- The key column refuses NULL. -/
def notNull (r : Relationship) : Relationship := { r with nullable := false }

/-- Names the host relationship through which a guest is read. -/
def inverseOf (r : Relationship) (name : String) : Relationship := { r with inverse := some name }

/-- A host relationship to `resource` with the cardinality `cardinality`. -/
def hostsFor (r : Relationship) (resource : String) (cardinality : Cardinality) : Bool :=
  r.host && r.resource == resource && r.cardinality == cardinality

end Relationship

/-- What can be done with the rows of a resource. -/
inductive Action where
  | create
  | readOne
  | readMany
  | update
  | delete
deriving DecidableEq, Repr

/-- The name of an action. -/
def Action.name : Action → String
  | create => "create"
  | readOne => "read_one"
  | readMany => "read_many"
  | update => "update"
  | delete => "delete"

/-- Which actions a resource allows. -/
structure Actions where
  create : Bool := true
  readOne : Bool := true
  readMany : Bool := true
  update : Bool := true
  delete : Bool := true
deriving DecidableEq, Repr

/-- The action is allowed. -/
def Actions.allow (a : Actions) : Action → Bool
  | .create => a.create
  | .readOne => a.readOne
  | .readMany => a.readMany
  | .update => a.update
  | .delete => a.delete

/-- The size of a page unless another is given. -/
def Pagination.standardSize : UInt32 := 10

/-- The page that comes first unless another is given. -/
def Pagination.standardNumber : UInt32 := 1

/-- How the rows of a resource are listed in pages. -/
structure Pagination where
  enabled : Bool := true
  defaultPageSize : UInt32 := Pagination.standardSize
  defaultPageNumber : UInt32 := Pagination.standardNumber
deriving DecidableEq, Repr

/-- A meta field that the database maintains. -/
inductive BuiltIn where
  | createdAt
  | updatedAt
deriving DecidableEq, Repr

namespace BuiltIn

/-- The key of the meta field. -/
def key : BuiltIn → String
  | createdAt => "created_at"
  | updatedAt => "updated_at"

/-- Set on insertion, or refreshed by the trigger on every update. -/
def toAttribute : BuiltIn → Attribute
  | createdAt => ⟨"timestamptz", false, some (.string "now()")⟩
  | updatedAt => ⟨"timestamptz", true, none⟩

/-- The built-in field with a key. -/
def ofKey? (key : String) : Option BuiltIn := [createdAt, updatedAt].find? (·.key == key)

end BuiltIn

/-- A set of built-in meta fields. -/
structure BuiltIns where
  createdAt : Bool
  updatedAt : Bool
deriving DecidableEq, Repr

namespace BuiltIns

/-- Both fields. -/
def all : BuiltIns := ⟨true, true⟩

/-- No field. -/
def none : BuiltIns := ⟨false, false⟩

/-- Adds a field. -/
def add (s : BuiltIns) : BuiltIn → BuiltIns
  | .createdAt => { s with createdAt := true }
  | .updatedAt => { s with updatedAt := true }

/-- The fields in order. -/
def toList (s : BuiltIns) : List BuiltIn :=
  (if s.createdAt then [.createdAt] else []) ++ (if s.updatedAt then [.updatedAt] else [])

end BuiltIns

/-- A resource with every default filled in. -/
structure Resource where
  /-- The name in the singular, also the name of the table. -/
  name : String
  pluralForm : String
  attributes : SortedMap Attribute
  /-- Fields whose columns carry the meta prefix. -/
  metaFields : SortedMap Attribute
  relationships : SortedMap Relationship
  actions : Actions
  pagination : Pagination
  builtIns : BuiltIns
deriving DecidableEq

end ResourceSchema
