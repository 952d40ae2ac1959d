import ResourceSchema.Relationship.Storage

/-!
# Resources with their relationships linked

A `Definition` is a resource whose relationships know where their keys are stored. A
`DefinitionSet` holds the definitions of a set of resources; of several with one name, look-ups
find the last.
-/

namespace ResourceSchema

/-- A relationship whose storage is known. -/
structure Link where
  name : String
  relationship : Relationship
  storage : Storage
deriving DecidableEq

namespace Link

/-- The output column with the related ids. -/
def columnAlias (l : Link) : Ident := ⟨Name.columnAlias l.name l.relationship.cardinality⟩

/-- The `WITH` clause through which the relationship is read when another table stores its key. -/
def virtualTable (l : Link) : Ident := ⟨Name.virtualTable l.name⟩

/-- A row may be related to several rows. -/
def isToMany (l : Link) : Bool := l.relationship.cardinality.isToMany

/-- The name of the related resource. -/
def related (l : Link) : String := l.relationship.resource

/-- The related ids are not in the declaring resource's table. -/
def isVirtual (l : Link) : Bool := l.storage.virtualSource?.isSome

end Link

/-- An attribute or meta field with its column. -/
structure FieldColumn where
  key : String
  column : Ident
  type : Attribute
deriving DecidableEq

/-- The key column of every resource table. -/
def idColumn : Ident := ⟨Name.idColumn⟩

/-- A resource with its relationships linked, in the order of their names. -/
structure Definition where
  resource : Resource
  links : List Link
deriving DecidableEq

namespace Definition

/-- The name of the resource. -/
def name (d : Definition) : String := d.resource.name

/-- The table of the resource. -/
def table (d : Definition) : Ident := ⟨d.name⟩

/-- The id column with its table, as it stands in SQL text. -/
def qualifiedId (d : Definition) : String := d.table.qualify idColumn

/-- The attributes with their columns. -/
def attributes (d : Definition) : List FieldColumn :=
  d.resource.attributes.entries.map fun e => ⟨e.1, ⟨e.1⟩, e.2⟩

/-- The meta fields with their columns. -/
def metaFields (d : Definition) : List FieldColumn :=
  d.resource.metaFields.entries.map fun e => ⟨e.1, ⟨Name.metaColumn e.1⟩, e.2⟩

/-- The attribute with a key, or the meta field if there is no such attribute. -/
def field? (d : Definition) (key : String) : Option FieldColumn :=
  (d.attributes ++ d.metaFields).find? (·.key == key)

/-- The relationship with a name. -/
def link? (d : Definition) (name : String) : Option Link := d.links.find? (·.name == name)

/-- The relationships whose key is a column of the resource's table. -/
def ownLinks (d : Definition) : List Link := d.links.filter fun l => l.storage.ownColumn?.isSome

/-- The relationships whose key is a column of the related table. -/
def hostLinks (d : Definition) : List Link := d.links.filter fun l => l.storage.isHostTable

/-- The many-to-many relationships. -/
def associativeLinks (d : Definition) : List Link :=
  d.links.filter fun l => l.storage.isAssociative

/-- The many-to-many relationships whose link table the resource names. -/
def hostedAssociativeLinks (d : Definition) : List Link :=
  d.links.filter fun l => l.storage.isHostedAssociative

/-- The relationships whose key is in another table. -/
def virtualLinks (d : Definition) : List Link := d.links.filter Link.isVirtual

end Definition

/-- The last resource of a list with a name. -/
def resourceNamed? (rs : List Resource) (name : String) : Option Resource :=
  rs.reverse.find? (·.name == name)

namespace Resource

/-- Links one relationship to the other end. -/
def link (rs : List Resource) (r : Resource) (name : String) (rel : Relationship) :
    Except SchemaError Link :=
  let unresolved := SchemaError.unresolved r.name name rel.resource
  match resourceNamed? rs rel.resource with
  | none => .error (unresolved .unknownResource)
  | some target =>
    match rel.storage r.name name target with
    | .ok storage => .ok ⟨name, rel, storage⟩
    | .error reason => .error (unresolved reason)

/-- Links all relationships of a resource, or says which is the first that cannot be linked. -/
def define (rs : List Resource) (r : Resource) : Except SchemaError Definition := do
  return ⟨r, ← r.relationships.entries.mapM fun e => r.link rs e.1 e.2⟩

end Resource

/-- The definitions of a set of resources, in their order. -/
structure DefinitionSet where
  definitions : List Definition
deriving DecidableEq

namespace DefinitionSet

/-- Links all relationships of a set of resources. -/
def build (rs : List Resource) : Except SchemaError DefinitionSet := do
  return ⟨← rs.mapM (Resource.define rs)⟩

/-- The definition of a resource. -/
def get? (s : DefinitionSet) (name : String) : Option Definition :=
  s.definitions.reverse.find? (·.name == name)

/-- The resources of the set. -/
def resources (s : DefinitionSet) : List Resource := s.definitions.map Definition.resource

/-- How many definitions there are. -/
def size (s : DefinitionSet) : Nat := s.definitions.length

end DefinitionSet

end ResourceSchema
