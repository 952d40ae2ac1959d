import ResourceSchema.Resource.Model

/-!
# Making relationships visible from the other end

A host relationship from `A` to `B` is to be seen from `B` as well. Where `B` declares nothing
that could be its inverse, a guest relationship is added, named after `A`, which reads through the
host relationship. Declarations stay as they are, and where the name is taken nothing is added.
-/

namespace ResourceSchema

/-- A host relationship that is to be seen from its target. -/
structure Hosted where
  /-- The resource that declares the relationship. -/
  source : String
  /-- The plural form of that resource. -/
  sourcePlural : String
  /-- The name of the relationship. -/
  name : String
  relationship : Relationship
deriving DecidableEq

namespace Hosted

/-- The cardinality of an inverse. -/
def inverseCardinality (h : Hosted) : Cardinality := h.relationship.cardinality.inverse

/-- A relationship of the target with the name `name` could be the inverse: it points back with
the inverse cardinality and names no other inverse. The host relationship is not its own. -/
def isInverse (h : Hosted) (target : Resource) (name : String) (r : Relationship) : Bool :=
  !(target.name == h.source && name == h.name) && r.resource == h.source &&
    r.cardinality == h.inverseCardinality && r.inverse.all (· == h.name)

/-- The target declares an inverse. -/
def isDeclared (h : Hosted) (target : Resource) : Bool :=
  target.relationships.any (h.isInverse target)

/-- The name of an inverse that is added. -/
def inverseName (h : Hosted) : String :=
  if h.inverseCardinality.isToMany then h.sourcePlural else h.source

/-- The name is taken by a relationship or an attribute of the target. -/
def isTaken (h : Hosted) (target : Resource) : Bool :=
  target.relationships.contains h.inverseName || target.attributes.contains h.inverseName

/-- The inverse that is added. -/
def inverse (h : Hosted) : Relationship :=
  { resource := h.source, cardinality := h.inverseCardinality, host := false
    nullable := true, inverse := some h.name }

/-- The target with the inverse, if it has none and the name is free. -/
def addInverse (h : Hosted) (target : Resource) : Resource :=
  if h.isDeclared target || h.isTaken target then target
  else { target with relationships := target.relationships.insert h.inverseName h.inverse }

end Hosted

/-- The host relationships of a resource, by name. -/
def Resource.hosted (r : Resource) : List Hosted :=
  (r.relationships.filter fun _ rel => rel.host).entries.map fun e =>
    ⟨r.name, r.pluralForm, e.1, e.2⟩

/-- Changes the first resource with a name. -/
def changeFirst (name : String) (f : Resource → Resource) : List Resource → List Resource
  | [] => []
  | r :: rest => if r.name = name then f r :: rest else r :: changeFirst name f rest

/-- Adds the inverse of one host relationship to its target. -/
def addInverse (rs : List Resource) (h : Hosted) : List Resource :=
  changeFirst h.relationship.resource h.addInverse rs

/-- Adds the missing inverses of all host relationships, in the order of the resources and of the
names of their relationships. -/
def addInverses (rs : List Resource) : List Resource :=
  (rs.flatMap Resource.hosted).foldl addInverse rs

end ResourceSchema
