import ResourceSchema.Schema.Error

/-!
# The order in which resources are created

A resource depends on those whose ids its table stores. The order takes again and again the first
name, by code points, of which every dependency is already out. It keeps for every resource that
remains the number of its dependencies that remain; a resource is ready when that number is zero.
-/

namespace ResourceSchema

/-- Resources, each with those it depends on. -/
structure DependencyGraph where
  dependencies : SortedMap NameSet
deriving DecidableEq

namespace DependencyGraph

/-- The graph without resources. -/
def empty : DependencyGraph := ⟨.empty⟩

/-- Adds a resource without dependencies, unless it is there. -/
def addNode (g : DependencyGraph) (name : String) : DependencyGraph :=
  if g.dependencies.contains name then g else ⟨g.dependencies.insert name .empty⟩

/-- Lets `source` depend on `target`; both are resources of the graph afterwards. -/
def addEdge (g : DependencyGraph) (source target : String) : DependencyGraph :=
  let g := g.addNode target
  ⟨g.dependencies.insert source (((g.dependencies.get? source).getD .empty).add target)⟩

/-- The resources that a resource depends on. -/
def dependenciesOf (g : DependencyGraph) (name : String) : List String :=
  ((g.dependencies.get? name).getD .empty).keys

/-- The resources that depend on a resource. -/
def dependentsOf (g : DependencyGraph) (name : String) : List String :=
  (g.dependencies.filter fun _ targets => targets.contains name).keys

/-! ## Ordering -/

/-- How far the ordering is. -/
structure Progress where
  /-- The resources that are not out, with the number of their dependencies that are not. -/
  remaining : SortedMap Nat
  /-- The resources that are not out although all their dependencies are. -/
  ready : NameSet
  /-- The resources that are out, in order. -/
  out : List String
deriving DecidableEq

/-- Nothing is out. -/
def start (g : DependencyGraph) : Progress :=
  let remaining := g.dependencies.map fun _ targets => targets.size
  ⟨remaining, (remaining.filter fun _ count => count == 0).map fun _ _ => (), []⟩

/-- One dependency of a resource is out. -/
def Progress.release (p : Progress) (name : String) : Progress :=
  match p.remaining.get? name with
  | none => p
  | some count =>
    { p with
      remaining := p.remaining.insert name (count - 1)
      ready := if count - 1 = 0 then p.ready.add name else p.ready }

/-- A resource is out. -/
def emit (g : DependencyGraph) (p : Progress) (name : String) : Progress :=
  (g.dependentsOf name).foldl Progress.release
    ⟨p.remaining.erase name, p.ready.erase name, p.out ++ [name]⟩

/-- Goes on for a number of resources, or until none is ready. -/
def advance (g : DependencyGraph) : Nat → Progress → Progress
  | 0, p => p
  | n + 1, p =>
    match p.ready.keys with
    | [] => p
    | name :: _ => g.advance n (g.emit p name)

/-- The progress when no resource is ready any more. -/
def finish (g : DependencyGraph) : Progress := g.advance g.dependencies.size g.start

/-- Every resource after those it depends on, by name where there is a choice; the resources left
over if there are any. -/
def order (g : DependencyGraph) : Except SchemaError (List String) :=
  if g.finish.remaining.isEmpty then .ok g.finish.out
  else .error (.cyclic g.finish.remaining.keys)

end DependencyGraph

/-- A relationship makes the resource `source` depend on its target: the key is a column of the
table of `source`, and the target is another table. -/
def Relationship.isDependency (source : String) (r : Relationship) : Bool :=
  r.host && r.cardinality != .manyToMany && r.resource != source

namespace DependencyGraph

/-- The dependencies of one resource added to a graph. -/
def addResource (g : DependencyGraph) (r : Resource) : DependencyGraph :=
  (r.relationships.values.filter (Relationship.isDependency r.name)).foldl
    (fun g rel => g.addEdge r.name rel.resource) g

/-- The dependencies between resources. -/
def ofResources (rs : List Resource) : DependencyGraph :=
  rs.foldl addResource (rs.foldl (fun g r => g.addNode r.name) .empty)

end DependencyGraph

end ResourceSchema
