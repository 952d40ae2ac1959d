import ResourceSchema.Name.Derived
import ResourceSchema.Name.Ident
import ResourceSchema.Schema.Error

/-!
# Where the key of a relationship is stored

A host stores its key in its own table. A guest is read through its counterpart, a host
relationship of the related resource that points back with the inverse cardinality. The keys of
many-to-many relationships are the rows of a link table, which has the same columns seen from
either end.
-/

namespace ResourceSchema

/-- The end of a many-to-many relationship. -/
inductive Side where
  | host
  | guest
deriving DecidableEq, Repr

/-- Where the key of a relationship is stored. -/
inductive Storage where
  /-- In a column of the declaring resource's table. -/
  | ownTable (column : Ident)
  /-- In a column of the related resource's table. -/
  | hostTable (table column : Ident)
  /-- In the rows of a link table, which has one column for the ids of the declaring resource and
  one for those of the related resource. -/
  | associative (table : Ident) (side : Side) (localColumn foreignColumn : Ident)
deriving DecidableEq, Repr

/-- A table from which the ids of related rows are read. -/
structure VirtualSource where
  table : Ident
  /-- The column with the id of the declaring resource. -/
  key : Ident
  /-- The column with the related id, unless it is the id of the table itself. -/
  value : Option Ident
deriving DecidableEq, Repr

namespace Storage

/-- The key is a column of the declaring resource's table. -/
def ownColumn? : Storage → Option Ident
  | ownTable column => some column
  | hostTable _ _ | associative _ _ _ _ => none

/-- The table to read from when the key is not in the declaring resource's table. -/
def virtualSource? : Storage → Option VirtualSource
  | ownTable _ => none
  | hostTable table column => some ⟨table, column, none⟩
  | associative table _ localColumn foreignColumn => some ⟨table, localColumn, foreignColumn⟩

/-- The key is in the table of the related resource. -/
def isHostTable : Storage → Bool
  | hostTable _ _ => true
  | ownTable _ | associative _ _ _ _ => false

/-- The keys are the rows of a link table. -/
def isAssociative : Storage → Bool
  | associative _ _ _ _ => true
  | ownTable _ | hostTable _ _ => false

/-- The keys are the rows of a link table that the declaring resource names. -/
def isHostedAssociative : Storage → Bool
  | associative _ .host _ _ => true
  | _ => false

end Storage

namespace Relationship

/-- The host relationship of `target` through which a guest of `source` is read. A named inverse
has to be one that points back; without a name there has to be exactly one such. -/
def counterpart (r : Relationship) (source : String) (target : Resource) :
    Except UnresolvedReason String :=
  let cardinality := r.cardinality.inverse
  match r.inverse with
  | some name =>
    if (target.relationships.get? name).any (·.hostsFor source cardinality) then .ok name
    else .error (.badInverse name cardinality)
  | none =>
    match (target.relationships.filter fun _ back => back.hostsFor source cardinality).keys with
    | [] => .error (.noCounterpart cardinality)
    | [name] => .ok name
    | first :: second :: _ => .error (.ambiguous first second)

/-- Where the key of the relationship `name` from `source` to `target` is stored. -/
def storage (r : Relationship) (source name : String) (target : Resource) :
    Except UnresolvedReason Storage :=
  match r.cardinality, r.host with
  | .manyToMany, true =>
    .ok (.associative ⟨Name.associativeTable source target.name⟩ .host
      ⟨Name.associativeHostColumn source⟩
      ⟨Name.associativeGuestColumn source target.name name⟩)
  | .manyToMany, false => do
    let host ← r.counterpart source target
    return .associative ⟨Name.associativeTable target.name source⟩ .guest
      ⟨Name.associativeGuestColumn target.name source host⟩
      ⟨Name.associativeHostColumn target.name⟩
  | _, true => .ok (.ownTable ⟨Name.foreignKeyColumn name⟩)
  | _, false => do
    let host ← r.counterpart source target
    return .hostTable ⟨target.name⟩ ⟨Name.foreignKeyColumn host⟩

end Relationship

end ResourceSchema
