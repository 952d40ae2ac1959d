import ResourceSchema.Relationship.Dependency
import ResourceSchema.Schema.Compilation
import ResourceSchema.Schema.Definition
import ResourceSchema.Sql.Literal
import ResourceSchema.Sql.Table
import ResourceSchema.Sql.Trigger

/-!
# Creating the tables of a set of resources

A `Migration` starts with the trigger function. Then every resource gets its table and, if the
time of the last update is kept, its trigger; referenced tables come first. Link tables refer to
two resources and come last.
-/

namespace ResourceSchema

open Sql

/-- One statement of a migration. -/
inductive Step where
  | updatedAtFunction
  | createTable (table : Table)
  | updatedAtTrigger (table : Ident)
deriving DecidableEq

/-- A statement as DDL. -/
def Step.render : Step → String
  | updatedAtFunction => renderUpdatedAtFunction
  | createTable table => table.render
  | updatedAtTrigger table => renderUpdatedAtTrigger table

/-- The statements that create all tables, and the resources in the order of their tables. -/
structure Migration where
  order : List String
  steps : List Step
deriving DecidableEq

namespace Migration

/-- The statements as DDL. -/
def statements (m : Migration) : List String := m.steps.map Step.render

/-- Statements as one script, each closed by a semicolon. -/
def scriptOf (statements : List String) : String :=
  if statements.isEmpty then "" else ";\n\n".intercalate statements ++ ";\n"

/-- The migration as one script. -/
def script (m : Migration) : String := scriptOf m.statements

/-- The tables that are created, in order. -/
def tables (m : Migration) : List Table :=
  m.steps.filterMap fun
    | .createTable table => some table
    | _ => none

end Migration

/-! ## Tables -/

/-- The type of id columns. -/
def idType : String := "SERIAL"

/-- The type of key columns. -/
def keyType : String := "INTEGER"

/-- The id column of a table. -/
def referenceTo (table : Ident) : Reference := { table, column := idColumn }

/-- The column of a field, if its type may stand in DDL. -/
def FieldColumn.toColumn (resource : String) (f : FieldColumn) : Except CompileError Column :=
  match typeLiteral? f.type.type with
  | some type =>
    .ok { name := f.column, type, nullable := f.type.nullable
          default := f.type.default.bind defaultExpression? }
  | none => .error (.invalidType resource f.key f.type.type)

/-- The key column of a relationship stored in the resource's own table. A one-to-one relationship
refuses equal keys. -/
def Link.toColumn? (l : Link) : Option Column :=
  l.storage.ownColumn?.map fun column =>
    { name := column, type := keyType, nullable := l.relationship.nullable
      unique := l.relationship.cardinality == .oneToOne
      reference := some (referenceTo ⟨l.related⟩) }

namespace Definition

/-- The table of a resource: its id, the columns of its fields and its key columns. -/
def toTable (d : Definition) : Except CompileError Table := do
  let fields ← (d.attributes ++ d.metaFields).mapM (FieldColumn.toColumn d.name)
  let id := Column.asPrimaryKey { name := idColumn, type := idType }
  return { name := d.table, columns := id :: fields ++ d.links.filterMap Link.toColumn? }

/-- The link table of a many-to-many relationship, seen from a resource. Links go with the row of
that resource, while a related row stays as long as it is linked. -/
def linkTable? (d : Definition) (l : Link) : Option Table :=
  match l.storage with
  | .associative table _ localColumn foreignColumn => some {
      name := table
      columns := [
        { name := localColumn, type := keyType
          reference := some { referenceTo d.table with
            onUpdate := some .cascade, onDelete := some .cascade } },
        { name := foreignColumn, type := keyType
          reference := some { referenceTo ⟨l.related⟩ with onUpdate := some .cascade } }]
      primaryKey := [localColumn, foreignColumn] }
  | .ownTable _ | .hostTable _ _ => none

/-- The link tables that a resource names. -/
def linkTables (d : Definition) : List Table := d.hostedAssociativeLinks.filterMap d.linkTable?

end Definition

/-! ## The migration -/

/-- The first name of a list that comes again later, seen where it comes again. -/
def firstRepeated? (seen : List String) : List String → Option String
  | [] => none
  | name :: rest =>
    if seen.contains name then some name else firstRepeated? (name :: seen) rest

/-- A migration that is being written. -/
structure Draft where
  /-- The names of the tables created so far. -/
  names : List String := []
  steps : List Step := [.updatedAtFunction]
  /-- The link tables to be created at the end. -/
  linkTables : List Table := []

namespace Draft

/-- Creates a table whose name and column names are new. -/
def create (draft : Draft) (table : Table) : Except CompileError Draft :=
  if draft.names.contains table.name.raw then .error (.duplicateTable table.name.raw)
  else match firstRepeated? [] (table.columns.map (·.name.raw)) with
    | some column => .error (.duplicateColumn table.name.raw column)
    | none => .ok { draft with
        names := table.name.raw :: draft.names
        steps := draft.steps ++ [.createTable table] }

/-- Creates the table and the trigger of a resource. -/
def createResource (s : DefinitionSet) (draft : Draft) (name : String) :
    Except CompileError Draft := do
  match s.get? name with
  | none => throw (.unknownResource name)
  | some d =>
    let draft ← draft.create (← d.toTable)
    return { draft with
      steps := draft.steps ++
        if d.resource.builtIns.updatedAt then [.updatedAtTrigger d.table] else []
      linkTables := draft.linkTables ++ d.linkTables }

end Draft

/-- The migration of a set of resources, or the first reason why there is none. -/
def DefinitionSet.migration (s : DefinitionSet) : Except CompileError Migration := do
  let order ← (DependencyGraph.ofResources s.resources).order.mapError .schema
  let draft ← order.foldlM (Draft.createResource s) {}
  let draft ← draft.linkTables.foldlM Draft.create draft
  return ⟨order, draft.steps⟩

end ResourceSchema
