import ResourceSchema.Request.Command
import ResourceSchema.Request.Form
import ResourceSchema.Schema.Compilation

/-!
# From requests to commands

A request is first accepted: its resource has to exist, the action has to be allowed, and an
update or a deletion needs an id. What is accepted is an `Operation`, which is prepared as a
command, in which every value of the request stands behind a placeholder. Reads may be narrowed
by an authorization, which sees the operation before its fields are checked.
-/

namespace ResourceSchema

open Sql

/-- An accepted request. An update without values is a read of the row. -/
inductive Operation where
  | read (definition : Definition) (request : ReadRequest) (action : Action)
  | create (definition : Definition) (values : SortedMap Json)
  | update (definition : Definition) (id : Int64) (values : SortedMap Json)
  | delete (definition : Definition) (id : Int64)

/-! ## Acceptance -/

/-- The definition of a resource that allows an action. -/
def DefinitionSet.allowing (s : DefinitionSet) (resource : String) (action : Action) :
    Except CompileError Definition :=
  match s.get? resource with
  | none => .error (.unknownResource resource)
  | some d =>
    if d.resource.actions.allow action then .ok d else .error (.actionDisabled action resource)

/-- The id of the row that an action needs. -/
def Definition.requireId (d : Definition) (id : Option Int64) (action : Action) :
    Except CompileError Int64 :=
  match id with
  | some id => .ok id
  | none => .error (.missingId action d.name)

/-- Accepts a request. -/
def Request.accept (s : DefinitionSet) : Request → Except CompileError Operation
  | read resource request => do
    return .read (← s.allowing resource request.action) request request.action
  | create resource request => do
    return .create (← s.allowing resource .create) request.values
  | update resource request => do
    let d ← s.allowing resource .update
    let id ← d.requireId request.id .update
    if request.values.isEmpty then return .read d { id := some id } .update
    else return .update d id request.values
  | delete resource id => do
    let d ← s.allowing resource .delete
    return .delete d (← d.requireId id .delete)

namespace Definition

/-! ## Reads -/

/-- The field is an attribute, a meta field or a relationship. -/
def hasField (d : Definition) (name : String) : Bool :=
  (d.field? name).isSome || (d.link? name).isSome

/-- Every field that is asked for has to exist; otherwise the first one that does not is named. -/
def checkFields (d : Definition) (fields : Option NameSet) : Except CompileError Unit :=
  match (fields.getD .empty).keys.find? (!d.hasField ·) with
  | some name => .error (.unknownField d.name name)
  | none => .ok ()

/-- The columns of the table that a read returns: all of them, or the id, the meta fields and the
attributes and keys that are asked for. -/
def baseOutputs (d : Definition) (request : ReadRequest) : List Output :=
  if request.fields.isNone then [.allColumns]
  else
    .column idColumn :: (d.metaFields.map fun f => .column f.column) ++
    ((d.attributes.filter fun f => request.wants f.key).map fun f => .column f.column) ++
    ((d.links.filter fun l => request.wants l.name).filterMap fun l =>
      l.storage.ownColumn?.map .column)

/-- The virtual table of a relationship whose key is in another table. -/
def virtualTable? (row : Option Placeholder) (l : Link) : Option VirtualTable :=
  l.storage.virtualSource?.map fun source =>
    ⟨l.virtualTable, source.table, source.key, source.value.getD idColumn, row⟩

/-- The relationships that are read through virtual tables. -/
def wantedLinks (d : Definition) (request : ReadRequest) : List Link :=
  d.virtualLinks.filter fun l => request.wants l.name

/-- Prepares a read. A list is paginated if the resource says so, with the default page unless
another is asked for. -/
def prepareRead (d : Definition) (request : ReadRequest) (filter : Option String) :
    Except CompileError Prepared := do
  d.checkFields request.fields
  let links := d.wantedLinks request
  let outputs := d.baseOutputs request ++
    links.map fun l => .relatedIds l.virtualTable l.isToMany l.columnAlias
  let command (row : Option Placeholder) : ReadCommand :=
    { table := d.table, virtualTables := links.filterMap (virtualTable? row), outputs, row, filter
      page := none }
  match request.id with
  | some id =>
    let (row, parameters) := Parameters.empty.bind "id" (.int id)
    return ⟨.read (command row), parameters⟩
  | none =>
    let pagination := d.resource.pagination
    if pagination.enabled then
      let page := request.page.getD (.first pagination)
      let (limit, parameters) := Parameters.empty.bind "limit" (.int (.ofNat page.size.toNat))
      let (offset, parameters) := parameters.bind "offset" (.int page.offset)
      return ⟨.read { command none with
        outputs := outputs ++ [.totalCount], page := some ⟨limit, offset⟩ }, parameters⟩
    else return ⟨.read (command none), .empty⟩

/-! ## Writes -/

/-- The column that a key writes. Keys stored in another table cannot be written. -/
def writableColumn (d : Definition) (key : String) : Except CompileError Ident :=
  match d.field? key with
  | some f => .ok f.column
  | none =>
    match (d.link? key).bind fun l => l.storage.ownColumn? with
    | some column => .ok column
    | none => .error (.unknownField d.name key)

/-- Binds values to the columns of their keys. -/
def assign (d : Definition) (values : SortedMap Json) :
    Except CompileError (List Assignment × Parameters) :=
  values.entries.foldlM (fun (assignments, parameters) e => do
    let column ← d.writableColumn e.1
    let (value, parameters) := parameters.bind e.1 (.ofJson e.2)
    return (assignments ++ [⟨column, value⟩], parameters)) ([], .empty)

end Definition

namespace Operation

/-- Prepares an operation; `filter` narrows a read. -/
def prepare (filter : Option String) : Operation → Except CompileError Prepared
  | read d request _ => d.prepareRead request filter
  | create d values => do
    let (assignments, parameters) ← d.assign values
    return ⟨.insert d.table assignments, parameters⟩
  | update d id values => do
    let (assignments, parameters) ← d.assign values
    let (row, parameters) := parameters.bind "id" (.int id)
    return ⟨.update d.table assignments row, parameters⟩
  | delete d id =>
    let (row, parameters) := Parameters.empty.bind "id" (.int id)
    .ok ⟨.delete d.table row, parameters⟩

/-- What an authorization is asked about: the definition that is read, the request and the
action. Only reads are narrowed. -/
def consultation? : Operation → Option (Definition × ReadRequest × Action)
  | read d request action => some (d, request, action)
  | create _ _ | update _ _ _ | delete _ _ => none

end Operation

/-! ## The compiler -/

/-- Supplies a condition in SQL that the rows of a read have to meet. -/
abbrev Authorization := Definition → ReadRequest → Action → Option String

/-- Compiles requests on a set of resources. -/
structure QueryCompiler where
  definitions : DefinitionSet
  authorization : Option Authorization := none

namespace QueryCompiler

/-- The condition that the authorization supplies for an operation. -/
def filter? (c : QueryCompiler) (operation : Operation) : Option String := do
  let authorization ← c.authorization
  let (definition, request, action) ← operation.consultation?
  authorization definition request action

/-- Prepares a request as a command. -/
def prepare (c : QueryCompiler) (request : Request) : Except CompileError Prepared := do
  let operation ← request.accept c.definitions
  operation.prepare (c.filter? operation)

/-- Compiles a request to a statement. -/
def compile (c : QueryCompiler) (request : Request) : Except CompileError Statement := do
  return (← c.prepare request).statement

/-- The compiler in one line. -/
def summary (c : QueryCompiler) : String :=
  "QueryCompiler \x7b resources: " ++ Decimal.ofNat c.definitions.size ++ ", authorization: " ++
    (if c.authorization.isSome then "true" else "false") ++ " \x7d"

end QueryCompiler

end ResourceSchema
