import ResourceSchema.CommandLine.Invocation
import ResourceSchema.Directory.Load
import ResourceSchema.Json.Printer
import ResourceSchema.Request.Compiler
import ResourceSchema.Schema.Migration

/-!
# What the program answers

`Invocation.run` turns what was read from the directory into an `Outcome`, and `run` does all that
the program does on a file tree.
-/

namespace ResourceSchema.CommandLine

/-- What comes of an invocation. -/
inductive Outcome where
  | print (text : String)
  | write (path text : String)
  | fail (message : String)
deriving DecidableEq, Repr

/-- A parameter in a line of its own. -/
def parameterLine (position : Nat) (p : Sql.Parameter) : String :=
  let value := match p.value with
    | .null => "Null"
    | .bool b => if b then "Bool(true)" else "Bool(false)"
    | .int n => "Int(" ++ Decimal.ofInt n.toInt ++ ")"
    | .float x => "Float(" ++ (Json.Number.float x).render ++ ")"
    | .text s => "Text(" ++ (Json.string s).compact ++ ")"
    | .json j => "Json(" ++ j.compact ++ ")"
  "-- " ++ Sql.Placeholder.render ⟨position + 1⟩ ++ " " ++ p.name ++ " = " ++ value ++ "\n"

/-- A statement and its parameters. -/
def statementText (s : Sql.Statement) : String :=
  s.text ++ "\n" ++ String.join (s.parameters.list.mapIdx parameterLine)

/-- The read that a query asks for. A page without number or size takes it from the resource. -/
def readRequest (d : Definition) (id : Option Int64) (fields : Option (List String))
    (page pageSize : Option UInt32) : ReadRequest :=
  let standard := Page.first d.resource.pagination
  { id, fields := fields.map NameSet.ofNames
    page := if page.isNone && pageSize.isNone then none
      else some ⟨page.getD standard.number, pageSize.getD standard.size⟩ }

/-- Does a job with a set of definitions. -/
def Job.run (s : DefinitionSet) : Job → Except CompileError Outcome
  | migrate output => do
    let script := (← s.migration).script
    return match output with
      | some path => .write path script
      | none => .print script
  | order => do
    let names ← (DependencyGraph.ofResources s.resources).order.mapError .schema
    return .print (String.join (names.map (· ++ "\n")))
  | inspect => return .print ((Json.array (s.resources.map Resource.toJson)).pretty ++ "\n")
  | query resource id fields page pageSize => do
    match s.get? resource with
    | none => throw (.unknownResource resource)
    | some d =>
      let request := readRequest d id fields page pageSize
      let statement ← QueryCompiler.compile ⟨s, none⟩ (.read resource request)
      return .print (statementText statement)

/-- Links the described resources and does a job. -/
def Job.runOn (job : Job) (ds : List Description) : Except CompileError Outcome := do
  let rs ← (resourcesOf ds).mapError .schema
  job.run (← (DefinitionSet.build rs).mapError .schema)

/-- Does a job with what was read from the directory. -/
def Invocation.run (i : Invocation) : Except LoadError (List Description) → Outcome
  | .error _ => .fail ("failed to load resources from " ++ i.directory)
  | .ok ds =>
    match i.job.runOn ds with
    | .ok outcome => outcome
    | .error error => .fail error.message

/-- What is said when a file cannot be written. -/
def writeFailure (path : String) : String := "failed to write " ++ path

/-- The name and version of the program. -/
def version : String := "oxide-resource 0.1.0\n"

/-- What the program leaves behind: its exit status, what it printed, why it failed, and the
files. -/
structure Result where
  status : UInt32
  printed : String
  failure : Option String
  files : FileTree

/-- Runs the program on a file tree. -/
def run (files : FileTree) (environment : Option String) (arguments : List String) : Result :=
  match Invocation.read environment arguments with
  | .error .usage => ⟨2, "", none, files⟩
  | .error .version => ⟨0, version, none, files⟩
  | .error .help => ⟨0, "", none, files⟩
  | .ok invocation =>
    match invocation.run (loadDirectory files invocation.directory) with
    | .print text => ⟨0, text, none, files⟩
    | .fail message => ⟨1, "", some message, files⟩
    | .write path text =>
      match files.write? path text with
      | some files => ⟨0, "", none, files⟩
      | none => ⟨1, "", some (writeFailure path), files⟩

end ResourceSchema.CommandLine
