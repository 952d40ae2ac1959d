import ResourceSchema.CommandLine.Arguments
import ResourceSchema.Decimal.Digits
import ResourceSchema.Word

/-!
# What the program is asked to do
-/

namespace ResourceSchema.CommandLine

/-- What is done with the resources of a directory. -/
inductive Job where
  /-- Write the migration to a file or print it. -/
  | migrate (output : Option String)
  /-- Print the order in which tables are created. -/
  | order
  /-- Print the resources. -/
  | inspect
  /-- Print a read and its parameters. -/
  | query (resource : String) (id : Option Int64) (fields : Option (List String))
      (page pageSize : Option UInt32)
deriving DecidableEq, Repr

/-- A job, and the directory with the descriptions. -/
structure Invocation where
  directory : String
  job : Job
deriving DecidableEq, Repr

/-- An integer of 64 bits with sign. -/
def int64? (text : String) : Option Int64 := (Decimal.int? text).bind Word.int64?

/-- A positive integer of 32 bits without sign. -/
def positive? (text : String) : Option UInt32 :=
  ((Decimal.int? text).bind Word.uint32?).filter (0 < ·)

/-- A path has at least one character. -/
def acceptsPath (text : String) : Bool := !text.isEmpty

/-- The options before the job. -/
def commonGrammar : Grammar where
  switches := [
    { long := "resources", short := some 'r', accepts := some acceptsPath },
    { long := "verbose", short := some 'v' }]
  hasVersion := true

/-- The options of `migrate`. -/
def migrateGrammar : Grammar where
  switches := [{ long := "output", short := some 'o', accepts := some acceptsPath }]

/-- The options of `query`, and the resource. -/
def queryGrammar : Grammar where
  switches := [
    { long := "id", accepts := some fun v => (int64? v).isSome },
    { long := "fields", accepts := some fun _ => true, repeats := true },
    { long := "page", accepts := some fun v => (positive? v).isSome },
    { long := "page-size", accepts := some fun v => (positive? v).isSome }]
  positionals := 1

/-- Reads all arguments of a job. -/
def Grammar.readAll (g : Grammar) (arguments : List String) : Except Stop Given := do
  return (← g.read false {} none arguments).1

/-- Reads the name of a job and its arguments. -/
def Job.read : List String → Except Stop Job
  | "migrate" :: rest => do
    let given ← migrateGrammar.readAll rest
    return migrate (given.value? "output")
  | "order" :: rest => do
    discard <| Grammar.readAll ⟨[], false, 0⟩ rest
    return order
  | "inspect" :: rest => do
    discard <| Grammar.readAll ⟨[], false, 0⟩ rest
    return inspect
  | "query" :: rest => do
    let given ← queryGrammar.readAll rest
    match given.positionals with
    | [resource] =>
      let fields := given.values "fields"
      return query resource ((given.value? "id").bind int64?)
        (if fields.isEmpty then none else some (fields.flatMap (Text.split ',')))
        ((given.value? "page").bind positive?) ((given.value? "page-size").bind positive?)
    | _ => throw .usage
  | ["help"] => throw .help
  | ["help", job] =>
    throw (if ["migrate", "order", "inspect", "query", "help"].contains job then .help
      else .usage)
  | _ => throw .usage

/-- Reads the arguments of the program. Without the option for it, the directory comes from the
environment, and `resources` is the directory if that is silent too. -/
def Invocation.read (environment : Option String) (arguments : List String) :
    Except Stop Invocation := do
  let (given, rest) ← commonGrammar.read true {} none arguments
  let job ← Job.read rest
  match given.value? "resources", environment with
  | some directory, _ => return ⟨directory, job⟩
  | none, some directory =>
    if acceptsPath directory then return ⟨directory, job⟩ else throw .usage
  | none, none => return ⟨"resources", job⟩

end ResourceSchema.CommandLine
