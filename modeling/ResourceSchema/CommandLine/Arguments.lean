import ResourceSchema.Text.Split

/-!
# Options and positional arguments

Arguments are read from left to right. An option is given by its long name after two dashes or by
its letter after one; letters of options without a value may be run together. A value follows
after an equals sign, directly after a letter, or as the next argument, which must not look like
an option. After `--` every argument is positional.
-/

namespace ResourceSchema.CommandLine

/-- An option that a command knows. -/
structure Switch where
  /-- The name after two dashes. -/
  long : String
  /-- The letter after one dash. -/
  short : Option Char := none
  /-- Which values are accepted; an option without this takes no value. -/
  accepts : Option (String → Bool) := none
  /-- The option may be given more than once. -/
  repeats : Bool := false

/-- Why the reading of arguments ends early. -/
inductive Stop where
  /-- The arguments are wrong. -/
  | usage
  /-- The version is asked for. -/
  | version
  /-- Help is asked for. -/
  | help
deriving DecidableEq, Repr

/-- What a command understands. -/
structure Grammar where
  switches : List Switch
  /-- Asking for the version is understood. -/
  hasVersion : Bool := false
  /-- How many positional arguments there may be. -/
  positionals : Nat := 0

/-- What has been read. -/
structure Given where
  /-- The options by long name, each with its value, latest first. -/
  options : List (String × String) := []
  /-- The positional arguments, latest first. -/
  positionals : List String := []
deriving DecidableEq, Repr

namespace Given

/-- The option was given. -/
def has (g : Given) (long : String) : Bool := g.options.any (·.1 == long)

/-- The values of an option, in order. -/
def values (g : Given) (long : String) : List String :=
  ((g.options.filter (·.1 == long)).map Prod.snd).reverse

/-- The value of an option that is given once. -/
def value? (g : Given) (long : String) : Option String := (g.values long).head?

/-- Records an option, unless it was given before and must not be repeated. -/
def record (g : Given) (s : Switch) (value : String) : Except Stop Given :=
  if g.has s.long && !s.repeats then .error .usage
  else if s.accepts.all (· value) then .ok { g with options := (s.long, value) :: g.options }
  else .error .usage

end Given

/-- The argument looks like an option: a dash with something after it. -/
def looksLikeOption (argument : String) : Bool :=
  match argument.toList with
  | '-' :: _ :: _ => true
  | _ => false

/-- An argument without what belongs to the option before it: the option that still needs a value,
if any. -/
abbrev Reading := Given × Option Switch

/-- Reads an option given by its long name. -/
def Grammar.long (g : Grammar) (given : Given) (argument : String) : Except Stop Reading :=
  let (name, value) := Text.cut '=' argument
  match g.switches.find? (·.long == name), value with
  | some s, some value =>
    if s.accepts.isSome then do return (← given.record s value, none) else .error .usage
  | some s, none =>
    if s.accepts.isSome then .ok (given, some s) else do return (← given.record s "", none)
  | none, some _ => .error .usage
  | none, none =>
    if name = "help" then .error .help
    else if name = "version" ∧ g.hasVersion then .error .version
    else .error .usage

/-- Reads options given by their letters. -/
def Grammar.short (g : Grammar) (given : Given) : List Char → Except Stop Reading
  | [] => .ok (given, none)
  | c :: rest =>
    match g.switches.find? (·.short == some c) with
    | some s =>
      if s.accepts.isNone then do g.short (← given.record s "") rest
      else match rest with
        | [] => .ok (given, some s)
        | '=' :: value => do return (← given.record s (String.ofList value), none)
        | value => do return (← given.record s (String.ofList value), none)
    | none =>
      if c = 'h' then .error .help
      else if c = 'V' ∧ g.hasVersion then .error .version
      else .error .usage

/-- Reads a positional argument. -/
def Grammar.positional (g : Grammar) (given : Given) (argument : String) : Except Stop Given :=
  if given.positionals.length < g.positionals then
    .ok { given with positionals := argument :: given.positionals }
  else .error .usage

/-- Reads arguments up to the first positional one that the grammar has no room for, if `leaves`
says that it may be left; also the arguments from there on. -/
def Grammar.read (g : Grammar) (leaves : Bool) (given : Given) (needing : Option Switch) :
    List String → Except Stop (Given × List String)
  | [] => if needing.isSome then .error .usage else .ok (given, [])
  | argument :: rest =>
    match needing with
    | some s =>
      if looksLikeOption argument then .error .usage
      else do g.read leaves (← given.record s argument) none rest
    | none =>
      if argument = "--" then do
        let given ← rest.foldlM g.positional given
        return (given, [])
      else if looksLikeOption argument then
        match argument.toList with
        | '-' :: '-' :: name => do
          let (given, needing) ← g.long given (String.ofList name)
          g.read leaves given needing rest
        | letters => do
          let (given, needing) ← g.short given letters.tail
          g.read leaves given needing rest
      else if leaves ∧ given.positionals.length = g.positionals then
        .ok (given, argument :: rest)
      else do g.read leaves (← g.positional given argument) none rest

end ResourceSchema.CommandLine
