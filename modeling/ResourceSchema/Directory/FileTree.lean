import ResourceSchema.Text.Split

/-!
# Files and directories

A `FileTree` is what a program sees of the file system: the files and directories below the one it
works in. Paths are relative, with slashes between their parts, and are followed part by part.
-/

namespace ResourceSchema

/-- Why a file or directory cannot be read. -/
inductive FileFault where
  | notFound
  | notADirectory
  /-- The bytes of a file are not text. -/
  | invalidData
deriving DecidableEq, Repr

/-- A file with its bytes, or a directory with its entries by name. -/
inductive FileTree where
  | file (content : ByteArray)
  | directory (entries : List (String × FileTree))

namespace FileTree

/-- The entry of a directory with a name. -/
def entry? : FileTree → String → Option FileTree
  | file _, _ => none
  | directory entries, name => entries.lookup name

/-- The tree below a list of names. -/
def at? : FileTree → List String → Option FileTree
  | tree, [] => some tree
  | tree, name :: rest => (tree.entry? name).bind (·.at? rest)

/-- Follows the parts of a path from a directory, given with the names that lead to it, the
nearest first. Every part asks for a directory before it, an empty one and `.` stay in it, and
`..` leaves it. -/
def follow (root : FileTree) : List String → List String → Except FileFault (List String)
  | here, [] => .ok here
  | here, part :: rest =>
    match root.at? here.reverse with
    | none => .error .notFound
    | some (file _) => .error .notADirectory
    | some (directory _) =>
      if part.isEmpty ∨ part = "." then follow root here rest
      else if part = ".." then
        match here with
        | [] => .error .notFound
        | _ :: up => follow root up rest
      else follow root (part :: here) rest

/-- What is found under a path. Paths that are empty or leave the tree lead nowhere. -/
def find (root : FileTree) (path : String) : Except FileFault FileTree :=
  if path.isEmpty ∨ path.toList.head? = some '/' then .error .notFound
  else do
    let names ← follow root [] (Text.split '/' path)
    match root.at? names.reverse with
    | some tree => return tree
    | none => .error .notFound

/-- Puts an entry into the directory below a list of names, in the place of an entry with the same
name. -/
def put (name : String) (tree : FileTree) : List String → FileTree → FileTree
  | _, file content => file content
  | [], directory entries => directory ((name, tree) :: entries.filter (·.1 != name))
  | step :: rest, directory entries =>
    directory (entries.map fun e => if e.1 = step then (e.1, put name tree rest e.2) else e)

/-- Writes a text to the file under a path, in a directory that exists. -/
def write? (root : FileTree) (path text : String) : Option FileTree := do
  if path.toList.head? = some '/' then none
  let parts := Text.split '/' path
  let name ← parts.getLast?
  if name.isEmpty ∨ name = "." ∨ name = ".." then none
  let names ← (follow root [] parts.dropLast).toOption
  match ← root.at? names.reverse with
  | file _ => none
  | directory entries =>
    match entries.lookup name with
    | some (directory _) => none
    | _ => return put name (file text.toUTF8) names.reverse root

/-- The text of a file. -/
def readText? (root : FileTree) (path : String) : Option String :=
  match root.find path with
  | .ok (file content) => String.fromUTF8? content
  | _ => none

end FileTree

end ResourceSchema
