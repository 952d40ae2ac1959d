import ResourceSchema.Description.Document
import ResourceSchema.Directory.FileTree

/-!
# Reading a directory of descriptions

Every file of the directory whose name ends in `.json` holds one description. The files are read
in the order of their names, and the first that cannot be read is reported.
-/

namespace ResourceSchema

/-- Why a directory of descriptions cannot be read. -/
inductive LoadError where
  | file (path : String) (fault : FileFault)
  | document (path : String) (fault : Json.Fault)
deriving DecidableEq, Repr

/-- The name has the extension `json`: something, a point and `json`. -/
def hasJsonExtension (name : String) : Bool :=
  ['.', 'j', 's', 'o', 'n'].isSuffixOf name.toList && 5 < name.toList.length

/-- The path of an entry of a directory. -/
def joinPath (directory name : String) : String :=
  if directory.toList.getLast? = some '/' then directory ++ name else directory ++ "/" ++ name

/-- Reads a description from the bytes of a file. -/
def loadFile (path : String) (content : ByteArray) : Except LoadError Description :=
  match String.fromUTF8? content with
  | none => .error (.file path .invalidData)
  | some text => (Description.parse text).mapError (.document path)

/-- The files among the entries of a directory that hold descriptions, in the order of their
names. -/
def descriptionFiles (entries : List (String × FileTree)) : List (String × ByteArray) :=
  (SortedMap.ofList entries).entries.filterMap fun
    | (name, .file content) => if hasJsonExtension name then some (name, content) else none
    | (_, .directory _) => none

/-- Reads the descriptions in what was found under the path of a directory. -/
def loadFrom (path : String) : Except FileFault FileTree → Except LoadError (List Description)
  | .error fault => .error (.file path fault)
  | .ok (.file _) => .error (.file path .notADirectory)
  | .ok (.directory entries) =>
    (descriptionFiles entries).mapM fun e => loadFile (joinPath path e.1) e.2

/-- Reads the descriptions in a directory. -/
def loadDirectory (root : FileTree) (path : String) : Except LoadError (List Description) :=
  loadFrom path (root.find path)

end ResourceSchema
