import ModelCatalog.Definition.Basic
import ModelCatalog.Json.Reader

/-!
# Loading definitions

Definitions come in texts, one document each, and the texts in folders. What a path names is loaded
whatever its name: a file by its text, a folder by its files.

## Which fault is reported

The value that a text begins with has to be complete, then it has to hold definitions, and then
nothing but blanks may follow it; a text with several faults is reported by the first of these that
it fails. The places in messages are written as the path is, from the place of the folder that it
starts in.
-/

namespace ModelCatalog

/-! ## Texts -/

/-- Why definitions cannot be loaded. -/
inductive LoadError where
  /-- The text is not a document. -/
  | malformed
  /-- The value in the text does not hold definitions. -/
  | wrongShape
  /-- There is nothing at the place. -/
  | missing (place : String)
  /-- There is a folder where a file should be. -/
  | notFile (place : String)
  /-- The way to the place goes through a file. -/
  | notFolder (place : String)
  /-- The file at the place cannot be loaded. -/
  | inFile (place : String) (cause : LoadError)
  deriving DecidableEq, Repr

def LoadError.message : LoadError → String
  | .malformed => "config load: " ++ Json.malformedText
  | .wrongShape => "config load: data did not match any variant of untagged enum ModelsFile"
  | .missing place => "config load: " ++ place ++ ": No such file or directory (os error 2)"
  | .notFile place => "config load: " ++ place ++ ": Is a directory (os error 21)"
  | .notFolder place => "config load: " ++ place ++ ": Not a directory (os error 20)"
  | .inFile place cause => "config load: " ++ place ++ ": " ++ cause.message

def loadText (text : String) : Except LoadError (List ModelDefinition) :=
  match Json.readFirst? text with
  | none => .error .malformed
  | some (value, rest) =>
    match ModelDefinition.listOfJson? value with
    | none => .error .wrongShape
    | some definitions => if rest.all Token.isGap then .ok definitions else .error .malformed

/-! ## Folders

A folder contributes its `.json` files in the order of their names; files with other names, and
folders inside it, are ignored. Only a folder whose own name ends in `.json` is taken for a file,
which it is not. -/

inductive FolderEntry where
  | file (text : String)
  | folder (entries : List (String × FolderEntry))
  deriving Repr

/-- The entries of a folder; a file has none. -/
def FolderEntry.entries : FolderEntry → Fields FolderEntry
  | .file _ => []
  | .folder entries => entries

/-- The contents of a folder, by name. -/
abbrev Folder := Fields FolderEntry

/-- Whether a file name has the extension `json`. A name that only consists of it has none. -/
def hasJsonExtension (name : String) : Bool :=
  match Text.dropEnding? ".json" name with
  | some stem => !stem.isEmpty
  | none => false

namespace Folder

/-- Put an entry at a path. The folders on the way are made where they are missing. -/
def put (folder : Folder) (entry : FolderEntry) : List String → Folder
  | [] => folder
  | [name] => folder.insert name entry
  | name :: path =>
    let inner : Folder := (folder.get? name).elim [] FolderEntry.entries
    folder.insert name (.folder (inner.put entry path))

/-- The folder whose entries are given by their paths, written with `/` between the names. -/
def ofPaths (entries : List (String × FolderEntry)) : Folder :=
  entries.foldl (fun folder (path, entry) ↦ folder.put entry (Text.splitAt '/' path)) []

/-- The place that a path names when it starts at a place. -/
def placeOf (place path : String) : String :=
  if place.toList.getLast? == some '/' then place ++ path else place ++ "/" ++ path

def loadFile (place : String) (entry : String × FolderEntry) :
    Except LoadError (List ModelDefinition) :=
  let file := placeOf place entry.1
  match entry.2 with
  | .folder _ => .error (.notFile file)
  | .file text => (loadText text).mapError (.inFile file)

/-- The definitions in all files of a folder, in the order of their names. -/
def load (place : String) (folder : Folder) : Except LoadError (List ModelDefinition) := do
  let files := folder.filter fun entry ↦ hasJsonExtension entry.1
  let sorted := files.mergeSort fun a b ↦ a.1 ≤ b.1
  return (← sorted.mapM (loadFile place)).flatten

/-- The definitions at the end of a path, `place`, from a folder on the way; `outer` are the folders
around that one, the innermost first. An empty name and `.` stay in the folder, `..` goes back to
the one around it. -/
def loadFrom (place : String) (outer : List Folder) (folder : Folder) :
    List String → Except LoadError (List ModelDefinition)
  | [] => load place folder
  | name :: path =>
    if name.isEmpty || name == "." then loadFrom place outer folder path
    else if name == ".." then
      match outer with
      | [] => .error (.missing place)
      | folder :: outer => loadFrom place outer folder path
    else match folder.get? name with
      | none => .error (.missing place)
      | some (.folder entries) => loadFrom place (folder :: outer) entries path
      | some (.file text) => if path.isEmpty then loadText text else .error (.notFolder place)

/-- The definitions at a path that starts in a folder. -/
def loadPath (place : String) (folder : Folder) (path : String) :
    Except LoadError (List ModelDefinition) :=
  loadFrom (placeOf place path) [] folder (Text.splitAt '/' path)

end Folder

end ModelCatalog
