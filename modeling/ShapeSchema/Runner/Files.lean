import ShapeSchema.Table

/-!
# Files and their paths

The runner works on a snapshot of the directory in which it is started. Paths are texts that are
looked up in the snapshot one name after the other. Of what lies outside nothing is known: the
directories there count as empty.
-/

namespace ShapeSchema.Runner

/-- What a name in a directory stands for. -/
inductive Entry where
  | file (content : List UInt8)
  | directory (entries : List (String × Entry))

/-- The entries of a directory. -/
abbrev Files := Table String Entry

/-- Why a path leads to no content. -/
inductive FileError where
  | notFound
  | notDirectory
  | isDirectory
  | nameTooLong
  | notText
  deriving DecidableEq

/-- The message of a file error. -/
def FileError.message : FileError → String
  | .notFound => "No such file or directory (os error 2)"
  | .notDirectory => "Not a directory (os error 20)"
  | .isDirectory => "Is a directory (os error 21)"
  | .nameTooLong => "File name too long (os error 36)"
  | .notText => "stream did not contain valid UTF-8"

namespace Entry

/-- Whether the entry is a directory. -/
def isDirectory : Entry → Bool
  | file _ => false
  | directory _ => true

/-- The entries below; a file has none. -/
def entries : Entry → Files
  | file _ => []
  | directory entries => entries

end Entry

/-- The parts of a text between slashes. -/
def splitSlash (text : List Char) : List (List Char) :=
  match text with
  | [] => [[]]
  | c :: rest =>
    if c = '/' then [] :: splitSlash rest
    else
      match splitSlash rest with
      | part :: parts => (c :: part) :: parts
      | [] => [[c]]

/-- The names between the slashes of a path. -/
def namesOf (path : String) : List String := (splitSlash path.toList).map String.ofList

/-- The most bytes that the name of an entry has. -/
def nameLimit : Nat := 255

/-- The most bytes that a path has. -/
def pathLimit : Nat := 4095

namespace Files

/-- Put a file at the end of a row of names, with the directories on the way. -/
def add : List String → List UInt8 → Files → Files
  | [], _, files => files
  | [name], content, files => Table.insert name (.file content) files
  | name :: rest, content, files =>
    let inner := match Table.find? name files with
      | some entry => entry.entries
      | none => []
    Table.insert name (.directory (add rest content inner)) files

/-- The files with these paths and contents. -/
def ofList (contents : List (String × List UInt8)) : Files :=
  contents.foldl (fun files (path, content) => add (namesOf path) content files) []

/-- Follow names from an entry; `above` holds the directories passed so far, the last one first. -/
def follow : List Entry → Entry → List String → Except FileError Entry
  | _, entry, [] => .ok entry
  | _, .file _, _ :: _ => .error .notDirectory
  | above, .directory entries, name :: rest =>
    if name = "" ∨ name = "." then follow above (.directory entries) rest
    else if name = ".." then
      match above with
      | parent :: above => follow above parent rest
      | [] => follow [] (.directory []) rest
    else if nameLimit < name.utf8ByteSize then .error .nameTooLong
    else
      match Table.find? name entries with
      | some entry => follow (.directory entries :: above) entry rest
      | none => .error .notFound

/-- What a path leads to. -/
def resolve (files : Files) (path : String) : Except FileError Entry :=
  if path = "" then .error .notFound
  else if pathLimit < path.utf8ByteSize then .error .nameTooLong
  else if path.toList.head? = some '/' then follow [] (.directory []) (namesOf path)
  else follow [] (.directory files) (namesOf path)

/-- The content of a file. -/
def read (files : Files) (path : String) : Except FileError (List UInt8) :=
  match files.resolve path with
  | .ok (.file content) => .ok content
  | .ok (.directory _) => .error .isDirectory
  | .error e => .error e

/-- The content of a file, which must be text. -/
def readText (files : Files) (path : String) : Except FileError String := do
  match String.fromUTF8? (← files.read path).toByteArray with
  | some text => .ok text
  | none => .error .notText

end Files

/-- A part of a path, as far as the order of paths is concerned. -/
inductive Component where
  | root
  | current
  | parent
  | name (name : String)
  deriving DecidableEq

namespace Component

/-- The components of a path: empty names count for nothing, and neither does a dot, except at the
front of a relative path. -/
def ofPath (path : String) : List Component :=
  let names := (namesOf path).filter fun name => name ≠ ""
  let inner := fun (names : List String) =>
    (names.filter fun name => name ≠ ".").map fun name => if name = ".." then parent else .name name
  if path.toList.head? = some '/' then root :: inner names
  else if names.head? = some "." then current :: inner names
  else inner names

/-- The place of a component among the kinds of components. -/
def rank : Component → Nat
  | root => 0
  | current => 1
  | parent => 2
  | name _ => 3

/-- The name; other components have none. -/
def text : Component → List Char
  | name s => s.toList
  | _ => []

end Component

/-- Order of names by their characters. -/
def charsLe : List Char → List Char → Bool
  | [], _ => true
  | _ :: _, [] => false
  | c :: cs, d :: ds => if c = d then charsLe cs ds else c.toNat < d.toNat

/-- Order of rows of components, component by component. -/
def componentsLe : List Component → List Component → Bool
  | [], _ => true
  | _ :: _, [] => false
  | c :: cs, d :: ds =>
    if c = d then componentsLe cs ds
    else if c.rank = d.rank then charsLe c.text d.text
    else c.rank < d.rank

/-- Order of paths by their components. -/
def pathLe (a b : String) : Bool := componentsLe (Component.ofPath a) (Component.ofPath b)

/-- A path with one more name. -/
def extendPath (directory name : String) : String :=
  if directory.toList.getLast? = some '/' then directory ++ name else directory ++ "/" ++ name

/-- The path of a name in a directory. In the current directory the name alone is enough. -/
def joinPath (directory name : String) : String :=
  if Component.ofPath directory = [.current] then name else extendPath directory name

end ShapeSchema.Runner
