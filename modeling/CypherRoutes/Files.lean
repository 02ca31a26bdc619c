/-
# Files

What it means to read a file: a path leads to some octets, which have to be well-formed text, or
it does not, for one of a few reasons. A folder holds files under their names and is read by
paths relative to it.
-/
namespace CypherRoutes

/-! ## Failures -/

/-- Why a path cannot be read as text. -/
inductive FileError where
  | notFound
  | notDirectory
  | isDirectory
  | nameTooLong
  /-- The octets are no well-formed text. -/
  | notText
  /-- Any other reason, in words. -/
  | other (reason : String)
deriving DecidableEq

/-- The reason in words. -/
def FileError.message : FileError → String
  | notFound => "No such file or directory (os error 2)"
  | notDirectory => "Not a directory (os error 20)"
  | isDirectory => "Is a directory (os error 21)"
  | nameTooLong => "File name too long (os error 36)"
  | notText => "stream did not contain valid UTF-8"
  | other reason => reason

/-- What can be read: the octets behind each path. -/
abbrev Files := String → Except FileError ByteArray

/-- The text of a file. -/
def Files.readText (files : Files) (path : String) : Except FileError String := do
  let octets ← files path
  match String.fromUTF8? octets with
  | some text => return text
  | none => throw .notText

/-! ## Paths -/

/-- The parts of a path between its slashes. -/
def pathParts : List Char → List (List Char)
  | [] => [[]]
  | c :: rest =>
    if c == '/' then [] :: pathParts rest
    else match pathParts rest with
      | [] => [[c]]
      | part :: parts => (c :: part) :: parts

/-- Whether a part of a path names something; an empty part and a dot stay where they are. -/
def isNamePart (part : List Char) : Bool := !part.isEmpty && part != ['.']

/-- The last name in a path, if it is one of a file. -/
def fileName? (path : String) : Option (List Char) :=
  ((pathParts path.toList).filter isNamePart).getLast?.filter (· != ['.', '.'])

/-- The part of a file's name behind its last dot, unless that dot begins the name. -/
def extensionOf? (path : String) : Option (List Char) := do
  let name ← fileName? path
  if !name.contains '.' then none
  let after := (name.reverse.takeWhile (· != '.')).reverse
  if after.length + 1 == name.length then none else some after

/-! ## Folders -/

/-- The files in a folder by name. A name may lead through further folders. -/
structure Folder where
  files : List (String × ByteArray)

/-- A place that a path leads to: a folder inside the given one, a file, or something around the
given folder, of which nothing is known. -/
inductive FolderPlace where
  | inside (names : List (List Char))
  | file (octets : ByteArray)
  | outside

namespace Folder

/-- The greatest length of a path and of a name in it, in octets. -/
def greatestPath : Nat := 4095

/-- The greatest length of a name, in octets. -/
def greatestName : Nat := 255

/-- The names on the way to a file. -/
def namesOf (path : String) : List (List Char) := (pathParts path.toList).filter isNamePart

/-- What stands at the end of a list of names. -/
def lookup (f : Folder) (names : List (List Char)) : Option FolderPlace :=
  match f.files.find? fun (path, _) => namesOf path == names with
  | some (_, octets) => some (.file octets)
  | none =>
    if f.files.any fun (path, _) => names.isPrefixOf (namesOf path) then some (.inside names)
    else none

/-- The place after one more part of a path. -/
def step (f : Folder) (here : FolderPlace) (part : List Char) : Except FileError FolderPlace :=
  match here with
  | .file _ => .error .notDirectory
  | .outside =>
    if part == ['.', '.'] || !isNamePart part then .ok .outside
    else if greatestName < (String.ofList part).utf8ByteSize then .error .nameTooLong
    else .error .notFound
  | .inside names =>
    if part == ['.', '.'] then
      .ok (if names.isEmpty then .outside else .inside names.dropLast)
    else if !isNamePart part then .ok here
    else if greatestName < (String.ofList part).utf8ByteSize then .error .nameTooLong
    else match f.lookup (names ++ [part]) with
      | some there => .ok there
      | none => .error .notFound

/-- The octets of the file that a path leads to. A path that begins with a slash leads
outside. -/
def read (f : Folder) : Files := fun path =>
  if greatestPath < path.utf8ByteSize then .error .nameTooLong
  else if path.isEmpty then .error .notFound
  else
    let start : FolderPlace := if path.toList.head? == some '/' then .outside else .inside []
    match (pathParts path.toList).foldlM f.step start with
    | .error e => .error e
    | .ok (.file octets) => .ok octets
    | .ok _ => .error .isDirectory

end Folder

end CypherRoutes
