import HeapChurn.Error
import HeapChurn.Folder.Place
import HeapChurn.Text.Writing

/-!
# Folders

A folder of files, and as much of the machine around it as a command can reach by the paths it is
given. A path is a list of names with slashes between them and is followed name by name, through
folders only: an empty name and a point stay where they are, and two points lead to the folder
around.
-/

namespace HeapChurn

/-- What comes of reading a whole file. -/
abbrev Contents : Type := Except IoError (List UInt8)

/-- The contents as text. -/
def Contents.text (contents : Contents) : Except IoError String := do
  match Utf8.decode? (← contents) with
  | some text => .ok text
  | none => .error .invalidUtf8

/-- Files by the names on the way to them. A folder within exists if a file lies in it. -/
structure Folder where
  files : List (Place × List UInt8) := []
  deriving Repr, DecidableEq

namespace Folder

/-- What may stand at a place. -/
inductive Occupant where
  | folder
  | file (contents : List UInt8)
  | device (d : Device)
  | vacant
  deriving Repr, DecidableEq

/-- What stands at a place. -/
def find (f : Folder) (place : Place) : Occupant :=
  match place.device?, f.files.lookup place with
  | some d, _ => .device d
  | none, some contents => .file contents
  | none, none =>
    if place.isStandardFolder ∨ f.files.any fun (names, _) => place.isPrefixOf names then .folder
    else .vacant

/-- The bytes of the longest name that a folder can hold. -/
def longestName : Nat := 255

/-- The bytes of the longest path. -/
def longestPath : Nat := 4095

/-- The names of a path. -/
def names (path : String) : List String := path.splitOn "/"

/-- Follows names from a place to another one. -/
def walk (f : Folder) : Place → List String → Except IoError Place
  | place, [] => .ok place
  | place, name :: rest =>
    match f.find place with
    | .file _ | .device _ => .error .notDirectory
    | .vacant => .error .notFound
    | .folder =>
      if name = "" ∨ name = "." then walk f place rest
      else if name = ".." then walk f place.up rest
      else if longestName < name.utf8ByteSize then .error .nameTooLong
      else walk f (place ++ [name]) rest

/-- Follows names from where a path starts: from the outermost folder if a slash is in front. -/
def follow (f : Folder) (path : String) (names : List String) : Except IoError Place :=
  if path = "" then .error .notFound
  else if longestPath < path.utf8ByteSize then .error .nameTooLong
  else f.walk (if path.startsWith "/" then .root else []) names

/-- The place that a path leads to. -/
def resolve (f : Folder) (path : String) : Except IoError Place := f.follow path (names path)

/-- The contents of a file. Of the devices, none has anything to read. -/
def read (f : Folder) (path : String) : Contents := do
  match f.find (← f.resolve path) with
  | .file contents => .ok contents
  | .device d => if d = .terminal then .error .noDevice else .ok []
  | .folder => .error .isDirectory
  | .vacant => .error .notFound

/-- Gives a file its contents. -/
def put (f : Folder) (place : Place) (contents : List UInt8) : Folder :=
  { files := f.files.filter (fun file => file.1 ≠ place) ++ [(place, contents)] }

/-- The names before the last one, if a slash behind that one says that it names a folder. -/
def beforeFolder? (path : String) : Option (List String) :=
  match (names path).reverse with
  | "" :: rest =>
    match rest.dropWhile (· = "") with
    | [] => none
    | last :: before => if last = "." ∨ last = ".." then none else some before.reverse
  | _ => none

/-- The place that a path names for writing, whether a file is there or can be made there. A name
with a slash behind it is refused without a look at what it names, once the way to it is found. -/
def target (f : Folder) (path : String) : Except IoError Place := do
  match beforeFolder? path with
  | some before =>
    let _ ← f.follow path (before ++ ["."])
    .error .isDirectory
  | none =>
    let place ← f.resolve path
    match f.find place with
    | .folder => .error .isDirectory
    | .file _ => .ok place
    | .device d => if d = .terminal then .error .noDevice else .ok place
    | .vacant =>
      if Place.systemFolders.contains place.dropLast then .error .notFound else .ok place

end Folder

end HeapChurn
