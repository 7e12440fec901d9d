import BoundedScript.ScriptPath

/-! # Reading files

`ReadError` lists the ways in which reading a file can fail. A `FileTree` is a directory held in
memory; reading from it fails for the same reasons as reading from disk.
-/

namespace BoundedScript

inductive ReadError where
  | notFound
  | notADirectory
  | isADirectory
  | invalidText
  | other (reason : String)
  deriving DecidableEq, Repr

def ReadError.text : ReadError → String
  | notFound => "No such file or directory (os error 2)"
  | notADirectory => "Not a directory (os error 20)"
  | isADirectory => "Is a directory (os error 21)"
  | invalidText => "stream did not contain valid UTF-8"
  | other reason => reason

def decodeText (bytes : ByteArray) : Except ReadError String :=
  match String.fromUTF8? bytes with
  | some text => .ok text
  | none => .error .invalidText

/-- Files and directories below a root. Places are lists of names from the root. -/
structure FileTree where
  files : List (List (List Char) × ByteArray) := []
  directories : List (List (List Char)) := []

namespace FileTree

/-- The place that a path without upward steps names. -/
def placeOf (path : String) : List (List Char) :=
  (ScriptPath.components path.toList).filter (!ScriptPath.isIdle ·)

def addDirectory (tree : FileTree) (path : String) : FileTree :=
  { tree with directories := placeOf path :: tree.directories }

def addFile (tree : FileTree) (path : String) (bytes : ByteArray) : FileTree :=
  { tree with files := (placeOf path, bytes) :: tree.files }

/-- A place is a directory if it is the root, was made as one or has something below it. -/
def isDirectory (tree : FileTree) (place : List (List Char)) : Bool :=
  place == [] || tree.directories.any place.isPrefixOf ||
    tree.files.any fun (file, _) => file != place && place.isPrefixOf file

/-- The place that a path leads to, starting in the directory `place`. Going up from the root leads
nowhere. -/
def walk (tree : FileTree) (place : List (List Char)) :
    List (List Char) → Except ReadError (List (List Char))
  | [] => .ok place
  | component :: rest =>
    if !tree.isDirectory place then .error .notADirectory
    else if ScriptPath.isIdle component then tree.walk place rest
    else if component = ['.', '.'] then
      if place = [] then .error .notFound else tree.walk place.dropLast rest
    else
      let next := place ++ [component]
      if tree.isDirectory next || (tree.files.lookup next).isSome then tree.walk next rest
      else .error .notFound

def read (tree : FileTree) (path : String) : Except ReadError String :=
  match path.toList with
  | [] | '/' :: _ => .error .notFound
  | cs => do
    let place ← tree.walk [] (ScriptPath.components cs)
    match tree.files.lookup place with
    | some bytes => decodeText bytes
    | none => .error .isADirectory

end FileTree

end BoundedScript
