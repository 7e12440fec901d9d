/-! # Paths of scripts

A path is a text whose components are parted by slashes. A script file is recognised by its last
component, where slashes and single dots at the end of a path do not count.
-/

namespace BoundedScript.ScriptPath

/-- The texts between the slashes, some of which may be empty. -/
def components : List Char → List (List Char)
  | [] => [[]]
  | '/' :: cs => [] :: components cs
  | c :: cs =>
    match components cs with
    | [] => [[c]]
    | first :: others => (c :: first) :: others

/-- An empty component or a single dot stays where it is. -/
def isIdle (component : List Char) : Bool := component == [] || component == ['.']

/-- The name of the file or directory that a path leads to. -/
def lastName? (path : String) : Option (List Char) :=
  ((components path.toList).reverse.dropWhile isIdle).head?

def extension : List Char := ".proof".toList

/-- Whether a path leads to a script: its last name has the extension, and something before it. -/
def isScript (path : String) : Bool :=
  match lastName? path with
  | some name => extension.isSuffixOf name && extension.length < name.length
  | none => false

end BoundedScript.ScriptPath
