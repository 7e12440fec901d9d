import BoundedScript.FileTree
import BoundedScript.Program

/-! # The command line

Arguments are read from left to right, and the first one that settles the matter decides: a request
for help or for the version, or a mistake. What is left is a script, or the path of one.
-/

namespace BoundedScript.CommandLine

structure Invocation where
  /-- The script, or the path of a script file. -/
  contents : String
  /-- Whether `contents` must be a path. -/
  fromFile : Bool
  limit : Nat
  deriving DecidableEq, Repr

inductive Request where
  | help
  | version
  | run (invocation : Invocation)
  deriving DecidableEq, Repr

inductive UsageError where
  | unknownOption (option : String)
  | repeatedOption (option : String)
  | missingValue (option : String)
  | unexpectedValue (option : String)
  | invalidNumber (text : String)
  | extraArgument (text : String)
  | missingContents
  deriving DecidableEq, Repr

def UsageError.message : UsageError → String
  | unknownOption option => "unexpected argument '" ++ option ++ "' found"
  | repeatedOption option => "the argument '" ++ option ++ "' cannot be used multiple times"
  | missingValue option => "a value is required for '" ++ option ++ "' but none was supplied"
  | unexpectedValue option => "unexpected value for '" ++ option ++ "' found"
  | invalidNumber text => "invalid value '" ++ text ++ "' for '--max-iterations'"
  | extraArgument text => "unexpected argument '" ++ text ++ "' found"
  | missingContents => "the argument <CONTENTS> was not provided"

structure Seen where
  contents : Option String := none
  fromFile : Bool := false
  limit : Option Nat := none

/-- Why reading the arguments may end early. -/
inductive Stop where
  | answer (request : Request)
  | mistake (e : UsageError)

namespace Seen

def finish (seen : Seen) : Except Stop Invocation :=
  match seen.contents with
  | some contents => .ok ⟨contents, seen.fromFile, seen.limit.getD Program.defaultLimit⟩
  | none => .error (.mistake .missingContents)

def addContents (seen : Seen) (text : String) : Except Stop Seen :=
  if seen.contents.isSome then .error (.mistake (.extraArgument text))
  else .ok { seen with contents := some text }

def addFile (seen : Seen) : Except Stop Seen :=
  if seen.fromFile then .error (.mistake (.repeatedOption "--file"))
  else .ok { seen with fromFile := true }

/-- A count: digits, perhaps after a plus sign, in the range of 64 bits. -/
def count? (text : String) : Option Nat :=
  let digits :=
    match text.toList with
    | '+' :: ds => ds
    | ds => ds
  if !digits.isEmpty && digits.all Char.isDigit then
    let n := Nat.ofDigitChars 10 digits 0
    if n < 0x10000000000000000 then some n else none
  else none

def addLimit (seen : Seen) (text : String) : Except Stop Seen :=
  match count? text with
  | none => .error (.mistake (.invalidNumber text))
  | some n =>
    if seen.limit.isSome then .error (.mistake (.repeatedOption "--max-iterations"))
    else .ok { seen with limit := some n }

/-- The effect of an argument, and whether it wants the next argument as its value. -/
abbrev Step := Except Stop (Seen × Bool)

/-- One-letter options behind a single dash. A letter that takes a value takes the rest of the
argument, with or without an equals sign, and the next argument if there is no rest. -/
def short (seen : Seen) : List Char → Step
  | [] => .ok (seen, false)
  | 'h' :: _ => .error (.answer .help)
  | 'V' :: _ => .error (.answer .version)
  | 'f' :: cs => do short (← seen.addFile) cs
  | ['m'] => .ok (seen, true)
  | 'm' :: '=' :: value => do return (← seen.addLimit (.ofList value), false)
  | 'm' :: value => do return (← seen.addLimit (.ofList value), false)
  | c :: _ => .error (.mistake (.unknownOption (.ofList ['-', c])))

/-- An option behind two dashes, whose value may follow an equals sign. -/
def long (seen : Seen) (text : List Char) : Step :=
  let name : String := .ofList (text.takeWhile (· != '='))
  let value? :=
    match text.dropWhile (· != '=') with
    | [] => none
    | _ :: value => some (String.ofList value)
  match name, value? with
  | "help", none => .error (.answer .help)
  | "version", none => .error (.answer .version)
  | "file", none => do return (← seen.addFile, false)
  | "max-iterations", none => .ok (seen, true)
  | "max-iterations", some value => do return (← seen.addLimit value, false)
  | "help", some _ | "version", some _ | "file", some _ =>
    .error (.mistake (.unexpectedValue name))
  | _, _ => .error (.mistake (.unknownOption name))

def argument (seen : Seen) (arg : String) : Step :=
  match arg.toList with
  | '-' :: '-' :: name => seen.long name
  | '-' :: c :: letters => seen.short (c :: letters)
  | _ => do return (← seen.addContents arg, false)

/-- Whether an argument may be the value of the option before it. -/
def isValue (arg : String) : Bool :=
  match arg.toList with
  | '-' :: _ :: _ => false
  | _ => true

/-- Reads all arguments. After `--` none of them is an option. -/
def addAll (seen : Seen) : List String → Except Stop Seen
  | [] => .ok seen
  | "--" :: rest => rest.foldlM addContents seen
  | arg :: rest => do
    match ← seen.argument arg, rest with
    | (seen, false), rest => seen.addAll rest
    | (_, true), [] => .error (.mistake (.missingValue arg))
    | (seen, true), value :: rest =>
      if isValue value then (← seen.addLimit value).addAll rest
      else .error (.mistake (.missingValue arg))

end Seen

def parse (args : List String) : Except UsageError Request :=
  match ({} : Seen).addAll args >>= Seen.finish with
  | .ok invocation => .ok (.run invocation)
  | .error (.answer request) => .ok request
  | .error (.mistake e) => .error e

structure Report where
  exitCode : UInt8 := 0
  stdout : String := ""
  stderr : String := ""
  deriving DecidableEq, Repr

def versionText : String := "proofscript 0.1.0\n"

def helpLines : List String :=
  ["A small imperative scripting language with a tree-walking evaluator",
    "",
    "Usage: proofscript [OPTIONS] <CONTENTS>",
    "",
    "Arguments:",
    "  <CONTENTS>  The script to run, or with `-f` the path of a `.proof` file",
    "",
    "Options:",
    "  -f, --file",
    "          Treat CONTENTS as the path of a `.proof` file instead of a script. " ++
      "Implied when CONTENTS ends in `.proof`",
    "  -m, --max-iterations <MAX_ITERATIONS>",
    "          Maximum number of iterations any single loop may run [default: 10000]",
    "  -h, --help",
    "          Print help",
    "  -V, --version",
    "          Print version"]

def helpText : String := String.intercalate "\n" helpLines ++ "\n"

inductive LoadError where
  | notAScript (path : String)
  | unreadable (path : String) (e : ReadError)
  deriving DecidableEq, Repr

def LoadError.message : LoadError → String
  | notAScript path => "Error: Expected .proof file, got " ++ path
  | unreadable path e => "Error: Failed to read the input file '" ++ path ++ "': " ++ e.text

/-- The script of an invocation. Contents that name a script file are read even without being
asked for. -/
def Invocation.load {m : Type → Type} [Monad m] (read : String → m (Except ReadError String))
    (invocation : Invocation) : m (Except LoadError String) := do
  if ScriptPath.isScript invocation.contents then
    return (← read invocation.contents).mapError (.unreadable invocation.contents)
  else if invocation.fromFile then return .error (.notAScript invocation.contents)
  else return .ok invocation.contents

def report (limit : Nat) (source : String) : Report :=
  match Program.run limit source with
  | .ok (some value) => { stdout := value.text ++ "\n" }
  | .ok none => {}
  | .error e => { exitCode := 1, stderr := e.message ++ "\n" }

/-- Answers a request, reading files with `read`. -/
def Request.answer {m : Type → Type} [Monad m] (read : String → m (Except ReadError String)) :
    Request → m Report
  | .help => return { stdout := helpText }
  | .version => return { stdout := versionText }
  | .run invocation => do
    match ← invocation.load read with
    | .ok source => return report invocation.limit source
    | .error e => return { exitCode := 1, stderr := e.message ++ "\n" }

/-- The whole program: from arguments to what is shown. -/
def run {m : Type → Type} [Monad m] (read : String → m (Except ReadError String))
    (args : List String) : m Report :=
  match parse args with
  | .ok request => request.answer read
  | .error e => return { exitCode := 2, stderr := "error: " ++ e.message ++ "\n" }

end BoundedScript.CommandLine
