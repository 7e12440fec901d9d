import BoundedScript.CommandLine

/-! # The executable

Reads script files from disk and shows the report of a run.
-/

namespace BoundedScript

def ReadError.ofIOError : IO.Error → ReadError
  | .noFileOrDirectory .. => .notFound
  | .inappropriateType _ 21 _ => .isADirectory
  | .inappropriateType .. => .notADirectory
  | e => .other (toString e)

def readScript (path : String) : IO (Except ReadError String) := do
  try return decodeText (← IO.FS.readBinFile path)
  catch e => return .error (.ofIOError e)

end BoundedScript

def main (args : List String) : IO UInt32 := do
  let report ← BoundedScript.CommandLine.run BoundedScript.readScript args
  (← IO.getStdout).putStr report.stdout
  (← IO.getStderr).putStr report.stderr
  return report.exitCode.toUInt32
