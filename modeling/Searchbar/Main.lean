import Searchbar.Trace

/-!
# The command line

Reads the schema file, runs the trace, and writes what it leaves behind.
-/

namespace Searchbar

/-- Why the system could not read a file. -/
def ReadFailure.ofError : IO.Error → ReadFailure
  | .noFileOrDirectory _ _ _ => .notFound
  | .inappropriateType _ code _ => if code = 21 then .isDirectory else .notDirectory
  | e => .other (toString e)

/-- The bytes at a path, or why there are none. -/
def readBytes (path : String) : IO (Except ReadFailure ByteArray) := do
  try
    return .ok (← IO.FS.readBinFile path)
  catch e =>
    return .error (ReadFailure.ofError e)

end Searchbar

/-- The program. -/
def main (args : List String) : IO UInt32 := do
  let bytes ← Searchbar.readBytes (args.headD "")
  let outcome := Searchbar.Trace.run (fun _ => bytes) args
  IO.print outcome.output
  IO.eprint outcome.errors
  return outcome.exitCode.toUInt32
