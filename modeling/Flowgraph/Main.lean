import Flowgraph.CommandLine.Response

/-!
# The command

The command reads its arguments and its source, and prints the answer.
-/

namespace Flowgraph.CommandLine

/-- Why reading a file failed. -/
def ReadFailure.ofError : IO.Error → ReadFailure
  | .noFileOrDirectory .. => .notFound
  | .inappropriateType .. => .isDirectory
  | failure => .other failure.toString

/-- The bytes of the source with a path; a single dash stands for the standard input. -/
def readSource (path : String) : IO (Except ReadFailure ByteArray) := do
  try
    if path == "-" then
      return .ok (← (← IO.getStdin).readBinToEnd)
    else
      return .ok (← IO.FS.readBinFile path)
  catch failure =>
    return .error (.ofError failure)

/-- The answer to a request. -/
def answer : Request → IO Response
  | .version => return versionResponse
  | .usage => return usageResponse
  | .compile invocation => do return invocation.respond (← readSource invocation.path)

end Flowgraph.CommandLine

open Flowgraph.CommandLine in
/-- Answer the arguments of the command. -/
def main (arguments : List String) : IO UInt32 := do
  let response ← answer (.ofArguments arguments)
  IO.print response.output
  IO.eprint response.errors
  return UInt32.ofNat response.exitCode
