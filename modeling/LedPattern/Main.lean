import LedPattern.CommandLine.Response

/-!
# The command

Reads the words after the program's name, answers the request that they make, and writes the file
of the answer.

Specification of `pgc`, section 6: the command itself.
-/

namespace LedPattern.CommandLine

/-- The fault that a failed operation on a file reports. -/
def faultOf : IO.Error → FileFault
  | .noFileOrDirectory _ _ _ => .missing
  | .permissionDenied _ _ _ => .denied
  | .inappropriateType _ code _ => if code = 21 then .isDirectory else .notDirectory
  | _ => .unreadable

/-- The contents of a file. -/
def readText (path : String) : IO (Except FileFault String) := do
  try
    let bytes ← IO.FS.readBinFile path
    match String.fromUTF8? bytes with
    | some text => return .ok text
    | none => return .error .notText
  catch e => return .error (faultOf e)

/-- Writes a file. -/
def writeText (save : Save) : IO (Except FileFault Unit) := do
  try
    IO.FS.writeFile save.path save.text
    return .ok ()
  catch e => return .error (faultOf e)

/-- The answer to some words, after its file was written. -/
def serve (words : List String) : IO Response := do
  match Request.ofWords? words with
  | none => return Response.usage
  | some request =>
    let response ← request.respond readText
    match response.save with
    | none => return response
    | some save => return response.afterSave save.path (← writeText save)

end LedPattern.CommandLine

/-- Serves the words after the program's name. -/
def main (words : List String) : IO UInt32 := do
  let response ← LedPattern.CommandLine.serve words
  IO.print response.stdout
  IO.eprint response.stderr
  return response.exit.code.toUInt32
