import TrustSchema.Command.Run

/-!
The tool itself: a run on the files of the system.
-/

namespace TrustSchema

/-- What the system says when a file cannot be read. -/
def readFault : IO.Error → Command.ReadFault
  | .noFileOrDirectory .. => .notFound
  | .inappropriateType .. => .notDirectory
  | .permissionDenied .. => .permissionDenied
  | .resourceExhausted .. => .nameTooLong
  | e => .other (toString e)

/-- The octets of a file of the system. -/
def readSystemFile (path : Text) : IO (Except Command.ReadFault Bytes) := do
  if path.contains '\x00' then return .error .invalidPath
  try
    let content ← IO.FS.readBinFile (String.ofList path)
    return .ok content.toList
  catch e => return .error (readFault e)

end TrustSchema

/-- Runs the tool on the words of the command line. -/
def main (words : List String) : IO UInt32 := do
  let outcome ← TrustSchema.Command.run TrustSchema.readSystemFile (words.map String.toList)
  (← IO.getStdout).putStr (String.ofList outcome.stdout)
  (← IO.getStderr).putStr (String.ofList outcome.stderr)
  return UInt32.ofNat outcome.exit
