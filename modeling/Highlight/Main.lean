import Highlight.CommandLine.Basic

/-!
# The program

Reads standard input or a file and leaves all else to `CommandLine.run`.
-/

namespace Highlight.CommandLine

/-- Why reading failed, as far as the program distinguishes it. -/
def ReadFault.ofError : IO.Error → ReadFault
  | .noFileOrDirectory .. => .notFound
  | .inappropriateType _ 21 _ => .isDirectory
  | .inappropriateType _ 20 _ => .notDirectory
  | e => .other (toString e)

/-- What a stream still holds, behind the bytes already read. -/
partial def readStream (stream : IO.FS.Stream) (bytes : ByteArray) : IO ByteArray := do
  let chunk ← stream.read 65536
  if chunk.isEmpty then return bytes else readStream stream (bytes ++ chunk)

/-- Reads an input to its end. -/
def readInput (input : Input) : IO (Except ReadFault ByteArray) :=
  try
    match input with
    | .standard => return .ok (← readStream (← IO.getStdin) .empty)
    | .file path => return .ok (← IO.FS.readBinFile path)
  catch e => return .error (.ofError e)

end Highlight.CommandLine

def main (args : List String) : IO UInt32 := do
  let outcome ← Highlight.CommandLine.run .builtin Highlight.CommandLine.readInput args
  (← IO.getStdout).putStr outcome.stdout
  (← IO.getStderr).putStr outcome.stderr
  return outcome.exitCode.toUInt32
