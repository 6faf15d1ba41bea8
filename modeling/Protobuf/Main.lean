import Protobuf.Plugin.Response

/-!
# The plugin as a program

Reads a request from standard input and writes the response to standard output.
Warnings go to standard error, since standard output carries the response.
-/

namespace Protobuf

/-- All bytes of a stream, as many pieces as it takes. -/
partial def readAll (stream : IO.FS.Stream) (read : List UInt8) : IO (List UInt8) := do
  let piece ← stream.read 65536
  if piece.isEmpty then return read else readAll stream (read ++ piece.toList)

/-- Answer the request on standard input. -/
def runPlugin : IO UInt32 := do
  let request ← readAll (← IO.getStdin) []
  let outcome := (Plugin.respondBytes request).run
  let errors ← IO.getStderr
  for w in outcome.warnings do
    errors.putStrLn w.line
  match outcome.value with
  | .ok bytes =>
    let out ← IO.getStdout
    out.write (ByteArray.mk bytes.toArray)
    out.flush
    return 0
  | .error _ =>
    errors.putStrLn "Error: decoding CodeGeneratorRequest"
    return 1

end Protobuf

def main : IO UInt32 :=
  Protobuf.runPlugin
