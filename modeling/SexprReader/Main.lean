import SexprReader.Cli

/-!
# The program

The command over the real standard input and file system.  The log is shown when the environment
variable `LISPISH_DEBUG` is set and not empty.
-/

namespace SexprReader

namespace Cli

/-- All bytes of a stream from here on, behind `found`. -/
partial def readAll (stream : IO.FS.Stream) (found : ByteArray) : IO ByteArray := do
  let chunk ← stream.read 65536
  if chunk.isEmpty then return found
  else readAll stream (found ++ chunk)

/-- The bytes of a file, if it can be read. -/
def readFile? (path : Path) : IO (Option ByteArray) := do
  try
    return some (← IO.FS.readBinFile path.toText)
  catch _ => return none

end Cli

end SexprReader

open SexprReader in
def main (args : List String) : IO UInt32 := do
  let showLog := ((← IO.getEnv "LISPISH_DEBUG").getD "") != ""
  let input : IO ByteArray := do Cli.readAll (← IO.getStdin) ByteArray.empty
  match ← Cli.run input Cli.readFile? showLog args with
  | .ok outcome =>
    IO.eprint outcome.err
    IO.print outcome.out
    return outcome.exitCode.toUInt32
  | .error .notUtf8 =>
    IO.eprintln "the text is not UTF-8"
    return 1
  | .error (.settings cause) =>
    IO.eprintln cause.message
    return 1
