import PenStream.Image.Png
import PenStream.Tool.Run

namespace PenStream.Tool

-- The number of a system error, which may be given with its sign turned.
def errorNumber (code : UInt32) : Nat :=
  code.toInt32.toInt.natAbs

def hostError : IO.Error → HostError
  | .noFileOrDirectory ..           => .notFound
  | .inappropriateType _ code _     => if errorNumber code = 20 then .notDirectory else .isDirectory
  | e@(.noSuchThing _ code _)       =>
    if errorNumber code = 6 then .noDevice else .other (toString e)
  | e@(.resourceExhausted _ code _) =>
    if errorNumber code = 28 then .noSpace else .other (toString e)
  | e@(.invalidArgument _ code _)   =>
    if errorNumber code = 36 then .nameTooLong else .other (toString e)
  | e                               => .other (toString e)

def attempt (act : IO α) : IO (Except HostError α) := do
  try
    return .ok (← act)
  catch e =>
    return .error (hostError e)

partial def readAll (stream : IO.FS.Stream) (bytes : ByteArray) : IO ByteArray := do
  let more ← stream.read 65536
  if more.isEmpty then return bytes else readAll stream (bytes ++ more)

def processHost : Host IO where
  fileBytes path := attempt (IO.FS.readBinFile path)
  inputBytes := attempt (do readAll (← IO.getStdin) .empty)
  putImage path _ c := attempt (IO.FS.writeBinFile path (Png.encode c))
  write text := do
    let stdout ← IO.getStdout
    stdout.putStr text
    stdout.flush
  log level message := do (← IO.getStderr).putStrLn (logLine level message)
  showBar text := do
    let stderr ← IO.getStderr
    stderr.putStr text
    stderr.flush
  sleep milliseconds := IO.sleep (.ofNat milliseconds)

end PenStream.Tool

open PenStream PenStream.Tool in
def main (args : List String) : IO UInt32 := do
  let exit ← Tool.run processHost args
  let stderr ← IO.getStderr
  match exit with
  | .done     => pure ()
  | .usage    => stderr.putStr helpText
  | .failed e =>
    stderr.putStrLn ("Error: " ++ e.message)
    if let some cause := e.cause? then
      stderr.putStr ("\nCaused by:\n    " ++ cause ++ "\n")
  return exit.code
