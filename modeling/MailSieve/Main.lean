import MailSieve.CommandLine.Session

/-!
# The program

Reads files and prints for a session of the command line.
-/

namespace MailSieve.CommandLine

def fileError : IO.Error → FileError
  | .noFileOrDirectory .. => .notFound
  | .inappropriateType _ 20 _ => .notDirectory
  | .inappropriateType _ 21 _ => .isDirectory
  | .invalidArgument _ 36 _ => .nameTooLong
  | e => .other (toString e)

def readFileBytes (path : String) : IO (Except FileError (List UInt8)) := do
  try
    return .ok (← IO.FS.readBinFile path).data.toList
  catch e =>
    return .error (fileError e)

def defaultSettingsPath : IO (Option String) := do
  let below (dir : String) := dir ++ "/" ++ programName ++ "/registry.json"
  match ← IO.getEnv "XDG_CONFIG_HOME" with
  | some dir => if dir.startsWith "/" then return some (below dir)
  | none => pure ()
  return (← IO.getEnv "HOME").map fun home => below (home ++ "/.config")

def readAllInput (stream : IO.FS.Stream) : IO (List UInt8) := do
  let mut bytes : ByteArray := .empty
  repeat
    let chunk ← stream.read 65536
    if chunk.isEmpty then break
    bytes := bytes ++ chunk
  return bytes.data.toList

def readSource : Source → IO (Except FileError (List UInt8))
  | .file path => readFileBytes path
  | .standardInput => return .ok (← readAllInput (← IO.getStdin))
  | .defaultSettings => do
    match ← defaultSettingsPath with
    | some path => readFileBytes path
    | none => return .error .notFound

def drive : Session → IO UInt32
  | .read source next => do drive (next (← readSource source))
  | .done report => do
    IO.print report.output
    match report.errors with
    | some text => IO.eprint text
    | none => pure ()
    return report.exitCode.toUInt32

end MailSieve.CommandLine

def main (args : List String) : IO UInt32 :=
  MailSieve.CommandLine.drive (.start args)
