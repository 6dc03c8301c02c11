import PacketReplay.Program.Report
import PacketReplay.Program.Session

/-!
# The command line

`report` writes or sums up the timeline of a capture, `replay` plays it. Everything is decided by the pure programs:
here the files that a command line names are read, then standard input to its end, and an outcome is carried out.
-/
namespace PacketReplay.Main

def fileError : IO.Error → FileError
  | .noFileOrDirectory .. => .notFound
  | .inappropriateType _ _ details => if details = "not a directory" then .notADirectory else .isADirectory
  | .invalidArgument _ _ details =>
    if details = "name too long" then .nameTooLong else .other details
  | .permissionDenied .. => .permissionDenied
  | .noSuchThing .. => .noDevice
  | .resourceExhausted .. => .noSpace
  | error => .other (toString error)

def readFile (path : String) : IO (Except FileError Source) := do
  try return .ok (.file (← IO.FS.readBinFile path))
  catch error => return .error (fileError error)

/-- The files that the options name. Whether a path can be written, and where it leads, shows when it is written. -/
def gather (asked : Option (Request CaptureOptions)) : IO Files := do
  let paths := match asked with
    | some (.run options) => options.config.toList ++ [options.log]
    | _ => []
  let found ← paths.mapM fun path => return (path, ← readFile path)
  return ⟨fun path => (found.lookup path).getD (.error .notFound), fun _ => .ok .file⟩

/-- The bytes of a stream up to its end. -/
partial def readBytes (stream : IO.FS.Stream) (bytes : ByteArray) : IO ByteArray := do
  let next ← stream.read 65536
  if next.isEmpty then return bytes else readBytes stream (bytes ++ next)

def runReport (arguments : List String) : IO Outcome := do
  let files ← gather ((ReportOptions.ofArguments? arguments).map (Request.map ReportOptions.capture))
  return report files arguments []

def runReplay (arguments : List String) : IO Outcome := do
  let files ← gather (CaptureOptions.ofArguments? arguments)
  let silent := replay files arguments []
  -- What does not end well without commands does not wait for any.
  if silent.ended = .well then
    return replay files arguments (← readBytes (← IO.getStdin) ByteArray.empty).toList
  else return silent

/-- The outcome once its file is written, if it has one. -/
def write (outcome : Outcome) : IO Outcome := do
  match outcome.written with
  | none => return outcome
  | some (path, text) =>
    try
      -- A device without space refuses only what is flushed.
      IO.FS.withFile path .write fun file => do
        file.putStr text
        file.flush
      return outcome
    catch error => return ⟨.failed (.output (fileError error)), "", none⟩

def conclude (outcome : Outcome) : IO UInt32 := do
  IO.print outcome.printed
  match outcome.ended with
  | .well => pure ()
  | .helped => IO.println "usage: report|replay --log <file> [options]"
  | .refused => IO.eprintln "error: the command line was not understood"
  | .failed failure => IO.eprintln failure.report
  return UInt32.ofNat outcome.ended.exitCode

end PacketReplay.Main

def main (arguments : List String) : IO UInt32 := do
  match arguments with
  | "report" :: arguments =>
    PacketReplay.Main.conclude (← PacketReplay.Main.write (← PacketReplay.Main.runReport arguments))
  | "replay" :: arguments => PacketReplay.Main.conclude (← PacketReplay.Main.runReplay arguments)
  | _ => PacketReplay.Main.conclude .refused
