import RecordLayout.CommandLine

/-!
The program: reads the standard input or a file, and writes the report.
-/

namespace RecordLayout.CommandLine

/-- What the system says about a file that cannot be read. -/
def faultOf : IO.Error → ReadFault
  | .noFileOrDirectory .. => .notFound
  | .inappropriateType _ 21 _ => .isDirectory
  | .inappropriateType _ code _ => .other s!"Not a directory (os error {code})"
  | .permissionDenied _ code _ => .other s!"Permission denied (os error {code})"
  | error => .other error.toString

partial def readAll (stream : IO.FS.Stream) (bytes : ByteArray) : IO ByteArray := do
  let more ← stream.read 65536
  if more.isEmpty then
    return bytes
  else
    readAll stream (bytes ++ more)

/-- The text of a file, or of the standard input where no file is named. -/
def readSource (file : Option String) : IO (Except ReadFault String) := do
  try
    let bytes ← match file with
      | some path => IO.FS.readBinFile path
      | none => readAll (← IO.getStdin) ByteArray.empty
    return decodeText bytes
  catch error =>
    return .error (faultOf error)

end RecordLayout.CommandLine

def main (args : List String) : IO UInt32 := do
  let report ← RecordLayout.CommandLine.run RecordLayout.CommandLine.readSource args
  (← IO.getStdout).putStr report.output
  (← IO.getStdout).flush
  (← IO.getStderr).putStr report.errors
  return report.status.toUInt32
