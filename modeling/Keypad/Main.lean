import Keypad.CommandLine

/-!
The program. It opens the files that its arguments name, runs the command line on them, and prints
what the run leaves behind.
-/
namespace Keypad.Main

/-- The system's number for a name that is too long; some calls give it with a minus. -/
def isNameTooLong (code : UInt32) : Bool := code == 36 || code == -36

def faultOf : IO.Error → FileFault
  | .noFileOrDirectory .. => .missing
  | .permissionDenied .. => .denied
  | .inappropriateType .. => .notFolder
  | .invalidArgument file code details =>
    if isNameTooLong code then .nameTooLong
    else .other (toString (IO.Error.invalidArgument file code details)).toList
  | other => .other (toString other).toList

def openPath (path : Text) : IO Opened := do
  if path.contains '\x00' then return .refused .zeroInPath
  try
    let bytes ← IO.FS.readBinFile (String.ofList path)
    return .file bytes.toList
  catch
    | .inappropriateType _ 21 _ => return .folder
    | error => return .refused (faultOf error)

def openPaths (arguments : List Text) : IO FileSystem := do
  let paths := ((CommandLine.Arguments.read? arguments).map (·.paths)).getD []
  let opened ← paths.mapM fun path => return (path, ← openPath path)
  return fun path => (opened.lookup path).getD (.refused .missing)

end Keypad.Main

def main (arguments : List String) : IO UInt32 := do
  let arguments := arguments.map String.toList
  let outcome := Keypad.CommandLine.run (← Keypad.Main.openPaths arguments) arguments
  IO.print (String.ofList outcome.stdout)
  IO.eprint (String.ofList outcome.stderr)
  return outcome.code.toUInt32
