import VisualMemory.CommandLine.Session

/-!
# The command line program

Loads the files that the arguments name, runs a session and prints what it leaves behind. The
environment variable `VMU_LOG` holds the journal's threshold (`off`, `error`, `warn`, `info`,
`debug` or `trace`; `info` without it), and `TMPDIR` the directory of the journal file.
-/

namespace VisualMemory.CommandLine

/-- The threshold with a name; unknown names count as `info`. -/
def thresholdOf (name : Option String) : Option Severity :=
  match name.map (·.toLower) with
  | some "off" => none
  | some "error" => some .error
  | some "warn" => some .warn
  | some "debug" => some .debug
  | some "trace" => some .trace
  | _ => some .info

/-- The number of a system error, which some operations report with a minus sign. -/
def errorNumber (code : UInt32) : Nat :=
  min code.toNat (0 - code).toNat

/-- Why a file cannot be loaded, by the number of the system error and its name. -/
def loadErrorOf (code : UInt32) (details : String) : LoadError :=
  match errorNumber code with
  | 2 => .missing
  | 13 => .denied
  | 20 => .notFolder
  | 21 => .folder
  | 36 => .nameTooLong
  | number => .other s!"{details} (os error {number})"

def contentsOf (name : String) : IO (Except LoadError (Array UInt8)) := do
  try
    return .ok (← IO.FS.readBinFile name).data
  catch
    | .noFileOrDirectory _ code details => return .error (loadErrorOf code details)
    | .inappropriateType _ code details => return .error (loadErrorOf code details)
    | .invalidArgument _ code details => return .error (loadErrorOf code details)
    | .permissionDenied _ code details => return .error (loadErrorOf code details)
    | e => return .error (.other (toString e))

def filesOf (names : List String) : IO Files := do
  let contents ← names.mapM fun name => return (name, ← contentsOf name)
  return fun name => (contents.lookup name).getD (.error .missing)

/-- Adds a text to the end of a file, which is new if it is not there. -/
def appendTo (path text : String) : IO Unit := do
  let file ← IO.FS.Handle.mk path .append
  file.putStr text

/-- The file system, with the journal file in a folder, which is made if it is not there. Without a
journal file the process panics. -/
def World.real (folder logPath : String) : World IO where
  files := filesOf
  openLog := do
    try
      try
        appendTo logPath ""
      catch _ =>
        IO.FS.createDirAll folder
        appendTo logPath ""
      return .ok ()
    catch _ =>
      return .error panicCode
  writeLog text := do
    try
      appendTo logPath text
    catch _ =>
      return

end VisualMemory.CommandLine

open VisualMemory.CommandLine in
/-- Runs a session with the arguments of the process. -/
def main (args : List String) : IO UInt32 := do
  let threshold := thresholdOf (← IO.getEnv "VMU_LOG")
  let folder := (← IO.getEnv "TMPDIR").getD "/tmp"
  let logPath := folder ++ "/vmu.log"
  let session ← Session.runIn (World.real folder logPath) args threshold logPath
  IO.print session.console
  return .ofNat session.exitCode
