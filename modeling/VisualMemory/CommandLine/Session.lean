import VisualMemory.CommandLine.Arguments
import VisualMemory.CommandLine.Files
import VisualMemory.Decimal.Fixed
import VisualMemory.Machine.Step

/-!
# Sessions

A session reads the command line, loads the files, assembles a machine, runs it and sums up.

* `Ending`: how a session can end, and its exit code.
* `firmware?`, `load`, `start`, `play`: the stages.
* `Session.run`: a whole session, from arguments and files to everything that it prints.
* `World`: what a session asks of the world that it runs in.
* `Session.runIn`, `Session.runOn`: a session in a world, and one on a disk.
-/

namespace VisualMemory.CommandLine

/-- How a session ends. -/
inductive Ending where
  | finished
  /-- The command line is of no use. -/
  | usage
  /-- A file cannot be loaded. -/
  | unreadable
  /-- The machine cannot be assembled. -/
  | refused
  deriving DecidableEq, Repr

def Ending.code : Ending → Nat
  | finished => 0
  | usage => 1
  | unreadable => 2
  | refused => 3

/-! ## Stages -/

/-- The firmware file to load: none if a machine starts without firmware; and no answer if it has to
be given and is not. A single dash stands for no file. -/
def firmware? (a : Arguments) : Option (Option String) :=
  match a.bios.filter (· != "-") with
  | some name => some (some name)
  | none => if a.config.direct then some none else none

/-- The contents of a file, if it can be loaded; without a file there are none. -/
def load (files : Files) (j : Journal) : Option String → Journal × Option (Array UInt8)
  | none => (j, some #[])
  | some name =>
    let j := j.note (.loading name)
    match files name with
    | .ok bytes => (j, some bytes)
    | .error e => (j.note (.unreadable name e.message), none)

/-- The machine that the arguments ask for, or how the session ends without one. -/
def start (a : Arguments) (files : Files) (j : Journal) : Except (Ending × Journal) Machine :=
  match firmware? a with
  | none => .error (.usage, j)
  | some bios =>
    match load files j bios with
    | (j, none) => .error (.unreadable, j)
    | (j, some bios) =>
      match load files j a.flash with
      | (j, none) => .error (.unreadable, j)
      | (j, some flash) =>
        match Machine.boot bios flash a.config j with
        | .error e => .error (.refused, j.note (.refused e.message))
        | .ok m => .ok { m with debug := a.debug }

/-- The machine after its run, and the cycles that passed: the steps asked for, or one second. -/
def play (a : Arguments) (m : Machine) : Machine × Nat :=
  match a.steps with
  | some steps => m.runSteps 0 steps
  | none => m.runFor a.config.frequency.toUInt64.toNat

/-- The journal with the state at the end of a run. -/
def summary (m : Machine) (cycles : Nat) : Journal :=
  let j := m.journal.note (.finished m.cpu.instructions.toNat cycles m.cpu.pc)
  let j := if m.interrupts.pending.isEmpty then j else j.note (.stillPending m.interrupts.pending)
  match m.buzzer.tone m.cpu.frequency with
  | some hertz => j.note (.sounding (Decimal.tenths hertz))
  | none => j

/-! ## Output -/

/-- What a session leaves behind. -/
structure Session where
  exitCode : Nat
  /-- The text on the console. -/
  console : String
  /-- The text for the end of the journal file, if the journal goes there. -/
  log : Option String
  deriving DecidableEq, Repr

/-- The first line. -/
def title : String := "vmu v0.1.0"

def usage : String :=
  "usage: vmu <bios> <flash> [--hle] [--entry ADDR] [--steps N] [--debug] [--log-file]"

/-- What the console shows of an ending besides the journal. -/
def Ending.notice : Ending → List String
  | usage => ["no BIOS given :(", CommandLine.usage]
  | _ => []

namespace Session

/-- How the stages end, and the journal of all that happened. -/
def perform (a : Arguments) (files : Files) (j : Journal) : Ending × Journal :=
  match start a files j with
  | .error ended => ended
  | .ok m =>
    let (m, cycles) := play a m
    (.finished, summary m cycles)

/-- A text of one line after the other; a line may hold line ends of its own. -/
def printed (lines : List String) : String :=
  String.join (lines.map (· ++ "\n"))

/-- A whole session. The journal takes events at the threshold; `logPath` is where it goes if it is
not to go to the console. -/
def run (args : List String) (files : Files) (threshold : Option Severity) (logPath : String) :
    Session :=
  match Arguments.parse args with
  | .error e =>
    { exitCode := Ending.usage.code, console := printed [title, e.message, usage], log := none }
  | .ok a =>
    let (ending, journal) := perform a files { threshold }
    let log := journal.events.toList.map (·.fullLine)
    match a.log with
    | .console =>
      { exitCode := ending.code, console := printed (title :: ending.notice ++ log), log := none }
    | .file =>
      { exitCode := ending.code
        console := printed ([title, s!"Logging to file: \"{logPath}\""] ++ ending.notice)
        log := some (printed log) }

end Session

/-! ## In the world -/

/-- What a session asks of the world that it runs in. -/
structure World (m : Type → Type) where
  /-- The files with some names, as they are. -/
  files : List String → m Files
  /-- Opens the journal file, or ends the process with an exit code. -/
  openLog : m (Except Nat Unit)
  /-- Adds a text to the end of the journal file. -/
  writeLog : String → m Unit

/-- The exit code of a process that has panicked. -/
def panicCode : Nat := 101

/-- A disk with the journal file at a path. If that cannot be opened the process panics. -/
def World.ofDisk (log : Path) : World (StateM Disk) where
  files _ := return (← get).read
  openLog := do
    match (← get).append? log #[] with
    | some d =>
      set d
      return .ok ()
    | none => return .error panicCode
  writeLog text := modify fun d => (d.append? log text.toUTF8.data).getD d

namespace Session

/-- What is left of a session that has ended over its journal file. -/
def unlogged (code : Nat) : Session :=
  { exitCode := code, console := printed [title], log := none }

/-- A session in a world. Its journal file is open before any other file is loaded. -/
def runIn {m : Type → Type} [Monad m] (world : World m) (args : List String)
    (threshold : Option Severity) (logPath : String) : m Session := do
  match logTarget args with
  | .console => return run args (← world.files (fileNames args)) threshold logPath
  | .file =>
    match ← world.openLog with
    | .error code => return unlogged code
    | .ok () =>
      let session := run args (← world.files (fileNames args)) threshold logPath
      world.writeLog (session.log.getD "")
      return session

/-- A session on a disk, with its journal file at `log`, and the disk after it. -/
def runOn (args : List String) (d : Disk) (threshold : Option Severity) (log : Path)
    (logPath : String) : Session × Disk :=
  runIn (World.ofDisk log) args threshold logPath d

end Session

end VisualMemory.CommandLine
