import VisualMemory.CommandLine.Number
import VisualMemory.Machine.Boot

/-!
# Command line arguments

The arguments are a sequence of items: switches, settings with the argument behind them as their
value, and file names. Anything else that starts with two dashes is an unknown option.

* `Item`, `items`: the sequence of items in a list of arguments.
* `Arguments`, `Arguments.take`: what the items say, one after the other.
* `Arguments.parse`: what a list of arguments says, or the first thing that is wrong with it.
* `logTarget`, `fileNames`: where the journal goes, and which files are loaded.
-/

namespace VisualMemory.CommandLine

/-! ## Items -/

/-- An option without a value. -/
inductive Switch where
  /-- Start in the user's program. -/
  | direct
  /-- Note every instruction. -/
  | debug
  /-- Write the journal to a file. -/
  | logFile
  deriving DecidableEq, Repr

def Switch.text : Switch → String
  | direct => "--hle"
  | debug => "--debug"
  | logFile => "--log-file"

/-- An option with a value. -/
inductive Setting where
  /-- How many steps to run. -/
  | steps
  /-- Where the user's program starts. -/
  | entry
  deriving DecidableEq, Repr

def Setting.text : Setting → String
  | steps => "--steps"
  | entry => "--entry"

/-- A part of the command line. -/
inductive Item where
  | switch (option : Switch)
  /-- A setting with its value, or without one at the end of the command line. -/
  | setting (option : Setting) (value : Option String)
  | unknown (option : String)
  | file (name : String)
  deriving DecidableEq, Repr

/-- Whether an argument has the form of an option. -/
def isOption (arg : String) : Bool :=
  match arg.toList with
  | '-' :: '-' :: _ => true
  | _ => false

/-- The switch that an argument is. -/
def switch? (arg : String) : Option Switch :=
  [Switch.direct, .debug, .logFile].find? (·.text == arg)

/-- The setting that an argument starts. -/
def setting? (arg : String) : Option Setting :=
  [Setting.steps, .entry].find? (·.text == arg)

/-- The items of a command line. -/
def items : List String → List Item
  | [] => []
  | [arg] =>
    match switch? arg, setting? arg with
    | some option, _ => [.switch option]
    | none, some option => [.setting option none]
    | none, none => [if isOption arg then .unknown arg else .file arg]
  | arg :: next :: args =>
    match switch? arg, setting? arg with
    | some option, _ => .switch option :: items (next :: args)
    | none, some option => .setting option (some next) :: items args
    | none, none => (if isOption arg then .unknown arg else .file arg) :: items (next :: args)

/-! ## Arguments -/

/-- Where the journal goes. -/
inductive LogTarget where
  | console
  | file
  deriving DecidableEq, Repr

/-- What a command line asks for. -/
structure Arguments where
  bios : Option String := none
  flash : Option String := none
  config : Config := {}
  steps : Option Nat := none
  debug : Bool := false
  log : LogTarget := .console

/-- What is wrong with a command line. -/
inductive ArgumentError where
  | missingValue (option : Setting)
  | invalidNumber (option : Setting) (error : NumberError)
  | unknownOption (option : String)
  deriving DecidableEq, Repr

def ArgumentError.message : ArgumentError → String
  | missingValue option => s!"{option.text} needs a value"
  | invalidNumber option error => s!"{option.text}: {error.message}"
  | unknownOption option => s!"unknown option {option}"

namespace Setting

/-- The number that a setting's value stands for: a decimal count of steps, or a hexadecimal address
with marks in front if one likes. -/
def read (option : Setting) (value : String) : Except NumberError Nat :=
  match option with
  | steps => readNumber 10 0x10000000000000000 value.toList
  | entry => readNumber 16 0x10000 (dropMarks value.toList)

end Setting

namespace Arguments

def takeSwitch (a : Arguments) : Switch → Arguments
  | .direct => { a with config := { a.config with direct := true } }
  | .debug => { a with debug := true }
  | .logFile => { a with log := .file }

def takeSetting (a : Arguments) (option : Setting) (n : Nat) : Arguments :=
  match option with
  | .steps => { a with steps := some n }
  | .entry => { a with config := { a.config with entry := .ofNat n } }

/-- The arguments with one more file: firmware first, then flash, the rest does not count. -/
def takeFile (a : Arguments) (name : String) : Arguments :=
  match a.bios, a.flash with
  | none, _ => { a with bios := some name }
  | some _, none => { a with flash := some name }
  | some _, some _ => a

def take (a : Arguments) : Item → Except ArgumentError Arguments
  | .switch option => .ok (a.takeSwitch option)
  | .setting option none => .error (.missingValue option)
  | .setting option (some value) =>
    match option.read value with
    | .ok n => .ok (a.takeSetting option n)
    | .error e => .error (.invalidNumber option e)
  | .unknown option => .error (.unknownOption option)
  | .file name => .ok (a.takeFile name)

/-- What a list of arguments asks for. -/
def parse (args : List String) : Except ArgumentError Arguments :=
  (items args).foldlM take {}

end Arguments

/-- Where the journal goes under a list of arguments; a wrong one leaves it on the console. -/
def logTarget (args : List String) : LogTarget :=
  match Arguments.parse args with
  | .ok a => a.log
  | .error _ => .console

/-- The names of the files that a list of arguments asks for; a single dash is no name of firmware. -/
def fileNames (args : List String) : List String :=
  match Arguments.parse args with
  | .ok a => (a.bios.filter (· != "-")).toList ++ a.flash.toList
  | .error _ => []

end VisualMemory.CommandLine
