/-!
# The program bank and its latch

Programs run from ROM or from flash. The choice is a register bit, but a change reaches the
processor late: it is noted when an instruction retires and takes hold when the next one is
fetched, so no instruction is read from two memories.

* `Bank`: the two program memories.
* `BankLatch`: the bank in use and the change that waits, if any.
-/

namespace VisualMemory

/-- A program memory. -/
inductive Bank where
  | rom
  | flash
  deriving DecidableEq, Repr

namespace Bank

/-- The bank that a value of the select register chooses, by its bit 0. -/
def ofByte (ext : UInt8) : Bank :=
  if ext &&& 1 == 0 then .rom else .flash

/-- The value of the select register that chooses the bank. -/
def toByte : Bank → UInt8
  | .rom => 0
  | .flash => 1

def name : Bank → String
  | .rom => "Rom"
  | .flash => "Flash"

def all : List Bank := [.rom, .flash]

end Bank

/-- The bank in use, and the one that the next fetch switches to when it differs. -/
structure BankLatch where
  current : Bank := .rom
  pending : Option Bank := none
  deriving DecidableEq, Repr

namespace BankLatch

/-- The bank that the next fetch uses. -/
def latest (l : BankLatch) : Bank :=
  l.pending.getD l.current

/-- Notes the bank selected when an instruction retires; the bank in use is no change. -/
def latch (l : BankLatch) (selected : Bank) : BankLatch :=
  { l with pending := if selected = l.current then none else some selected }

/-- Switches to the noted bank. -/
def commit (l : BankLatch) : BankLatch :=
  { current := l.latest }

/-- Whether `commit` has a switch to make. -/
def isPending (l : BankLatch) : Bool :=
  l.pending.isSome

end BankLatch

end VisualMemory
