import VisualMemory.Machine.Boot

/-!
# Serving interrupts

A poll first accepts requests: every pending source that is let in moves from the controller to
the queue, unless it already waits there or is being served. Then it serves at most one: the oldest
in the queue that is let in and whose level is above the one that is running.

* `Machine.accept`: the first half of a poll.
* `Machine.next?`: the source that the second half serves.
* `Machine.serve`, `Machine.leave`: entering and leaving a service routine.
* `Machine.poll`: both halves, and the source that was served.
-/

namespace VisualMemory.Machine

open Interrupt (Source)

/-- Whether a service routine of the source is in progress. -/
def isServing (m : Machine) (s : Source) : Bool :=
  m.cpu.services.any (·.source == s)

/-- The requests that a poll accepts, in order of priority. -/
def acceptable (m : Machine) : List Source :=
  m.interrupts.pending.filter fun s =>
    m.enable.allows s && !m.cpu.queue.contains s && !m.isServing s

/-- The machine after acceptable requests have moved to the end of the queue. -/
def accept (m : Machine) : Machine :=
  let accepted := m.acceptable
  { m with
    interrupts := accepted.foldl (·.lower ·) m.interrupts
    cpu := { m.cpu with queue := m.cpu.queue ++ accepted } }

/-- Whether a waiting source can be served now. -/
def canServe (m : Machine) (s : Source) : Bool :=
  m.enable.allows s && m.cpu.level < s.level

/-- The source to be served next. -/
def next? (m : Machine) : Option Source :=
  m.cpu.queue.find? m.canServe

/-- The machine in the service routine of a source, the return address on its stack and awake. -/
def enter (m : Machine) (s : Source) : Machine :=
  let returnPc := m.cpu.pc
  let m := m.pushAddress returnPc
  let service : Interrupt.Service :=
    { source := s, returnPc, psw := m.psw, previousLevel := m.cpu.level }
  let m := { m with cpu := { m.cpu with services := service :: m.cpu.services, level := s.level } }
  let m := m.setRegister Register.pcon ((m.register Register.pcon).setBit 0 false)
  (m.jump s.vector).note (.entered s s.vector returnPc)

/-- The machine serving a source: a reset starts over, any other source has a routine. -/
def serve (m : Machine) (s : Source) : Machine :=
  if s = .reset then (m.note .resetRequested).reset else m.enter s

/-- The machine back from a service routine. Without a routine in progress only the address is
taken from the stack and no level remains. -/
def leave (m : Machine) : Machine :=
  let (m, pc) := m.popAddress
  let m := m.jump pc
  match m.cpu.services with
  | service :: services =>
    let m := { m with cpu := { m.cpu with services, level := service.previousLevel } }
    m.note (.left service.source)
  | [] => { m with cpu := { m.cpu with level := .idle } }

/-- One poll, and the source that it served. -/
def poll (m : Machine) : Machine × Option Source :=
  let m := m.accept
  match m.next? with
  | some s =>
    let m := { m with cpu := { m.cpu with queue := m.cpu.queue.eraseP m.canServe } }
    (m.serve s, some s)
  | none => (m, none)

end VisualMemory.Machine
