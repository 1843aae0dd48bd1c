import VisualMemory.Proofs.Interrupt.WakeUp
import VisualMemory.Proofs.Program.Stack

/-!
# A service routine returns to where it interrupted

What a return needs is kept twice: the address lies on the stack in RAM, the level in the list of
routines in progress. A routine that leaves both as it found them, whatever else it does and
whatever interrupts it in turn, gives the processor back as it was.

* `Machine.Resumes`: the processor goes on where another one was.
* `Machine.Suspends`: a machine holds all that is needed to go on where another one was.
* `Machine.suspends_poll`: so it does right after a source was served.
* `Machine.Suspends.resumes_leave`, `Machine.Suspends.resumes_processInstruction`: the return.
* `interrupt_transparent`: both ends, and what is left in RAM by a routine that only returns.
-/

namespace VisualMemory

open Interrupt (Source Service)

namespace Machine

/-- `n` goes on where `m` was, at its level and in its service routines. -/
structure Resumes (m n : Machine) : Prop where
  pc : n.cpu.pc = m.cpu.pc
  sp : n.register Register.sp = m.register Register.sp
  level : n.cpu.level = m.cpu.level
  services : n.cpu.services = m.cpu.services

/-- In `n` a service routine is in progress that interrupted `m`, and the address on top of the
stack is the one where `m` goes on. -/
structure Suspends (n m : Machine) : Prop where
  sp : n.register Register.sp = m.register Register.sp + 2
  low : n.ram.cell (Ram.stackCell (m.register Register.sp + 1)) = m.cpu.pc.lowByte
  high : n.ram.cell (Ram.stackCell (m.register Register.sp + 2)) = m.cpu.pc.highByte
  services : ∃ r, r.previousLevel = m.cpu.level ∧ n.cpu.services = r :: m.cpu.services

/-! ## Entering -/

theorem cell_enter_of_clocked {m : Machine} (h : m.Clocked) (s : Source) (c : Ram.Cell) :
    (m.enter s).ram.cell c =
      if .register 0x07 = c then (m.ram.cell c).setBit 0 false
      else (m.pushAddress m.cpu.pc).ram.cell c := by
  let pushed := m.pushAddress m.cpu.pc
  have hram : (m.enter s).ram =
      pushed.ram.setCell (.register 0x07) ((pushed.register Register.pcon).setBit 0 false) := rfl
  have hpushed : pushed.Clocked :=
    h.outside ((Keeps.push m _).trans (Keeps.push _ _)).stays.toOutside
  have hpcon : pushed.register Register.pcon = m.ram.cell (.register 0x07) := by
    have hread : pushed.register Register.pcon = pushed.ram.cell (.register 0x07) :=
      hpushed.latches.read_eq_cell (show ¬ Ram.IsCounter 0x07 by decide)
    rw [hread, cell_pushAddress, if_neg (by decide), if_neg nofun, if_neg nofun]
  rw [hram, hpcon, Ram.cell_setCell]
  split
  · rename_i hc
    rw [← hc]
  · rfl

theorem suspends_enter {m : Machine} (h : m.Clocked) (s : Source) : (m.enter s).Suspends m := by
  have hsp := h.stackPointer_eq
  have hentered : (m.enter s).Clocked := ⟨h.timer0, h.timer1,
    Ram.onlyCounters_of_latches h.latches (enter_latches m s)⟩
  refine ⟨?_, ?_, ?_, m.serviceOf s, rfl, enter_services m s⟩
  · rw [hentered.stackPointer_eq, hsp, stackPointer_eq_cell, cell_enter_of_clocked h,
      if_neg (by decide), cell_pushAddress, if_pos rfl]
  · rw [hsp, cell_enter_of_clocked h, if_neg nofun, cell_pushAddress, if_neg nofun,
      if_neg (Ram.stackCell_low_ne_high _).symm, if_pos rfl]
  · rw [hsp, cell_enter_of_clocked h, if_neg nofun, cell_pushAddress, if_neg nofun, if_pos rfl]

/-- Right after a source was served, the machine can go on where it was. -/
theorem suspends_poll {m : Machine} (h : m.Clocked) {s : Source} (hs : m.poll.2 = some s)
    (hne : s ≠ .reset) : m.poll.1.Suspends m := by
  let waiting := m.accept.dequeue s
  have hw : waiting.Clocked := ⟨h.timer0, h.timer1, h.latches⟩
  have hentered : (waiting.enter s).Suspends waiting := suspends_enter hw s
  rw [poll_fst_of_snd hs, serve_of_ne hne]
  exact ⟨hentered.sp, hentered.low, hentered.high, hentered.services⟩

/-! ## Returning -/

namespace Suspends

variable {m n : Machine}

theorem of_eq (h : n.Suspends m) {k : Machine} (hram : k.ram = n.ram)
    (hs : k.cpu.services = n.cpu.services) : k.Suspends m where
  sp := by rw [register, hram]; exact h.sp
  low := by rw [hram]; exact h.low
  high := by rw [hram]; exact h.high
  services := by rw [hs]; exact h.services

/-- The return from the routine goes on where it interrupted. -/
theorem resumes_leave (h : n.Suspends m) (hc : n.Clocked) : m.Resumes n.leave := by
  have hsp : n.stackPointer = m.register Register.sp + 2 := by
    rw [← hc.stackPointer_eq, h.sp]
  have hback : n.leave.Clocked := hc.outside (leaves_leave n).toOutside
  obtain ⟨r, hlevel, hservices⟩ := h.services
  have hleaves := leaves_leave n
  constructor
  · rw [pc_leave]
    exact returnAddress_of_cells hsp h.low h.high
  · -- the pointer as the program reads it, which no latch hides
    have hram : n.leave.ram = n.popAddress.1.ram := by rw [leave_cons hservices]
    rw [hback.stackPointer_eq, stackPointer_eq_cell, hram, ← stackPointer_eq_cell,
      stackPointer_popAddress, hsp, UInt8.add_sub_cancel]
  · rw [hleaves.level, hservices]
    exact hlevel
  · rw [hleaves.services, hservices]
    rfl

theorem resumes_processInstruction (h : n.Suspends m) (hc : n.Clocked) (noted : Bool)
    (hawake : n.isHalted = false) (hreti : n.programOf n.cpu.program.latest n.cpu.pc = 0xB0) :
    m.Resumes (n.processInstruction noted).1 := by
  let fetched := n.start.fetchOpcode noted
  have hstays : Stays n fetched := (stays_start n).trans (stays_fetchOpcode _ noted)
  have hram : fetched.ram = n.ram := n.ram_fetchOpcode noted
  have hback := (h.of_eq hram hstays.services).resumes_leave (hc.outside hstays.toOutside)
  rw [processInstruction_eq noted hawake, hreti]
  exact ⟨hback.pc, hback.sp, hback.level, hback.services⟩

end Suspends

/-- What a routine that only returns leaves in RAM: the address above the stack, and the processor
awake. -/
theorem cell_leave_enter {m : Machine} (h : m.Clocked) (s : Source) (c : Ram.Cell) :
    (m.enter s).leave.ram.cell c =
      if Ram.stackCell (m.register Register.sp + 1) = c then m.cpu.pc.lowByte
      else if Ram.stackCell (m.register Register.sp + 2) = c then m.cpu.pc.highByte
      else if .register 0x07 = c then (m.ram.cell c).setBit 0 false
      else m.ram.cell c := by
  have hram : (m.enter s).leave.ram = (m.enter s).popAddress.1.ram := by
    rw [leave_cons (enter_services m s)]
  have hsp : (m.enter s).stackPointer = m.stackPointer + 2 := by
    rw [stackPointer_eq_cell, cell_enter_of_clocked h, if_neg (by decide), cell_pushAddress,
      if_pos rfl]
  rw [hram, cell_popAddress, hsp, UInt8.add_sub_cancel, cell_enter_of_clocked h, cell_pushAddress,
    h.stackPointer_eq]
  have hcells := Ram.stackCell_low_ne_high m.stackPointer
  by_cases hlow : Ram.stackCell (m.stackPointer + 1) = c
  · subst hlow
    rw [if_neg nofun, if_neg nofun, if_neg nofun, if_neg hcells.symm, if_pos rfl, if_pos rfl]
  · by_cases hhigh : Ram.stackCell (m.stackPointer + 2) = c
    · subst hhigh
      rw [if_neg nofun, if_neg nofun, if_neg nofun, if_pos rfl, if_neg hlow, if_pos rfl]
    · rw [if_neg hlow, if_neg hhigh, if_neg hhigh, if_neg hlow]
      by_cases hsp : Ram.Cell.register 0x06 = c
      · subst hsp
        rw [if_pos rfl, if_neg (by decide), stackPointer_eq_cell]
      · rw [if_neg hsp, if_neg hsp]

end Machine

/-- **A service routine is transparent.** Take a reachable machine whose poll serves a source other
than a reset. After the poll the processor is at the source's vector, the stack pointer has moved up
by two, modulo 256, and the two cells that it moved past in bank 0 of main RAM hold the program
counter from before, low byte first; the routine is on top of those in progress. Whatever happens
then, once the stack pointer is back there, the two cells are as they were and the routine is on top
of the same routines, a return gives back program counter, stack pointer, level and routines. If it
comes at once, RAM is as it was before the poll, but for the two cells and the halt bit, which is
clear. -/
theorem interrupt_transparent {m : Machine} (h : Reachable m) {s : Source}
    (hs : m.poll.2 = some s) (hne : s ≠ .reset) :
    let n := m.poll.1
    let sp := m.register Register.sp
    let low := Ram.stackCell (sp + 1)
    let high := Ram.stackCell (sp + 2)
    let pcon := m.ram.locate Register.pcon.toNat
    n.cpu.pc = s.vector ∧ n.register Register.sp = sp + 2 ∧
    n.ram.cell low = m.cpu.pc.lowByte ∧ n.ram.cell high = m.cpu.pc.highByte ∧
    (∃ r : Service, r.source = s ∧ n.cpu.services = r :: m.cpu.services) ∧
    (∀ acts, let k := n.runActs acts
      k.register Register.sp = sp + 2 → k.ram.cell low = n.ram.cell low →
      k.ram.cell high = n.ram.cell high → k.cpu.services = n.cpu.services →
        m.Resumes (k.execute 0xB0) ∧
        ∀ noted, k.isHalted = false → k.programOf k.cpu.program.latest k.cpu.pc = 0xB0 →
          m.Resumes (k.processInstruction noted).1) ∧
    (n.execute 0xB0).ram.latches = m.ram.latches ∧
    ∀ c, (n.execute 0xB0).ram.cell c =
      if low = c then m.cpu.pc.lowByte
      else if high = c then m.cpu.pc.highByte
      else if pcon = c then (m.ram.cell c).setBit 0 false
      else m.ram.cell c := by
  intro n sp low high pcon
  have hc := h.clocked
  have hsuspends : n.Suspends m := Machine.suspends_poll hc hs hne
  have hn : n = (m.accept.dequeue s).enter s := by
    show m.poll.1 = _
    rw [Machine.poll_fst_of_snd hs, Machine.serve_of_ne hne]
  refine ⟨by rw [hn]; rfl, hsuspends.sp, hsuspends.low, hsuspends.high, ?_, ?_, ?_, ?_⟩
  · rw [hn, Machine.enter_services]
    exact ⟨_, rfl, rfl⟩
  · intro acts k hsp hlow hhigh hservices
    have hk : k.Clocked := ((h.act .poll).runActs acts).clocked
    have hback : k.Suspends m := ⟨hsp, hlow.trans hsuspends.low, hhigh.trans hsuspends.high,
      by rw [hservices]; exact hsuspends.services⟩
    exact ⟨hback.resumes_leave hk, hback.resumes_processInstruction hk⟩
  · exact (Machine.leaves_leave n).latches.trans (by rw [hn, Machine.enter_latches]; rfl)
  · intro c
    have hpcon : pcon = .register 0x07 := m.ram.locate_register 7
    have hwaiting : (m.accept.dequeue s).Clocked := ⟨hc.timer0, hc.timer1, hc.latches⟩
    rw [hpcon, hn]
    exact Machine.cell_leave_enter hwaiting s c

/-- A processor about to serve a source, with bank 1 of main RAM in use and the stack pointer at the
end of its range. -/
def servingAtWrap : Machine :=
  Machine.idling.runActs
    [.writeRam 0x108 0x80, .writeRam 0x101 0x02, .writeRam 0x106 0xFF, .jump 0x1234, .raise .int2]

/-- A routine that is interrupted by another one, which returns. -/
def interruptedRoutine : List Act :=
  [.raise .int0, .poll, .execute 0xB0]

theorem interrupt_transparent_nested :
    let n := servingAtWrap.poll.1
    let k := n.runActs interruptedRoutine
    n.register Register.sp = 1 ∧ n.ram.cell (.main 0 0) = 0x34 ∧
      (k.execute 0xB0).cpu.pc = 0x1234 ∧ (k.execute 0xB0).register Register.sp = 0xFF := by
  intro n k
  have hr : Reachable servingAtWrap := Reachable.idling.runActs _
  have hserved : servingAtWrap.poll.2 = some .int2 := by decide +kernel
  have h := interrupt_transparent hr hserved (by decide)
  have hback : servingAtWrap.Resumes (k.execute 0xB0) :=
    (h.2.2.2.2.2.1 interruptedRoutine (by decide +kernel) (by decide +kernel) (by decide +kernel)
      (by decide +kernel)).1
  have hpc : servingAtWrap.cpu.pc = 0x1234 := by decide +kernel
  have hsp : servingAtWrap.register Register.sp = 0xFF := by decide +kernel
  exact ⟨by decide +kernel, by decide +kernel, hback.pc.trans hpc, hback.sp.trans hsp⟩

end VisualMemory
