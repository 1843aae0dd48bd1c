import VisualMemory.Proofs.Program.Footprint

/-!
# The stack is last in, first out

Pushes and pops that nest give back what was pushed, and returns go to where the calls came from.
The pointer is a byte and wraps, so the cells in use may lie on both ends of main RAM; they stay
apart from each other as long as no more than 256 bytes are in use.

* `Ram.stackTop`, `Machine.Stacked`: the topmost cells, and the bytes in them. `Stacked.push`,
  `Stacked.pop` and their kin: what the stack holds after each use.
* `Pushed`, `StackUse`: what instructions do with the stack.
* `Machine.opened`, `Machine.WellNested`: acts whose pushes and pops match, with whatever leaves the
  stack alone between them.
* `Machine.StandsOn`, `StandsOn.runActs`: what waits lies on the stack, after any such acts.
* `stack_is_lifo`: what pops deliver, where returns go, and what pushes change.
-/

namespace VisualMemory

open Ram (Cell)

/-! ## The top of the stack -/

namespace Ram

/-- So many cells from a stack pointer on downwards. -/
def stackTop (sp : UInt8) : Nat → List Cell
  | 0 => []
  | count + 1 => stackCell sp :: stackTop (sp - 1) count

theorem exists_of_mem_stackTop {sp : UInt8} {count : Nat} {c : Cell} (h : c ∈ stackTop sp count) :
    ∃ k < count, c = stackCell (sp - .ofNat k) := by
  induction count generalizing sp with
  | zero => cases h
  | succ count ih =>
    rcases List.mem_cons.mp h with rfl | h
    · exact ⟨0, Nat.succ_pos _, congrArg stackCell (UInt8.sub_zero sp).symm⟩
    · obtain ⟨k, hk, rfl⟩ := ih h
      have hstep : sp - 1 - .ofNat k = sp - .ofNat (k + 1) := by
        rw [UInt8.ofNat_add]
        grind
      exact ⟨k + 1, Nat.succ_lt_succ hk, congrArg stackCell hstep⟩

theorem stackCell_notMem_stackTop (sp : UInt8) {count : Nat} (h : count < 256) :
    stackCell (sp + 1) ∉ stackTop sp count := by
  intro hmem
  obtain ⟨k, hk, heq⟩ := exists_of_mem_stackTop hmem
  have hzero : UInt8.ofNat k + 1 = 0 := by
    have := stackCell_inj.mp heq
    grind
  have hnat : (k % 256 + 1) % 256 = 0 := by
    have := congrArg UInt8.toNat hzero
    rwa [UInt8.toNat_add, UInt8.toNat_ofNat'] at this
  omega

theorem ne_register_of_mem_stackTop {sp : UInt8} {count : Nat} {c : Cell} (h : c ∈ stackTop sp count)
    (o : Fin 128) : .register o ≠ c := by
  obtain ⟨k, -, rfl⟩ := exists_of_mem_stackTop h
  nofun

end Ram

namespace Machine

/-- These bytes lie on top of the stack, the topmost first. -/
def Stacked (m : Machine) (bytes : List UInt8) : Prop :=
  (Ram.stackTop m.stackPointer bytes.length).map m.ram.cell = bytes

namespace Stacked

variable {m n : Machine} {bytes : List UInt8}

theorem nil (m : Machine) : m.Stacked [] :=
  rfl

theorem of_eq (h : m.Stacked bytes) (hsp : n.stackPointer = m.stackPointer)
    (hcells : ∀ c ∈ Ram.stackTop m.stackPointer bytes.length, n.ram.cell c = m.ram.cell c) :
    n.Stacked bytes := by
  rw [Stacked, hsp, List.map_congr_left hcells]
  exact h

theorem push (h : m.Stacked bytes) (hroom : bytes.length < 256) (value : UInt8) :
    (m.push value).Stacked (value :: bytes) := by
  have htop : (m.push value).ram.cell (Ram.stackCell (m.stackPointer + 1)) = value := by
    rw [ram_push, Ram.cell_setCell, if_neg nofun, Ram.cell_setCell, if_pos rfl]
  have hrest : ∀ c ∈ Ram.stackTop m.stackPointer bytes.length,
      (m.push value).ram.cell c = m.ram.cell c := by
    intro c hc
    have hfree : Ram.stackCell (m.stackPointer + 1) ≠ c := by
      rintro rfl
      exact Ram.stackCell_notMem_stackTop _ hroom hc
    rw [ram_push, Ram.cell_setCell, if_neg (Ram.ne_register_of_mem_stackTop hc _),
      Ram.cell_setCell, if_neg hfree]
  have hbelow : m.stackPointer + 1 - 1 = m.stackPointer := by grind
  rw [Stacked, stackPointer_push, List.length_cons, Ram.stackTop, hbelow, List.map_cons, htop,
    List.map_congr_left hrest]
  exact congrArg (value :: ·) h

theorem pop {value : UInt8} (h : m.Stacked (value :: bytes)) :
    m.pop.2 = value ∧ m.pop.1.Stacked bytes := by
  rw [Stacked, List.length_cons, Ram.stackTop, List.map_cons, List.cons.injEq] at h
  refine ⟨h.1, ?_⟩
  have hcells : ∀ c ∈ Ram.stackTop (m.stackPointer - 1) bytes.length,
      m.pop.1.ram.cell c = m.ram.cell c := by
    intro c hc
    rw [ram_pop, Ram.cell_setCell, if_neg (Ram.ne_register_of_mem_stackTop hc _)]
  rw [Stacked, stackPointer_pop, List.map_congr_left hcells]
  exact h.2

theorem pushAddress (h : m.Stacked bytes) (hroom : bytes.length + 2 ≤ 256) (address : UInt16) :
    (m.pushAddress address).Stacked (address.highByte :: address.lowByte :: bytes) := by
  refine (h.push ?_ _).push ?_ _
  · omega
  · rw [List.length_cons]
    omega

theorem popAddress {address : UInt16}
    (h : m.Stacked (address.highByte :: address.lowByte :: bytes)) :
    m.popAddress.2 = address ∧ m.popAddress.1.Stacked bytes := by
  obtain ⟨hhigh, hrest⟩ := h.pop
  obtain ⟨hlow, hrest⟩ := hrest.pop
  refine ⟨?_, hrest⟩
  show UInt16.ofBytes m.pop.2 m.pop.1.pop.2 = address
  rw [hhigh, hlow, UInt16.ofBytes_highByte_lowByte]

end Stacked

end Machine

/-! ## Uses of the stack -/

/-- What one instruction leaves on the stack for another to take: a byte, or where a call goes on
after its return. -/
inductive Pushed where
  | byte (value : UInt8)
  | address (pc : UInt16)
  deriving DecidableEq

/-- Its bytes, the topmost first. -/
def Pushed.bytes : Pushed → List UInt8
  | byte value => [value]
  | address pc => [pc.highByte, pc.lowByte]

/-- What an instruction uses the stack for. -/
inductive StackUse where
  | push (p : Pushed)
  /-- A byte is popped into a cell. -/
  | pop (target : Cell)
  | ret
  | other
  deriving DecidableEq

namespace Machine

/-- What an instruction, with the byte behind its opcode, uses the stack for. -/
def useOf (m : Machine) (raw low : UInt8) (i : Instruction) : StackUse :=
  match i with
  | .push => .push (.byte (m.register (directAddress raw low)))
  | .pop => .pop (m.ram.locate (directAddress raw low).toNat)
  | .call | .callf | .callr => .push (.address (m.cpu.pc + i.size))
  | .ret => .ret
  | _ => .other

def stackUse (m : Machine) : StackUse :=
  if m.isHalted then .other
  else
    let program := m.programOf m.cpu.program.latest
    let p := m.cpu.pc
    m.useOf (program p) (program (p + 1)) (.decode (program p))

/-- What a use of the stack makes of a machine, as far as the stack goes. -/
def Uses (m n : Machine) : StackUse → Prop
  | .push (.byte value) => n.ram = (m.push value).ram
  | .push (.address pc) => n.ram = (m.pushAddress pc).ram
  | .pop target => n.ram = m.pop.1.ram.setCell target m.pop.2
  | .ret => n.ram = m.popAddress.1.ram ∧ n.cpu.pc = m.popAddress.2
  | .other => True

/-- An instruction does with the stack what it is said to. -/
theorem uses_processInstruction (m : Machine) (noted : Bool) :
    m.Uses (m.processInstruction noted).1 m.stackUse := by
  cases h : m.isHalted with
  | true =>
    rw [stackUse, h]
    trivial
  | false =>
    let n := m.start.fetchOpcode noted
    let raw := m.programOf m.cpu.program.latest m.cpu.pc
    have hlow : n.fetch.2 = m.programOf m.cpu.program.latest (m.cpu.pc + 1) :=
      m.low_fetchOpcode noted
    have hpc1 : m.cpu.pc + 1 + 1 = m.cpu.pc + 2 := UInt16.add_assoc ..
    have hpc2 : m.cpu.pc + 1 + 1 + 1 = m.cpu.pc + 3 := by rw [hpc1]; exact UInt16.add_assoc ..
    rw [stackUse, h, if_neg Bool.false_ne_true]
    show m.Uses _ (m.useOf raw _ (.decode raw))
    rw [← hlow, processInstruction_eq noted h]
    show m.Uses (n.perform raw (.decode raw)).retire _
    have hn : n = _ := fetchOpcode_eq m.start noted
    rw [hn]
    cases Instruction.decode raw with
    | push => rfl
    | pop =>
      show Ram.setCell _ (Ram.locate m.pop.1.ram _) _ = _
      rw [locate_pop]
      rfl
    | call => exact congrArg (fun pc => (m.pushAddress pc).ram) hpc1
    | callf | callr => exact congrArg (fun pc => (m.pushAddress pc).ram) hpc2
    | ret => exact ⟨rfl, rfl⟩
    | _ => trivial

end Machine

/-! ## Acts that nest -/

/-- What waits on the stack to be taken, the bytes of the last push first. -/
def Pushed.bytesOf (opened : List Pushed) : List UInt8 :=
  opened.flatMap bytes

namespace Act

def stackUse (m : Machine) : Act → StackUse
  | instruction _ => m.stackUse
  | _ => .other

/-- What waits after an act, the last push first. What pops and returns take is what their matching
push or call has left. -/
def opened (m : Machine) (waiting : List Pushed) (a : Act) : List Pushed :=
  match a.stackUse m with
  | .push p => p :: waiting
  | .pop _ | .ret => waiting.tail
  | .other => waiting

/-- An act takes what waits for it, or has room for what it leaves, or lets the stack be. A pop
stores neither to the stack pointer nor where something else waits. -/
def Nests (m : Machine) (waiting : List Pushed) (a : Act) : Prop :=
  match a.stackUse m, waiting with
  | .push p, _ => (Pushed.bytesOf (p :: waiting)).length ≤ 256
  | .pop target, .byte _ :: rest =>
    target ≠ m.ram.locate Register.sp.toNat ∧
      target ∉ Ram.stackTop (m.stackPointer - 1) (Pushed.bytesOf rest).length
  | .ret, .address _ :: _ => True
  | .other, _ =>
    (a.run m).stackPointer = m.stackPointer ∧
      ∀ c ∈ Ram.stackTop m.stackPointer (Pushed.bytesOf waiting).length,
        (a.run m).ram.cell c = m.ram.cell c
  | _, _ => False

instance (m : Machine) (waiting : List Pushed) (a : Act) : Decidable (a.Nests m waiting) := by
  unfold Nests
  split <;> infer_instance

namespace Nests

variable {m : Machine} {waiting : List Pushed} {a : Act}

theorem of_push {p : Pushed} (h : a.Nests m waiting) (hu : a.stackUse m = .push p) :
    (Pushed.bytesOf (p :: waiting)).length ≤ 256 := by
  unfold Nests at h
  rw [hu] at h
  exact h

theorem of_pop {target : Cell} (h : a.Nests m waiting) (hu : a.stackUse m = .pop target) :
    ∃ value rest, waiting = .byte value :: rest ∧ target ≠ .register 0x06 ∧
      target ∉ Ram.stackTop (m.stackPointer - 1) (Pushed.bytesOf rest).length := by
  unfold Nests at h
  rw [hu] at h
  cases waiting with
  | nil => exact h.elim
  | cons p rest =>
    cases p with
    | byte value => exact ⟨value, rest, rfl, h⟩
    | address => exact h.elim

theorem of_ret (h : a.Nests m waiting) (hu : a.stackUse m = .ret) :
    ∃ pc rest, waiting = .address pc :: rest := by
  unfold Nests at h
  rw [hu] at h
  cases waiting with
  | nil => exact h.elim
  | cons p rest =>
    cases p with
    | byte => exact h.elim
    | address pc => exact ⟨pc, rest, rfl⟩

theorem of_other (h : a.Nests m waiting) (hu : a.stackUse m = .other) :
    (a.run m).stackPointer = m.stackPointer ∧
      ∀ c ∈ Ram.stackTop m.stackPointer (Pushed.bytesOf waiting).length,
        (a.run m).ram.cell c = m.ram.cell c := by
  unfold Nests at h
  rw [hu] at h
  exact h

end Nests

end Act

namespace Machine

def opened (m : Machine) (waiting : List Pushed) : List Act → List Pushed
  | [] => waiting
  | a :: acts => (a.run m).opened (a.opened m waiting) acts

/-- Every act nests with those before it. -/
def WellNested (m : Machine) (waiting : List Pushed) : List Act → Prop
  | [] => True
  | a :: acts => a.Nests m waiting ∧ (a.run m).WellNested (a.opened m waiting) acts

instance decidableWellNested : (m : Machine) → (waiting : List Pushed) → (acts : List Act) →
    Decidable (m.WellNested waiting acts)
  | _, _, [] => isTrue trivial
  | m, waiting, a :: acts =>
    have := decidableWellNested (a.run m) (a.opened m waiting) acts
    inferInstanceAs (Decidable (_ ∧ _))

theorem WellNested.append {m : Machine} {waiting : List Pushed} {before after : List Act}
    (h : m.WellNested waiting (before ++ after)) :
    m.WellNested waiting before ∧
      (m.runActs before).WellNested (m.opened waiting before) after := by
  induction before generalizing m waiting with
  | nil => exact ⟨trivial, h⟩
  | cons a before ih =>
    obtain ⟨hbefore, hafter⟩ := ih h.2
    exact ⟨⟨h.1, hbefore⟩, hafter⟩

theorem uses_run (m : Machine) (a : Act) : m.Uses (a.run m) (a.stackUse m) := by
  cases a with
  | instruction noted => exact uses_processInstruction m noted
  | _ => trivial

/-- What waits lies on top of the stack, and the pointer stands above `base` by so many bytes. -/
structure StandsOn (base : UInt8) (waiting : List Pushed) (m : Machine) : Prop where
  stacked : m.Stacked (Pushed.bytesOf waiting)
  pointer : m.stackPointer = base + .ofNat (Pushed.bytesOf waiting).length

namespace StandsOn

variable {base : UInt8} {waiting : List Pushed} {m n : Machine}

theorem of_ram_eq (h : StandsOn base waiting m) (hram : n.ram = m.ram) :
    StandsOn base waiting n := by
  have hsp : n.stackPointer = m.stackPointer := congrArg (Ram.readRaw · _) hram
  refine ⟨h.stacked.of_eq hsp fun c _ => ?_, hsp.trans h.pointer⟩
  rw [hram]

theorem push (h : StandsOn base waiting m) {p : Pushed} (hu : m.Uses n (.push p))
    (hroom : (Pushed.bytesOf (p :: waiting)).length ≤ 256) : StandsOn base (p :: waiting) n := by
  cases p with
  | byte value =>
    refine of_ram_eq (m := m.push value) ⟨h.stacked.push hroom value, ?_⟩ hu
    show _ = base + .ofNat ((Pushed.bytesOf waiting).length + 1)
    rw [stackPointer_push, h.pointer, UInt8.ofNat_add]
    exact UInt8.add_assoc ..
  | address pc =>
    refine of_ram_eq (m := m.pushAddress pc) ⟨h.stacked.pushAddress hroom pc, ?_⟩ hu
    show _ = base + .ofNat ((Pushed.bytesOf waiting).length + 2)
    rw [pushAddress, stackPointer_push, stackPointer_push, h.pointer, UInt8.ofNat_add]
    grind

theorem pop {value : UInt8} (h : StandsOn base (.byte value :: waiting) m) {target : Cell}
    (hu : m.Uses n (.pop target)) (hsp : target ≠ .register 0x06)
    (hfree : target ∉ Ram.stackTop (m.stackPointer - 1) (Pushed.bytesOf waiting).length) :
    n.ram.cell target = value ∧ StandsOn base waiting n := by
  obtain ⟨hvalue, hrest⟩ := h.stacked.pop
  have hcell (c : Cell) (hne : target ≠ c) : n.ram.cell c = m.pop.1.ram.cell c := by
    rw [show n.ram = _ from hu, Ram.cell_setCell, if_neg hne]
  have hpointer : n.stackPointer = m.pop.1.stackPointer := hcell _ hsp
  constructor
  · rw [show n.ram = _ from hu, Ram.cell_setCell, if_pos rfl, hvalue]
  · refine ⟨hrest.of_eq hpointer fun c hc => hcell c ?_, ?_⟩
    · rw [stackPointer_pop] at hc
      rintro rfl
      exact hfree hc
    · have hbefore : m.stackPointer = base + .ofNat ((Pushed.bytesOf waiting).length + 1) := h.pointer
      rw [hpointer, stackPointer_pop, hbefore, UInt8.ofNat_add]
      grind

theorem ret {pc : UInt16} (h : StandsOn base (.address pc :: waiting) m) (hu : m.Uses n .ret) :
    n.cpu.pc = pc ∧ StandsOn base waiting n := by
  obtain ⟨haddress, hrest⟩ := h.stacked.popAddress
  refine ⟨hu.2.trans haddress, of_ram_eq (m := m.popAddress.1) ⟨hrest, ?_⟩ hu.1⟩
  have hbefore : m.stackPointer = base + .ofNat ((Pushed.bytesOf waiting).length + 2) := h.pointer
  rw [stackPointer_popAddress, hbefore, UInt8.ofNat_add]
  grind

theorem act (h : StandsOn base waiting m) {a : Act} (ha : a.Nests m waiting) :
    StandsOn base (a.opened m waiting) (a.run m) := by
  have huses := uses_run m a
  rw [Act.opened]
  cases hu : a.stackUse m with
  | push p =>
    rw [hu] at huses
    exact h.push huses (ha.of_push hu)
  | pop target =>
    obtain ⟨value, rest, rfl, hsp, hfree⟩ := ha.of_pop hu
    rw [hu] at huses
    exact (h.pop huses hsp hfree).2
  | ret =>
    obtain ⟨pc, rest, rfl⟩ := ha.of_ret hu
    rw [hu] at huses
    exact (h.ret huses).2
  | other =>
    obtain ⟨hsp, hcells⟩ := ha.of_other hu
    exact ⟨h.stacked.of_eq hsp hcells, hsp.trans h.pointer⟩

theorem runActs (h : StandsOn base waiting m) {acts : List Act} (ha : m.WellNested waiting acts) :
    StandsOn base (m.opened waiting acts) (m.runActs acts) := by
  induction acts generalizing m waiting with
  | nil => exact h
  | cons a acts ih => exact ih (h.act ha.1) ha.2

end StandsOn

/-- A push changes the stack pointer and the cells of its own bytes. -/
theorem mem_of_cell_ne {m n : Machine} {p : Pushed} (hu : m.Uses n (.push p)) {c : Cell}
    (hne : n.ram.cell c ≠ m.ram.cell c) :
    c = .register 0x06 ∨ c ∈ Ram.stackTop n.stackPointer p.bytes.length := by
  by_cases hpointer : .register 0x06 = c
  · exact .inl hpointer.symm
  right
  cases p with
  | byte value =>
    have hram : n.ram = (m.push value).ram := hu
    have hsp : n.stackPointer = m.stackPointer + 1 :=
      (congrArg (Ram.readRaw · _) hram).trans (stackPointer_push m value)
    rw [hram, ram_push, Ram.cell_setCell, if_neg hpointer, Ram.cell_setCell] at hne
    have hcell : Ram.stackCell (m.stackPointer + 1) = c :=
      Decidable.of_not_not fun h => hne (if_neg h)
    rw [hsp, ← hcell]
    exact List.mem_singleton_self _
  | address pc =>
    have hram : n.ram = (m.pushAddress pc).ram := hu
    have hsp : n.stackPointer = m.stackPointer + 2 := by
      rw [stackPointer_eq_cell, hram, cell_pushAddress, if_pos rfl]
    have hbelow : m.stackPointer + 2 - 1 = m.stackPointer + 1 := by grind
    rw [hram, cell_pushAddress, if_neg hpointer] at hne
    have hcell : Ram.stackCell (m.stackPointer + 2) = c ∨ Ram.stackCell (m.stackPointer + 1) = c := by
      refine Decidable.of_not_not fun h => ?_
      rw [not_or] at h
      exact hne ((if_neg h.1).trans (if_neg h.2))
    show c ∈ [Ram.stackCell n.stackPointer, Ram.stackCell (n.stackPointer - 1)]
    rw [hsp, hbelow, List.mem_cons, List.mem_singleton]
    exact hcell.imp Eq.symm Eq.symm

end Machine

/-- **The stack is last in, first out.** Take acts that nest, from any state of the machine. Each pop
delivers to its cell the byte that its matching push has read, each return goes to the address behind
its matching call, and a push or call changes nothing in memory but the stack pointer and the stack
cells of its own bytes. When all that was pushed has been taken, the stack pointer is what it was. -/
theorem stack_is_lifo {m : Machine} {acts : List Act} (h : m.WellNested [] acts) :
    (∀ before a after, acts = before ++ a :: after →
      let n := m.runActs before
      let waiting := m.opened [] before
      (∀ target, a.stackUse n = .pop target →
        ∃ value rest, waiting = .byte value :: rest ∧ (a.run n).ram.cell target = value) ∧
      (a.stackUse n = .ret →
        ∃ pc rest, waiting = .address pc :: rest ∧ (a.run n).cpu.pc = pc) ∧
      (∀ p, a.stackUse n = .push p → ∀ c, (a.run n).ram.cell c ≠ n.ram.cell c →
        c = .register 0x06 ∨ c ∈ Ram.stackTop (a.run n).stackPointer p.bytes.length)) ∧
    (m.opened [] acts = [] → (m.runActs acts).stackPointer = m.stackPointer) := by
  have hstart : Machine.StandsOn m.stackPointer [] m := ⟨.nil m, (UInt8.add_zero _).symm⟩
  constructor
  · rintro before a after rfl n waiting
    obtain ⟨hbefore, hnests, -⟩ := h.append
    have hstands : Machine.StandsOn m.stackPointer (m.opened [] before) n := hstart.runActs hbefore
    have huses := n.uses_run a
    refine ⟨fun target hu => ?_, fun hu => ?_, fun p hu c hne => ?_⟩
    · obtain ⟨value, rest, hwaiting, hsp, hfree⟩ := hnests.of_pop hu
      rw [hwaiting] at hstands
      rw [hu] at huses
      exact ⟨value, rest, hwaiting, (hstands.pop huses hsp hfree).1⟩
    · obtain ⟨pc, rest, hwaiting⟩ := hnests.of_ret hu
      rw [hwaiting] at hstands
      rw [hu] at huses
      exact ⟨pc, rest, hwaiting, (hstands.ret huses).1⟩
    · rw [hu] at huses
      exact Machine.mem_of_cell_ne huses hne
  · intro hbalanced
    have hstands := hstart.runActs h
    rw [hbalanced] at hstands
    exact hstands.pointer.trans (UInt8.add_zero _)

/-- A firmware that pushes a byte and calls a routine, which selects the other bank of main RAM
before it returns; the byte is popped there. The stack starts at the end of main RAM. -/
def nestingAcrossEnd : Machine :=
  (Machine.cold #[0x60, 0x02, 0x20, 0x00, 0x0A, 0x70, 0x03, 0, 0, 0, 0xF9, 0x01, 0xA0]
    (by decide)).runActs [.writeRam 0x002 0x5A, .writeRam 0x106 0xFE]

theorem stack_is_lifo_across_end :
    let m := nestingAcrossEnd
    let acts : List Act := .replicate 5 (.instruction false)
    m.WellNested [] acts ∧ m.opened [] (acts.take 3) = [.address 5, .byte 0x5A] ∧
      (m.runActs (acts.take 3)).stackPointer = 0x01 ∧ (m.runActs (acts.take 4)).cpu.pc = 5 ∧
      (m.runActs acts).ram.cell (.main 1 3) = 0x5A ∧ (m.runActs acts).stackPointer = 0xFE := by
  intro m acts
  have hnested : m.WellNested [] acts := by decide +kernel
  have hcalled : m.opened [] (acts.take 3) = [.address 5, .byte 0x5A] := by decide +kernel
  have hreturned : m.opened [] (acts.take 4) = [.byte 0x5A] := by decide +kernel
  obtain ⟨heach, hend⟩ := stack_is_lifo hnested
  obtain ⟨pc, _, hwaiting, hpc⟩ :=
    (heach (acts.take 3) (.instruction false) [.instruction false] rfl).2.1 (by decide +kernel)
  obtain ⟨value, _, hwaiting', hcell⟩ :=
    (heach (acts.take 4) (.instruction false) [] rfl).1 (.main 1 3) (by decide +kernel)
  rw [hcalled] at hwaiting
  rw [hreturned] at hwaiting'
  cases hwaiting
  cases hwaiting'
  exact ⟨hnested, hcalled, by decide +kernel, hpc, hcell, hend (by decide +kernel)⟩

end VisualMemory
