import VisualMemory.Buzzer
import VisualMemory.Document
import VisualMemory.Instruction.Text
import VisualMemory.Interrupt.Controller
import VisualMemory.Interrupt.Service
import VisualMemory.Machine.Boot

/-!
# Saved small parts

For each part of a machine that fits a few bytes, `toDocument` gives its saved form and
`ofDocument?` the part with a saved form.
-/

namespace VisualMemory

/-! ## Named values -/

def Bank.toDocument (b : Bank) : Document :=
  .text b.name

def Bank.ofDocument? : Document → Option Bank :=
  Document.oneOf? Bank.all Bank.name

def RunState.name : RunState → String
  | .stopped => "Stopped"
  | .started => "Started"

def RunState.toDocument (s : RunState) : Document :=
  .text s.name

def RunState.ofDocument? : Document → Option RunState :=
  Document.oneOf? [.stopped, .started] RunState.name

def Operand.toDocument (o : Operand) : Document :=
  .text o.name

def Operand.ofDocument? : Document → Option Operand :=
  Document.oneOf? Operand.all Operand.name

namespace Instruction

/-- The instruction's saved form: its name, around the form of its operand if it has several. -/
def toDocument (i : Instruction) : Document :=
  match i.operand? with
  | none => .text i.name
  | some o => .record [(i.name, o.toDocument)]

/-- The instruction with a name and an operand form. -/
def ofName? (name : String) (operand : Option Operand) : Option Instruction :=
  all.find? fun i => i.name == name && i.operand? == operand

def ofDocument? : Document → Option Instruction
  | .text name | .record [(name, .null)] => ofName? name none
  | .record [(name, operand)] => (Operand.ofDocument? operand).bind fun o => ofName? name (some o)
  | _ => none

end Instruction

namespace Interrupt

def Source.toDocument (s : Source) : Document :=
  .text s.name

def Source.ofDocument? : Document → Option Source :=
  Document.oneOf? Source.all Source.name

def Level.toDocument (l : Level) : Document :=
  .text l.name

def Level.ofDocument? : Document → Option Level :=
  Document.oneOf? Level.all Level.name

/-! ## Records -/

def Controller.toDocument (c : Controller) : Document :=
  .record [("pending", .ofWord c.word)]

def Controller.ofDocument? (d : Document) : Option Controller := do
  let [some pending] ← d.members? ["pending"] | none
  return { word := ← pending.word? }

end Interrupt

def Psw.toDocument (p : Psw) : Document :=
  .ofByte p.byte

def Psw.ofDocument? (d : Document) : Option Psw :=
  d.byte?.map Psw.mk

namespace Interrupt.Service

def toDocument (s : Service) : Document :=
  .record [("source", s.source.toDocument), ("return_pc", .ofWord s.returnPc),
    ("psw", s.psw.toDocument), ("previous_level", s.previousLevel.toDocument)]

def ofDocument? (d : Document) : Option Service := do
  let [some source, some returnPc, some psw, some level] ←
    d.members? ["source", "return_pc", "psw", "previous_level"] | none
  return {
    source := ← Source.ofDocument? source
    returnPc := ← returnPc.word?
    psw := ← Psw.ofDocument? psw
    previousLevel := ← Level.ofDocument? level }

end Interrupt.Service

namespace BankLatch

def toDocument (l : BankLatch) : Document :=
  .record [("current", l.current.toDocument),
    ("pending", l.pending.elim .null Bank.toDocument)]

/-- The latch with a saved form; nothing pending may be left out of a record. -/
def ofDocument? (d : Document) : Option BankLatch := do
  let [some current, pending] ← d.members? ["current", "pending"] | none
  return {
    current := ← Bank.ofDocument? current
    pending := ← (pending.getD .null).optional? Bank.ofDocument? }

end BankLatch

namespace Timer

def Control.toDocument (c : Control) : Document :=
  .record [("high_run", .boolean c.highRun), ("low_run", .boolean c.lowRun),
    ("long_mode", .boolean c.longMode), ("external", .boolean c.external),
    ("high_overflow", .boolean c.highOverflow), ("high_irq_enable", .boolean c.highIrqEnable),
    ("low_overflow", .boolean c.lowOverflow), ("low_irq_enable", .boolean c.lowIrqEnable)]

def Control.ofDocument? (d : Document) : Option Control := do
  let [some highRun, some lowRun, some longMode, some external, some highOverflow,
      some highIrqEnable, some lowOverflow, some lowIrqEnable] ←
    d.members? ["high_run", "low_run", "long_mode", "external", "high_overflow", "high_irq_enable",
      "low_overflow", "low_irq_enable"] | none
  return {
    highRun := ← highRun.boolean?
    lowRun := ← lowRun.boolean?
    longMode := ← longMode.boolean?
    external := ← external.boolean?
    highOverflow := ← highOverflow.boolean?
    highIrqEnable := ← highIrqEnable.boolean?
    lowOverflow := ← lowOverflow.boolean?
    lowIrqEnable := ← lowIrqEnable.boolean? }

def Prescaler.toDocument (p : Prescaler) : Document :=
  .record [("count", .ofWord p.count)]

def Prescaler.ofDocument? (d : Document) : Option Prescaler := do
  let [some count] ← d.members? ["count"] | none
  return { count := ← count.word? }

end Timer

namespace Buzzer

def toDocument (b : Buzzer) : Document :=
  .record [("period", .ofByte b.period), ("enabled", .boolean b.enabled)]

def ofDocument? (d : Document) : Option Buzzer := do
  let [some period, some enabled] ← d.members? ["period", "enabled"] | none
  return { period := ← period.byte?, enabled := ← enabled.boolean? }

end Buzzer

namespace Config

def toDocument (c : Config) : Document :=
  .record [("frequency", .real c.frequency), ("hle", .boolean c.direct),
    ("hle_entry", .ofWord c.entry)]

/-- The configuration with a saved form; members that are left out have their defaults. -/
def ofDocument? (d : Document) : Option Config := do
  let [frequency, direct, entry] ← d.membersOrFewer? ["frequency", "hle", "hle_entry"] | none
  let c : Config := {}
  return {
    frequency := ← frequency.elim (some c.frequency) Document.real?
    direct := ← direct.elim (some c.direct) Document.boolean?
    entry := ← entry.elim (some c.entry) Document.word? }

end Config

end VisualMemory
