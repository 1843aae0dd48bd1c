import VisualMemory.Main
import VisualMemory.Proofs.Block
import VisualMemory.Proofs.Boot
import VisualMemory.Proofs.Checked.Run
import VisualMemory.Proofs.CommandLine.Grammar
import VisualMemory.Proofs.CommandLine.StartUp
import VisualMemory.Proofs.Interrupt.Conservation
import VisualMemory.Proofs.Interrupt.Masking
import VisualMemory.Proofs.Interrupt.Order
import VisualMemory.Proofs.Interrupt.Return
import VisualMemory.Proofs.Interrupt.Settling
import VisualMemory.Proofs.Interrupt.Sleep
import VisualMemory.Proofs.Interrupt.Starvation
import VisualMemory.Proofs.Interrupt.WakeUp
import VisualMemory.Proofs.Program.Arithmetic
import VisualMemory.Proofs.Program.Indirect
import VisualMemory.Proofs.Program.Latency
import VisualMemory.Proofs.Program.Lifo
import VisualMemory.Proofs.Program.Mirror
import VisualMemory.Proofs.Program.Stack
import VisualMemory.Proofs.Program.Tables
import VisualMemory.Proofs.Reset.History
import VisualMemory.Proofs.SavedState.RoundTrip
import VisualMemory.Proofs.Slices
import VisualMemory.Proofs.Timer.Divider
import VisualMemory.Proofs.Timer.Live
import VisualMemory.Proofs.Timer.Moment
import VisualMemory.Proofs.Timer.Order
import VisualMemory.Proofs.Timer.Period
import VisualMemory.Proofs.Timer.Report
import VisualMemory.Proofs.Timer.Start
import VisualMemory.Proofs.Timer.Tone
import VisualMemory.SavedState.Memory
import VisualMemory.Text.Lines
