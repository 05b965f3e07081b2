import BitMachine.CommandLine.Commands
import BitMachine.Debugger.Screen
import BitMachine.Main
import BitMachine.Proofs.AddressSpellings
import BitMachine.Proofs.AssembledImage
import BitMachine.Proofs.Breakpoints
import BitMachine.Proofs.Budgets
import BitMachine.Proofs.CanonicalWords
import BitMachine.Proofs.CheckOrder
import BitMachine.Proofs.DebuggerReset
import BitMachine.Proofs.Diagnosis
import BitMachine.Proofs.Display
import BitMachine.Proofs.Drivers
import BitMachine.Proofs.FixedWidth
import BitMachine.Proofs.Framing
import BitMachine.Proofs.ImageMarks
import BitMachine.Proofs.ImageReading
import BitMachine.Proofs.ImageRoundTrip
import BitMachine.Proofs.LineSpacing
import BitMachine.Proofs.LiteralArithmetic
import BitMachine.Proofs.LiteralDifference
import BitMachine.Proofs.LoadReports
import BitMachine.Proofs.MemoryPanel
import BitMachine.Proofs.MemoryReads
import BitMachine.Proofs.MoreRegisters
import BitMachine.Proofs.Reassembly
import BitMachine.Proofs.Replay
import BitMachine.Proofs.SequentialLoading
import BitMachine.Proofs.Serialization
import BitMachine.Proofs.SessionHistory
import BitMachine.Proofs.SignMarks
import BitMachine.Proofs.Simulation
import BitMachine.Proofs.Spellings
import BitMachine.Proofs.Stopping
import BitMachine.Proofs.TokenWidth
import BitMachine.Proofs.Translation
import BitMachine.Proofs.WordDecoding
import BitMachine.Session
