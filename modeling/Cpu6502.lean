import Cpu6502.Main
import Cpu6502.Proofs.Decoding
import Cpu6502.Proofs.Effect
import Cpu6502.Proofs.Machine
import Cpu6502.Proofs.Footprint
import Cpu6502.Proofs.ReturnAddress
import Cpu6502.Proofs.Calls
import Cpu6502.Proofs.Refusal
import Cpu6502.Proofs.Columns
import Cpu6502.Proofs.TraceLine
import Cpu6502.Proofs.Utf8
import Cpu6502.Proofs.Log
import Cpu6502.Proofs.Replay
import Cpu6502.Proofs.Addressing
import Cpu6502.Proofs.ControlFlow
import Cpu6502.Proofs.Writes
import Cpu6502.Proofs.Locality
import Cpu6502.Proofs.Number
import Cpu6502.Proofs.Addition
import Cpu6502.Proofs.MultiByte
import Cpu6502.Proofs.Statement
import Cpu6502.Proofs.Loop
import Cpu6502.Proofs.Countdown
import Cpu6502.Proofs.BlockCopy
import Cpu6502.Proofs.CommandLine
import Cpu6502.Proofs.Notes
import Cpu6502.Proofs.Verbosity
import Cpu6502.Proofs.Flags
import Cpu6502.Proofs.Sign
import Cpu6502.Proofs.Unchanged
import Cpu6502.Proofs.Numeral
import Cpu6502.Proofs.Acceptance
import Cpu6502.Proofs.Shift
import Cpu6502.Proofs.Branch
import Cpu6502.Proofs.Comparison
import Cpu6502.Proofs.RoundTrip
import Cpu6502.Proofs.Assembly
import Cpu6502.Proofs.Stack
import Cpu6502.Proofs.Address
import Cpu6502.Proofs.Image
