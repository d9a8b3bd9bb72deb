import Cpu6502.Opcode.Mnemonic
import Cpu6502.Opcode.Mode
import Cpu6502.Text.Hex

/-!
# Faults

Why an instruction was not carried out, what is said of it, and the exit status
that it leads to.
-/

namespace Cpu6502

inductive ReadFault where
  | notFound
  | accessDenied
  | notDirectory
  | isDirectory
  | nameTooLong
  | invalidText
  | other (text : String)
  deriving DecidableEq, Repr

def ReadFault.message : ReadFault → String
  | .notFound => "No such file or directory (os error 2)"
  | .accessDenied => "Permission denied (os error 13)"
  | .notDirectory => "Not a directory (os error 20)"
  | .isDirectory => "Is a directory (os error 21)"
  | .nameTooLong => "File name too long (os error 36)"
  | .invalidText => "stream did not contain valid UTF-8"
  | .other text => text

inductive ExitStatus where
  | success
  | failure
  | invalidImage
  | logNotFound
  | invalidOpcode
  | traceMismatch
  | runtimeFailure
  deriving DecidableEq, Repr

namespace ExitStatus

def all : List ExitStatus :=
  [success, failure, invalidImage, logNotFound, invalidOpcode, traceMismatch,
    runtimeFailure]

def code : ExitStatus → Nat
  | .success => 0
  | .failure => 1
  | .invalidImage => 2
  | .logNotFound => 3
  | .invalidOpcode => 4
  | .traceMismatch => 5
  | .runtimeFailure => 101

end ExitStatus

inductive Fault where
  | unknownOpcode (opcode : Byte) (address : Word)
  | missingOperand (mnemonic : Mnemonic) (mode : Mode)
  | traceMismatch (expected actual : String)
  | unreadableLog (cause : ReadFault)
  deriving DecidableEq, Repr

namespace Fault

def message : Fault → String
  | .unknownOpcode opcode address =>
      "unknown opcode 0x" ++ Text.Hex.byte opcode ++ " at 0x" ++
        Text.Hex.word address
  | .missingOperand mnemonic mode =>
      mnemonic.name ++ " can't be used with " ++ mode.name ++ " addressing"
  | .traceMismatch expected actual =>
      "mismatched CPU frames\n    expected: " ++ expected ++
        "\n    actual:   " ++ actual
  | .unreadableLog cause => cause.message

def cause? : Fault → Option ReadFault
  | .unreadableLog cause => some cause
  | .unknownOpcode .. | .missingOperand .. | .traceMismatch .. => none

def exitStatus : Fault → ExitStatus
  | .unknownOpcode .. => .invalidOpcode
  | .traceMismatch .. => .traceMismatch
  | .missingOperand .. | .unreadableLog _ => .runtimeFailure

end Fault

end Cpu6502
