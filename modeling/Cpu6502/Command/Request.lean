import Cpu6502.Address
import Cpu6502.Command.Parser

/-!
# Requests

What a command line asks for: the switches with their values read, or help.
-/

namespace Cpu6502

structure Request where
  image : String
  origin : Word := 0
  pc : Word := origin
  steps : Nat := 1
  log : Option String := none
  verbose : Bool := false
  deriving DecidableEq, Repr

inductive RequestFault where
  | argument (message : String)
  | address (switch : Switch)
  | count (switch : Switch) (fault : Text.Numeral.Fault)
  deriving DecidableEq, Repr

def RequestFault.message : RequestFault → String
  | .argument message => message
  | .address switch => "--" ++ switch.name ++ ": " ++ Address.complaint
  | .count switch fault => "--" ++ switch.name ++ ": " ++ fault.message

namespace Request

def addressOr (m : Matches) (switch : Switch) (default : Word) :
    Except RequestFault Word :=
  match m.value? switch with
  | none => .ok default
  | some text =>
      match Address.ofText? text with
      | none => .error (.address switch)
      | some address => .ok address

def countOr (m : Matches) (switch : Switch) (default : Nat) :
    Except RequestFault Nat :=
  match m.value? switch with
  | none => .ok default
  | some text =>
      (Text.Numeral.read 10 UInt64.size text.toList).mapError (.count switch)

def ofMatches (m : Matches) (image : String) : Except RequestFault Request := do
  let origin ← addressOr m .origin 0
  let pc ← addressOr m .pc origin
  let steps ← countOr m .steps 1
  return {
    image, origin, pc, steps
    log := m.value? .testLog
    verbose := m.present .verbose }

end Request

inductive Invocation where
  | help
  | misuse
  | run (request : Request)
  deriving DecidableEq, Repr

def Invocation.ofArguments (parser : Parser) (arguments : List String) :
    Except RequestFault Invocation :=
  match parser.parse arguments with
  | .error message => .error (.argument message)
  | .ok m =>
      if m.present .help then .ok .help
      else
        match m.free with
        | [image] => (Request.ofMatches m image).map .run
        | _ => .ok .misuse

end Cpu6502
