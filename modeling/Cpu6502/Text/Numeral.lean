/-!
# Numerals

Reading of natural numbers in bases up to sixteen, below a limit.  A numeral is
an optional plus sign and at least one digit, and letters of either case are
digits.  Reading goes from left to right and stops at the first fault, where a
character that is no digit comes before a value that is too large.
-/

namespace Cpu6502.Text.Numeral

inductive Fault where
  | empty
  | invalidDigit
  | tooLarge
  deriving DecidableEq, Repr

def Fault.message : Fault → String
  | .empty => "cannot parse integer from empty string"
  | .invalidDigit => "invalid digit found in string"
  | .tooLarge => "number too large to fit in target type"

def digitValue? (c : Char) : Option Nat :=
  if '0' ≤ c ∧ c ≤ '9' then some (c.toNat - 48)
  else if 'A' ≤ c ∧ c ≤ 'F' then some (c.toNat - 55)
  else if 'a' ≤ c ∧ c ≤ 'f' then some (c.toNat - 87)
  else none

def digit? (base : Nat) (c : Char) : Option Nat :=
  (digitValue? c).filter (· < base)

/-- Goes on reading behind digits of value `n`. -/
def readDigits (base limit n : Nat) : List Char → Except Fault Nat
  | [] => .ok n
  | c :: cs =>
      match digit? base c with
      | none => .error .invalidDigit
      | some d =>
          if base * n + d < limit then readDigits base limit (base * n + d) cs
          else .error .tooLarge

def read (base limit : Nat) (cs : List Char) : Except Fault Nat :=
  let digits := if cs.head? = some '+' then cs.tail else cs
  if cs = [] then .error .empty
  else if digits = [] then .error .invalidDigit
  else readDigits base limit 0 digits

end Cpu6502.Text.Numeral
