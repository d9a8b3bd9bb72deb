import Cpu6502.Text.Columns

/-!
# Switches

The switches of the command line, each with a letter and a name, and the text
that lists them.
-/

namespace Cpu6502

inductive Switch where
  | verbose
  | origin
  | pc
  | steps
  | testLog
  | help
  deriving DecidableEq, Repr

namespace Switch

def all : List Switch :=
  [verbose, origin, pc, steps, testLog, help]

def letter : Switch → Char
  | .verbose => 'v'
  | .origin => 'o'
  | .pc => 'p'
  | .steps => 's'
  | .testLog => 't'
  | .help => 'h'

def name : Switch → String
  | .verbose => "verbose"
  | .origin => "origin"
  | .pc => "pc"
  | .steps => "steps"
  | .testLog => "test-log"
  | .help => "help"

/-- What the value of a switch is called, for those that take one. -/
def value? : Switch → Option String
  | .origin | .pc => some "ADDR"
  | .steps => some "N"
  | .testLog => some "FILE"
  | .verbose | .help => none

def description : Switch → String
  | .verbose => "log every executed instruction"
  | .origin => "load address of IMAGE in hex (default 0000)"
  | .pc => "initial program counter in hex (default: origin)"
  | .steps => "number of instructions to execute (default 1)"
  | .testLog => "compare execution against a trace log"
  | .help => "print this help menu"

def takesValue (s : Switch) : Bool :=
  s.value?.isSome

def ofLetter? (c : Char) : Option Switch :=
  all.find? (·.letter == c)

/-- A name of one character is taken for a letter. -/
def ofName? : List Char → Option Switch
  | [c] => ofLetter? c
  | cs => all.find? (·.name.toList == cs)

def usageLine (s : Switch) : String :=
  let value := match s.value? with
    | none => ""
    | some value => " " ++ value
  Text.padEnd 24 ("    -" ++ s.letter.toString ++ ", --" ++ s.name ++ value) ++
    s.description

def usage (brief : String) : String :=
  brief ++ "\n\nOptions:\n" ++
    String.join (all.map fun s => s.usageLine ++ "\n")

end Switch

end Cpu6502
