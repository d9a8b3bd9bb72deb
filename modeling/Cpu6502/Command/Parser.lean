import Cpu6502.Command.Switch

/-!
# Parsers

What the command needs of a library that parses arguments.  The command itself
works with any parser.
-/

namespace Cpu6502

/-- What a parser makes of arguments that it accepts. -/
structure Matches where
  present : Switch → Bool
  value? : Switch → Option String
  free : List String

structure Parser where
  /-- Arguments that are not accepted give a message. -/
  parse : List String → Except String Matches
  /-- The list of the switches behind a brief text. -/
  usage : String → String

end Cpu6502
