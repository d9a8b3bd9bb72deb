import Cpu6502.Text.Hex

/-!
# Addresses as text

An address is a hexadecimal numeral, bare or marked.  The marks are dollar
signs, then `0x`, then `0X`, each as often as it is repeated.
-/

namespace Cpu6502.Address

/-- Takes zeros with the letter behind them off the front. -/
def dropMark (letter : Char) : List Char → List Char
  | c :: d :: cs =>
      if c = '0' ∧ d = letter then dropMark letter cs else c :: d :: cs
  | cs => cs

def ofText? (text : String) : Option Word :=
  let digits := dropMark 'X' (dropMark 'x' (text.toList.dropWhile (· == '$')))
  Text.Hex.read? 16 digits

def complaint : String := "address must be a 16-bit hex number"

end Cpu6502.Address
