/-!
# Columns

Text set to a width, and the part of a text between two columns.  Columns are
counted in bytes of UTF-8, and a column within a character is no column at all.
-/

namespace Cpu6502.Text

def spaces (n : Nat) : String :=
  String.ofList (List.replicate n ' ')

def padEnd (width : Nat) (text : String) : String :=
  text ++ spaces (width - text.length)

def decimal (width n : Nat) : String :=
  let digits := Nat.repr n
  String.ofList (List.replicate (width - digits.length) '0') ++ digits

def dropBytes? : Nat → List Char → Option (List Char)
  | 0, cs => some cs
  | _ + 1, [] => none
  | n + 1, c :: cs =>
      if c.utf8Size ≤ n + 1 then dropBytes? (n + 1 - c.utf8Size) cs else none

def takeBytes? : Nat → List Char → Option (List Char)
  | 0, _ => some []
  | _ + 1, [] => none
  | n + 1, c :: cs =>
      if c.utf8Size ≤ n + 1 then
        (takeBytes? (n + 1 - c.utf8Size) cs).map (c :: ·)
      else none

/-- The characters between two columns, if both are there. -/
def columns? (first last : Nat) (cs : List Char) : Option (List Char) :=
  (dropBytes? first cs).bind (takeBytes? (last - first))

end Cpu6502.Text
