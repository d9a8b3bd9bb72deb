import Cpu6502.Text.Columns

/-!
# The clock

Times as they stand in front of notes, in universal time on the Gregorian
calendar.  The command reads them off the clock; what it writes is otherwise
independent of them.
-/

namespace Cpu6502

structure Timestamp where
  seconds : Int
  nanoseconds : Nat
  deriving DecidableEq, Repr

structure Date where
  year : Int
  month : Nat
  day : Nat
  deriving DecidableEq, Repr

namespace Date

/--
The date a number of days after the first of January 1970.  Years are counted
from March, so that a leap day is the last day of its year, in cycles of four
hundred years that have 146097 days each.
-/
def ofDays (days : Int) : Date :=
  let shifted := days + 719468
  let cycle := shifted / 146097
  let dayOfCycle := (shifted % 146097).toNat
  let yearOfCycle :=
    (dayOfCycle - dayOfCycle / 1460 + dayOfCycle / 36524 -
      dayOfCycle / 146096) / 365
  let dayOfYear :=
    dayOfCycle - (365 * yearOfCycle + yearOfCycle / 4 - yearOfCycle / 100)
  let monthFromMarch := (5 * dayOfYear + 2) / 153
  let day := dayOfYear - (153 * monthFromMarch + 2) / 5 + 1
  let month := if monthFromMarch < 10 then monthFromMarch + 3
    else monthFromMarch - 9
  let year := yearOfCycle + cycle * 400
  ⟨if month ≤ 2 then year + 1 else year, month, day⟩

open Text

def render (d : Date) : String :=
  decimal 4 d.year.toNat ++ "-" ++ decimal 2 d.month ++ "-" ++ decimal 2 d.day

end Date

namespace Timestamp

open Text

/-- The fraction of a second in 0, 3, 6 or 9 digits, as few as are needed. -/
def fraction (nanoseconds : Nat) : String :=
  if nanoseconds = 0 then ""
  else if nanoseconds % 1000000 = 0 then
    "." ++ decimal 3 (nanoseconds / 1000000)
  else if nanoseconds % 1000 = 0 then "." ++ decimal 6 (nanoseconds / 1000)
  else "." ++ decimal 9 nanoseconds

def render (t : Timestamp) : String :=
  let second := (t.seconds % 86400).toNat
  (Date.ofDays (t.seconds / 86400)).render ++ " " ++
    decimal 2 (second / 3600) ++ ":" ++ decimal 2 (second / 60 % 60) ++ ":" ++
    decimal 2 (second % 60) ++ fraction t.nanoseconds ++ " +00:00"

end Timestamp

end Cpu6502
