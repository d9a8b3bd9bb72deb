/-!
# Notes

A note is a text with a tag that tells who speaks.  Notes are made for those who
asked for a verbose run, and each is written behind the time it was made at.
-/

namespace Cpu6502

structure Note where
  tag : String
  text : String
  deriving DecidableEq, Repr

namespace Note

/-- The note with this text, if the run is verbose. -/
def when (verbose : Bool) (tag text : String) : List Note :=
  if verbose then [⟨tag, text⟩] else []

def render (time : String) (n : Note) : String :=
  "[" ++ time ++ "] -- [" ++ n.tag ++ "] " ++ n.text

end Note

end Cpu6502
