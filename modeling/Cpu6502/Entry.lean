import Cpu6502.Trace.Log

/-!
# Entries

What a system finds under a name, and what comes of reading it.
-/

namespace Cpu6502

inductive Entry where
  | absent (fault : ReadFault)
  | directory
  | file (bytes : List Byte)
  deriving DecidableEq, Repr

namespace Entry

def bytes : Entry → Except ReadFault (List Byte)
  | .absent fault => .error fault
  | .directory => .error .isDirectory
  | .file bytes => .ok bytes

/-- A directory can be opened and fails when it is read. -/
def log : Entry → Except ReadFault Log
  | .absent fault => .error fault
  | .directory => .ok (.unreadable .isDirectory)
  | .file bytes => .ok (.content bytes)

end Entry

end Cpu6502
