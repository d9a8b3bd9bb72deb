import Cpu6502.Instruction.Execution
import Cpu6502.Note
import Cpu6502.Trace.Line
import Cpu6502.Trace.Log

/-!
# Emulators

A machine that may have a log attached.  Before an instruction is executed its
trace line is compared with the next line of the log, and it is executed only if
the two agree.  A log that has come to its end is taken off.  A verbose step
makes notes of all this; it needs the trace line even if there is no log.
-/

namespace Cpu6502

structure Comparison where
  verdict : Except Fault Unit
  log : Option Log
  notes : List Note

namespace Comparison

def ofReading (verbose : Bool) (actual : String) : Log.Reading → Comparison
  | .exhausted =>
      ⟨.ok (), none,
        Note.when verbose "cpu" "Execution log exhausted, testing finished"⟩
  | .failed fault rest => ⟨.error (.unreadableLog fault), some rest, []⟩
  | .line expected rest =>
      if Log.agree expected actual then ⟨.ok (), some rest, []⟩
      else
        ⟨.error (.traceMismatch expected actual), some rest,
          Note.when verbose "error" "FATAL ERROR: Mismatched CPU frames:" ++
            Note.when verbose "error" ("Emulator Frame: " ++ actual) ++
            Note.when verbose "error" ("Log Frame:      " ++ expected)⟩

end Comparison

structure Emulator where
  machine : Machine
  log : Option Log
  deriving DecidableEq

structure Progress where
  result : Except Fault Unit
  emulator : Emulator
  notes : List Note

namespace Emulator

/-- Compares a trace line with the next line of the log, if there is a log. -/
def compareLine (verbose : Bool) (e : Emulator) (actual : String) :
    Comparison :=
  match e.log with
  | none => ⟨.ok (), none, []⟩
  | some log => .ofReading verbose actual log.next

/-- Without a log, only a verbose step has a use for the trace line. -/
def compare (verbose : Bool) (e : Emulator) (i : Instruction) : Comparison :=
  if verbose || e.log.isSome then
    let actual := Trace.line e.machine.regs i
    let comparison := e.compareLine verbose actual
    { comparison with
      notes := Note.when verbose "cpu" actual ++ comparison.notes }
  else ⟨.ok (), e.log, []⟩

/-- An instruction that the log stops leaves the machine as it was. -/
def stepWith (verbose : Bool) (e : Emulator) : Progress :=
  match Instruction.decode e.machine.regs e.machine.memory with
  | (.error fault, regs) =>
      ⟨.error fault, { e with machine.regs := regs },
        Note.when verbose "error" ("FATAL ERROR: " ++ fault.message)⟩
  | (.ok i, regs) =>
      let comparison := e.compare verbose i
      match comparison.verdict with
      | .error fault =>
          ⟨.error fault, { e with log := comparison.log }, comparison.notes⟩
      | .ok () =>
          let (result, machine) := i.execute { e.machine with regs }
          ⟨result, ⟨machine, comparison.log⟩, comparison.notes⟩

/-- A step that makes no notes. -/
def step (e : Emulator) : Progress :=
  e.stepWith false

/--
Takes up to `n` steps and ends at the first that fails.  The notes of the steps
follow those made before.
-/
def runFrom (verbose : Bool) (noted : Array Note) : Nat → Emulator → Progress
  | 0, e => ⟨.ok (), e, noted.toList⟩
  | n + 1, e =>
      let progress := e.stepWith verbose
      let noted := noted ++ progress.notes
      match progress.result with
      | .error _ => { progress with notes := noted.toList }
      | .ok () => runFrom verbose noted n progress.emulator

theorem step_unlogged (s : Machine) :
    (step ⟨s, none⟩).result = s.step.1 ∧
      (step ⟨s, none⟩).emulator = ⟨s.step.2, none⟩ := by
  unfold step stepWith Machine.step
  rcases Instruction.decode s.regs s.memory with ⟨_ | i, regs⟩ <;>
    exact ⟨rfl, rfl⟩

end Emulator

end Cpu6502
