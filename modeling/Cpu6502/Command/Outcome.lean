import Cpu6502.Command.Request
import Cpu6502.Emulator
import Cpu6502.Entry
import Cpu6502.Image
import Cpu6502.Report

/-!
# Outcomes

What a command line comes to, given the files it may read: an exit status, the
notes of the run, and what is written to the two outputs.  The notes are written
before all else.
-/

namespace Cpu6502

structure Outcome where
  status : ExitStatus
  notes : List Note := []
  out : String := ""
  err : String := ""
  deriving DecidableEq, Repr

namespace Outcome

def complaint (text : String) : String :=
  "nesty: " ++ text ++ "\n"

def rejected (status : ExitStatus) (notes : List Note) (name reason : String) :
    Outcome where
  status := status
  notes := notes
  err := complaint (name ++ ": " ++ reason)

def ofProgress (p : Progress) : Outcome :=
  let report := p.emulator.machine.regs.report ++ "\n"
  match p.result with
  | .ok () => { status := .success, notes := p.notes, out := report }
  | .error fault =>
      { status := fault.exitStatus
        notes := p.notes
        err := complaint fault.message ++ report }

/-- What is written to the first output; the clock is read for each note. -/
def written (o : Outcome) (clock : Nat → String) : String :=
  String.join (o.notes.mapIdx fun k n => n.render (clock k) ++ "\n") ++ o.out

end Outcome

namespace Request

/-- The machine that has the image in its memory and is about to run it. -/
def start (q : Request) (image : List Byte) : Machine :=
  (Machine.powerOn.load q.origin image).goto q.pc

def loadNotes (q : Request) (image : List Byte) : List Note :=
  Note.when q.verbose "nesty"
    ("Loaded " ++ Nat.repr image.length ++ " bytes at 0x" ++
      Text.Hex.word q.origin)

def runImage (q : Request) (image : List Byte) (files : String → Entry) :
    Outcome :=
  let runWith (log : Option Log) : Outcome :=
    .ofProgress (Emulator.runFrom q.verbose (q.loadNotes image).toArray q.steps
      ⟨q.start image, log⟩)
  match q.log with
  | none => runWith none
  | some name =>
      match (files name).log with
      | .error fault =>
          .rejected .logNotFound (q.loadNotes image) name fault.message
      | .ok log => runWith (some log)

def run (q : Request) (files : String → Entry) : Outcome :=
  match (files q.image).bytes with
  | .error fault => .rejected .invalidImage [] q.image fault.message
  | .ok image =>
      match Image.validate image q.origin with
      | .error fault => .rejected .invalidImage [] q.image fault.message
      | .ok () => q.runImage image files

end Request

namespace Outcome

def usage (parser : Parser) (program : String) : String :=
  parser.usage ("Usage: " ++ program ++ " [options] IMAGE")

def ofArguments (parser : Parser) (program : String) (arguments : List String)
    (files : String → Entry) : Outcome :=
  match Invocation.ofArguments parser arguments with
  | .error fault => { status := .failure, err := complaint fault.message }
  | .ok .help => { status := .success, out := usage parser program }
  | .ok .misuse => { status := .failure, out := usage parser program }
  | .ok (.run request) => request.run files

end Outcome

end Cpu6502
