import Cpu6502.Command.Arguments
import Cpu6502.Command.Outcome
import Cpu6502.Proofs.Address
import Cpu6502.Proofs.Display
import Cpu6502.Proofs.Image
import Cpu6502.Proofs.Notes
import Cpu6502.Proofs.RunFrom

/-!
# Runs from the command line

What a quiet run shows to its caller, told by the values of the switches.  An
image that is refused is told before a log that is missing, and both before
anything is run.  A run that takes all its steps ends with a report, and one
that fails ends with the fault and a report of the machine that the failed step
has left.
-/

namespace Cpu6502

open Text

/--
A quiet run of an image is asked for, from these addresses and with so many
steps.  A switch that is not given stands for zero, for the origin, or for one
step.
-/
structure Matches.Asks (m : Matches) (image : String) (origin pc : Word)
    (steps : Nat) : Prop where
  help : m.present .help = false
  quiet : m.present .verbose = false
  free : m.free = [image]
  origin_value : (m.value? .origin).elim (origin = 0)
    fun text => Address.Denotes text.toList origin.toNat
  pc_value : (m.value? .pc).elim (pc = origin)
    fun text => Address.Denotes text.toList pc.toNat
  steps_value : (m.value? .steps).elim (steps = 1)
    fun text => Numeral.Denotes 10 text.toList steps ∧
      steps < 0x10000000000000000

/-- A machine at power-on, but for the program counter and an image. -/
structure Machine.Started (s : Machine) (image : List Byte) (origin pc : Word) :
    Prop where
  regs : s.regs = { pc := pc, sp := 0xFD, a := 0, x := 0, y := 0, p := ⟨0x24⟩ }
  read : ∀ address, s.read address = image.getD (address - origin).toNat 0

/-- What a caller sees of a run. -/
structure Outcome.Shows (o : Outcome) (code : Nat) (out err : String) :
    Prop where
  code : o.status.code = code
  out : ∀ clock, o.written clock = out
  err : o.err = err

theorem Image.validate_eq_ok_iff_fits {image : List Byte} {origin : Word} :
    validate image origin = .ok () ↔
      image ≠ [] ∧ origin.toNat + image.length ≤ 0x10000 := by
  rw [validate_eq_ok_iff, wraps_iff, Nat.not_lt]
  exact Iff.rfl

namespace Request

variable {m : Matches} {image : String} {origin pc : Word} {steps : Nat}

theorem addressOr_eq_ok {switch : Switch} {default address : Word}
    (h : (m.value? switch).elim (address = default)
      fun text => Address.Denotes text.toList address.toNat) :
    addressOr m switch default = .ok address := by
  unfold addressOr
  cases hvalue : m.value? switch with
  | none =>
      rw [hvalue] at h
      rw [show address = default from h]
  | some text =>
      rw [hvalue] at h
      simp only [Address.ofText?_eq_some_iff.mpr h]

theorem countOr_eq_ok {switch : Switch} {default count : Nat}
    (h : (m.value? switch).elim (count = default)
      fun text => Numeral.Denotes 10 text.toList count ∧
        count < 0x10000000000000000) :
    countOr m switch default = .ok count := by
  unfold countOr
  cases hvalue : m.value? switch with
  | none =>
      rw [hvalue] at h
      rw [show count = default from h]
  | some text =>
      rw [hvalue] at h
      have hread : Numeral.read 10 UInt64.size text.toList = .ok count :=
        (Numeral.read_eq_ok_iff (by decide) (by decide)).mpr h
      simp only [hread]
      rfl

/-- The values of the switches are those of the request. -/
theorem ofMatches_eq_ok (h : m.Asks image origin pc steps) :
    ofMatches m image =
      .ok { image, origin, pc, steps
            log := m.value? .testLog
            verbose := false } := by
  have horigin := addressOr_eq_ok h.origin_value
  have hpc := addressOr_eq_ok h.pc_value
  have hsteps := countOr_eq_ok h.steps_value
  simp only [ofMatches, bind, Except.bind, horigin, hpc, hsteps, h.quiet]
  rfl

end Request

theorem Invocation.ofArguments_eq_run {parser : Parser}
    {arguments : List String} {m : Matches} {image : String} {origin pc : Word}
    {steps : Nat} (parsed : parser.parse arguments = .ok m)
    (asked : m.Asks image origin pc steps) :
    ofArguments parser arguments =
      .ok (.run { image, origin, pc, steps, log := m.value? .testLog }) := by
  simp only [ofArguments, parsed, asked.help, asked.free,
    Request.ofMatches_eq_ok asked]
  rfl

namespace Machine

variable {s s' : Machine} {image : List Byte} {origin pc : Word}

/-- There is no more than one such machine. -/
theorem Started.unique (h : s.Started image origin pc)
    (h' : s'.Started image origin pc) : s = s' := by
  obtain ⟨regs, memory⟩ := s
  obtain ⟨regs', memory'⟩ := s'
  have hregs : regs = regs' := h.regs.trans h'.regs.symm
  have hmemory : memory = memory' :=
    Memory.ext_read fun address => (h.read address).trans (h'.read address).symm
  rw [hregs, hmemory]

theorem started_load (fits : origin.toNat + image.length ≤ 0x10000)
    (pc : Word) :
    ((powerOn.load origin image).goto pc).Started image origin pc where
  regs := rfl
  read address := by
    change (Memory.zeroed.load origin image).read address = _
    by_cases hinside : (address - origin).toNat < image.length
    · have haddress : address =
          origin + BitVec.ofNat 16 (address - origin).toNat := by
        bv_omega
      have hread := (Memory.Holds.of_load Memory.zeroed origin
        (by omega : image.length ≤ 65536)).read
          (List.getElem?_eq_getElem hinside)
      rw [← haddress] at hread
      rw [hread, List.getD_eq_getElem?_getD, List.getElem?_eq_getElem hinside]
      rfl
    · have hbehind := Nat.le_of_not_lt hinside
      rw [List.getD_eq_getElem?_getD, List.getElem?_eq_none hbehind,
        Memory.read_load_of_ne, Memory.read_zeroed]
      · rfl
      · intro k hk
        bv_omega

end Machine

namespace Request

variable {q : Request} {image : List Byte} {log : Option (List Byte)}
  {files : String → Entry}

theorem run_of_refused
    (h : ∀ image, files q.image = .file image →
      Image.validate image q.origin ≠ .ok ()) :
    (q.run files).status = .invalidImage := by
  unfold run
  cases hentry : files q.image with
  | absent | directory => rfl
  | file image =>
      simp only [Entry.bytes]
      cases hvalid : Image.validate image q.origin with
      | error fault => rfl
      | ok => exact absurd hvalid (h image hentry)

theorem run_of_valid (found : files q.image = .file image)
    (valid : Image.validate image q.origin = .ok ()) :
    q.run files = q.runImage image files := by
  simp only [run, found, Entry.bytes, valid]

theorem runImage_of_absent {name : String} {fault : ReadFault}
    (hlog : q.log = some name) (absent : files name = .absent fault) :
    (q.runImage image files).status = .logNotFound := by
  simp only [runImage, hlog, absent, Entry.log]
  rfl

theorem runImage_of_log (hlog : q.log.map files = log.map .file) :
    q.runImage image files = .ofProgress
      (Emulator.runFrom q.verbose (q.loadNotes image).toArray q.steps
        ⟨q.start image, log.map .content⟩) := by
  cases hname : q.log with
  | none =>
      rw [hname] at hlog
      obtain rfl : log = none := Option.map_eq_none_iff.mp hlog.symm
      simp only [runImage, hname]
      rfl
  | some name =>
      rw [hname] at hlog
      obtain ⟨bytes, rfl, hfile⟩ := Option.map_eq_some_iff.mp hlog.symm
      simp only [runImage, hname, ← hfile]
      rfl

/-- What becomes of a quiet request for a valid image. -/
theorem run_eq_ofProgress (quiet : q.verbose = false)
    (found : files q.image = .file image)
    (valid : Image.validate image q.origin = .ok ())
    (hlog : q.log.map files = log.map .file) :
    q.run files =
      .ofProgress (Emulator.runFrom false #[] q.steps
        ⟨q.start image, log.map .content⟩) := by
  rw [run_of_valid found valid, runImage_of_log hlog, loadNotes, quiet]
  rfl

end Request

namespace Outcome

variable {p : Progress}

@[simp] theorem notes_ofProgress (p : Progress) :
    (ofProgress p).notes = p.notes := by
  unfold ofProgress
  cases p.result <;> rfl

theorem written_of_notes_eq_nil {o : Outcome} (h : o.notes = [])
    (clock : Nat → String) : o.written clock = o.out := by
  rw [written, h]
  exact String.empty_append

/-- A quiet run writes what comes behind its notes and nothing else. -/
theorem written_ofProgress_quiet (e : Emulator) (n : Nat)
    (clock : Nat → String) :
    (ofProgress (Emulator.runFrom false #[] n e)).written clock =
      (ofProgress (Emulator.runFrom false #[] n e)).out :=
  written_of_notes_eq_nil
    ((notes_ofProgress _).trans (e.notes_runFrom_quiet #[] n)) clock

theorem shows_of_succeeds {e : Emulator} {n : Nat} (h : e.Succeeds n) :
    (ofProgress (Emulator.runFrom false #[] n e)).Shows 0
      ((e.after n).machine.regs.display ++ "\n") "" := by
  have hout := written_ofProgress_quiet e n
  obtain ⟨hresult, hafter⟩ := Emulator.runFrom_of_succeeds false #[] h
  simp only [ofProgress, hresult, hafter, Registers.report_eq_display] at hout ⊢
  exact ⟨rfl, hout, rfl⟩

theorem shows_of_fails {e : Emulator} {j n : Nat} {fault : Fault} {code : Nat}
    {text : String} (h : e.Fails j fault) (hj : j < n)
    (htells : fault.Tells code text) :
    (ofProgress (Emulator.runFrom false #[] n e)).Shows code ""
      ("nesty: " ++ text ++ "\n" ++ (e.after (j + 1)).machine.regs.display ++
        "\n") := by
  have hout := written_ofProgress_quiet e n
  obtain ⟨hresult, hafter⟩ := Emulator.runFrom_of_fails false #[] h hj
  obtain ⟨hcode, htext⟩ := htells.eq
  simp only [ofProgress, hresult, hafter, Registers.report_eq_display,
    htext] at hout ⊢
  exact ⟨hcode, hout, String.append_assoc.symm⟩

end Outcome

theorem Fault.Arises.tells {lines : List (List Byte)} {fault : Fault}
    (h : fault.Arises lines) : ∃ code text, fault.Tells code text := by
  cases h with
  | unknownOpcode opcode address => exact ⟨_, _, .unknownOpcode opcode address⟩
  | traceMismatch expected actual =>
      exact ⟨_, _, .traceMismatch expected actual⟩
  | invalidText => exact ⟨_, _, .invalidText⟩

theorem Fault.Arises.exists_line {lines : List (List Byte)} {fault : Fault}
    {text : String} (h : fault.Arises lines) (htells : fault.Tells 101 text) :
    ∃ line ∈ lines, Utf8.decode? line = none := by
  cases htells
  cases h with
  | invalidText mem undecoded => exact ⟨_, mem, undecoded⟩

namespace Emulator

/-- The lines of the log, if there is one. -/
def logLines (log : Option (List Byte)) : List (List Byte) :=
  (log.map (List.splitOn Log.newline)).getD []

/-- Nothing but these faults ends a run whose log is a file. -/
theorem arises_of_fails {s : Machine} {log : Option (List Byte)} {j : Nat}
    {fault : Fault} (h : Emulator.Fails ⟨s, log.map .content⟩ j fault) :
    fault.Arises (logLines log) := by
  have hstart : Log.Among (logLines log) (log.map .content) := by
    cases log with
    | none => trivial
    | some bytes => exact .inr (List.Subset.refl _)
  have hreached := after_of_step (P := fun e => Log.Among (logLines log) e.log)
    (fun _ h => (step_of_among h).1) (e := ⟨s, log.map .content⟩) hstart j
  exact (step_of_among hreached).2 fault h.failure

end Emulator

/-- Nothing but a line that is no text gives a run the code of a failed read. -/
theorem Outcome.exists_line {s : Machine} {log : Option (List Byte)} {n : Nat}
    (h : (ofProgress
      (Emulator.runFrom false #[] n ⟨s, log.map .content⟩)).status.code = 101) :
    ∃ bytes, log = some bytes ∧
      ∃ line ∈ bytes.splitOn Log.newline, Utf8.decode? line = none := by
  rcases Emulator.succeeds_or_fails ⟨s, log.map .content⟩ n with
    hsucceeds | ⟨j, hj, fault, hfails⟩
  · rw [(shows_of_succeeds hsucceeds).code] at h
    cases h
  · have harises := Emulator.arises_of_fails hfails
    obtain ⟨code, text, htells⟩ := harises.tells
    rw [(shows_of_fails hfails hj htells).code] at h
    subst h
    obtain ⟨line, hline, hdecode⟩ := harises.exists_line htells
    cases log with
    | none => cases hline
    | some bytes => exact ⟨bytes, rfl, line, hline, hdecode⟩

/--
How a quiet run ends, whatever parser has read the arguments.  An image that
cannot be read, is empty or does not fit gives 2, and then a log that cannot be
opened gives 3.  Otherwise the answer is that of steps taken one after the other
from power-on, up to the first that fails, and the steps that would have come
behind it have no part in it.
-/
theorem command_line_ends {parser : Parser} (program : String)
    {arguments : List String} {m : Matches} {image : String} {origin pc : Word}
    {steps : Nat} (parsed : parser.parse arguments = .ok m)
    (asked : m.Asks image origin pc steps) (files : String → Entry) :
    ((∀ bytes, files image = .file bytes →
          bytes = [] ∨ 0x10000 < origin.toNat + bytes.length) →
        (Outcome.ofArguments parser program arguments files).status.code = 2) ∧
      ∀ bytes, files image = .file bytes → bytes ≠ [] →
          origin.toNat + bytes.length ≤ 0x10000 →
        (∀ name fault, m.value? .testLog = some name →
            files name = .absent fault →
          (Outcome.ofArguments parser program arguments files).status.code =
            3) ∧
        ∀ (log : Option (List Byte)) (s : Machine),
            (m.value? .testLog).map files = log.map .file →
            s.Started bytes origin pc →
          (Emulator.Succeeds ⟨s, log.map .content⟩ steps →
            (Outcome.ofArguments parser program arguments files).Shows 0
              ((Emulator.after ⟨s, log.map .content⟩
                steps).machine.regs.display ++ "\n") "") ∧
          (∀ j < steps, ∀ fault, Emulator.Fails ⟨s, log.map .content⟩ j fault →
            (∃ code text, fault.Tells code text ∧
              (Outcome.ofArguments parser program arguments files).Shows code ""
                ("nesty: " ++ text ++ "\n" ++
                  (Emulator.after ⟨s, log.map .content⟩
                    (j + 1)).machine.regs.display ++ "\n")) ∧
            ∀ arguments' m' steps', parser.parse arguments' = .ok m' →
              m'.Asks image origin pc steps' →
              m'.value? .testLog = m.value? .testLog → j < steps' →
              Outcome.ofArguments parser program arguments' files =
                Outcome.ofArguments parser program arguments files) ∧
          ((Outcome.ofArguments parser program arguments files).status.code =
              101 →
            ∃ bytes, log = some bytes ∧
              ∃ line ∈ bytes.splitOn 0x0A, Utf8.decode? line = none) := by
  have hrun {arguments' m' steps'} (parsed' : parser.parse arguments' = .ok m')
      (asked' : m'.Asks image origin pc steps') :
      Outcome.ofArguments parser program arguments' files =
        Request.run
          { image, origin, pc, steps := steps', log := m'.value? .testLog }
          files := by
    simp only [Outcome.ofArguments,
      Invocation.ofArguments_eq_run parsed' asked']
  constructor
  · intro refused
    rw [hrun parsed asked, Request.run_of_refused]
    · rfl
    · intro bytes hbytes hvalid
      obtain ⟨hnonempty, hfits⟩ := Image.validate_eq_ok_iff_fits.mp hvalid
      rcases refused bytes hbytes with hempty | hlarge
      · exact hnonempty hempty
      · exact absurd hfits (Nat.not_le_of_lt hlarge)
  intro bytes found nonempty fits
  have valid : Image.validate bytes origin = .ok () :=
    Image.validate_eq_ok_iff_fits.mpr ⟨nonempty, fits⟩
  constructor
  · intro name fault hlog absent
    rw [hrun parsed asked, Request.run_of_valid found valid,
      Request.runImage_of_absent hlog absent]
    rfl
  intro log s hlog started
  obtain rfl : s = (Machine.powerOn.load origin bytes).goto pc :=
    started.unique (Machine.started_load fits pc)
  have hprogress {arguments' m' steps'}
      (parsed' : parser.parse arguments' = .ok m')
      (asked' : m'.Asks image origin pc steps')
      (hlog' : (m'.value? .testLog).map files = log.map .file) :
      Outcome.ofArguments parser program arguments' files =
        .ofProgress (Emulator.runFrom false #[] steps'
          ⟨(Machine.powerOn.load origin bytes).goto pc, log.map .content⟩) := by
    rw [hrun parsed' asked']
    exact Request.run_eq_ofProgress rfl found valid hlog'
  rw [hprogress parsed asked hlog]
  refine ⟨Outcome.shows_of_succeeds, fun j hj fault hfails => ⟨?_, ?_⟩,
    Outcome.exists_line⟩
  · obtain ⟨code, text, htells⟩ := (Emulator.arises_of_fails hfails).tells
    exact ⟨code, text, htells, Outcome.shows_of_fails hfails hj htells⟩
  · intro arguments' m' steps' parsed' asked' hsame hj'
    rw [hprogress parsed' asked' (hsame ▸ hlog)]
    exact congrArg Outcome.ofProgress
      (Emulator.runFrom_eq_of_fails false #[] hfails hj' hj)

/-- A run from behind the first byte of the image, and so many steps of it. -/
def stoppedArguments (steps : String) : List String :=
  ["--origin=0600", "-p", "$0601", "-s", steps, "-t", "log", "image"]

/-- The last byte of the image is no opcode, and the log is empty. -/
def stoppedFiles (name : String) : Entry :=
  if name = "image" then .file [0x00, 0xE8, 0x02]
  else if name = "log" then .file []
  else .absent .notFound

def stoppedMatches (steps : String) : Matches :=
  Arguments.toMatches
    ⟨[⟨.origin, "0600"⟩, ⟨.pc, "$0601"⟩, ⟨.steps, steps⟩, ⟨.testLog, "log"⟩],
      ["image"]⟩

theorem parse_stoppedArguments (steps : String) :
    Arguments.parser.parse (stoppedArguments steps) =
      .ok (stoppedMatches steps) := rfl

theorem stoppedMatches_asks {text : String} {steps : Nat}
    (h : Numeral.Denotes 10 text.toList steps ∧ steps < 0x10000000000000000) :
    (stoppedMatches text).Asks "image" 0x0600 0x0601 steps where
  help := rfl
  quiet := rfl
  free := rfl
  origin_value := Address.ofText?_eq_some_iff.mp (by decide +kernel)
  pc_value := Address.ofText?_eq_some_iff.mp (by decide +kernel)
  steps_value := h

def stoppedMachine : Machine :=
  (Machine.powerOn.load 0x0600 [0x00, 0xE8, 0x02]).goto 0x0601

def stoppedText : String :=
  "nesty: unknown opcode 0x02 at 0x0602\n" ++
    "CPU State:\n" ++
    "    Program Counter: 0x0603\n" ++
    "    Stack Pointer:   0xFD\n" ++
    "    Accumulator:     0x00\n" ++
    "    X Register:      0x01\n" ++
    "    Y Register:      0x00\n" ++
    "\n" ++
    "Status Register: 0x24\n" ++
    "    Carry Flag:        UNSET\n" ++
    "    Zero Flag:         UNSET\n" ++
    "    Interrupt Disable: SET\n" ++
    "    Decimal Mode:      UNSET\n" ++
    "    Break Command:     UNSET\n" ++
    "    Overflow Flag:     UNSET\n" ++
    "    Negative Flag:     UNSET\n"

theorem stopped_at_second_step :
    Arguments.parser.parse (stoppedArguments "2") = .ok (stoppedMatches "2") ∧
      (stoppedMatches "2").Asks "image" 0x0600 0x0601 2 ∧
      stoppedMachine.Started [0x00, 0xE8, 0x02] 0x0600 0x0601 ∧
      (Outcome.ofArguments Arguments.parser "nesty" (stoppedArguments "2")
        stoppedFiles).Shows 4 "" stoppedText ∧
      Outcome.ofArguments Arguments.parser "nesty" (stoppedArguments "900")
          stoppedFiles =
        Outcome.ofArguments Arguments.parser "nesty" (stoppedArguments "2")
          stoppedFiles := by
  have parsed := parse_stoppedArguments "2"
  have asked : (stoppedMatches "2").Asks "image" 0x0600 0x0601 2 :=
    stoppedMatches_asks ((Numeral.read_eq_ok_iff (by decide) (by decide)).mp
      (by decide +kernel))
  have asked' : (stoppedMatches "900").Asks "image" 0x0600 0x0601 900 :=
    stoppedMatches_asks ((Numeral.read_eq_ok_iff (by decide) (by decide)).mp
      (by decide +kernel))
  have started : stoppedMachine.Started [0x00, 0xE8, 0x02] 0x0600 0x0601 :=
    Machine.started_load (by decide) 0x0601
  have fails : Emulator.Fails ⟨stoppedMachine, some (.content [])⟩ 1
      (.unknownOpcode 0x02 0x0602) :=
    Emulator.fails_succ.mpr ⟨rfl, Emulator.fails_zero.mpr rfl⟩
  obtain ⟨-, hfound⟩ := command_line_ends "nesty" parsed asked stoppedFiles
  obtain ⟨-, hlogged⟩ := hfound _ rfl (by decide) (by decide)
  obtain ⟨-, hfails, -⟩ := hlogged (some []) stoppedMachine rfl started
  obtain ⟨⟨code, text, htells, hshows⟩, hmore⟩ := hfails 1 (by decide) _ fails
  have hregs :
      (Emulator.after ⟨stoppedMachine, some (.content [])⟩ 2).machine.regs =
      { Registers.powerOn with pc := 0x0603, x := 1 } := by
    decide +kernel
  have htext : "nesty: " ++
      ("unknown opcode 0x" ++ hexadecimal 2 0x02 ++ " at 0x" ++
        hexadecimal 4 0x0602) ++ "\n" ++
      { Registers.powerOn with pc := 0x0603, x := 1 }.display ++ "\n" =
        stoppedText := by
    decide +kernel
  refine ⟨parsed, asked, started, ?_,
    hmore _ _ 900 (parse_stoppedArguments "900") asked' rfl (by decide)⟩
  cases htells
  rw [← htext, ← hregs]
  exact hshows

end Cpu6502
