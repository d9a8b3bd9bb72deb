import Cpu6502.Proofs.CommandLine
import Cpu6502.Proofs.Notes

/-!
# Verbosity

The verbose switch in front of other arguments changes nothing but that notes
are made.  So a verbose run ends as the quiet one does, and writes what the
quiet one writes behind lines of its own.  How the switch in front is read is a
matter of the parser.
-/

namespace Cpu6502

/-- The verbose switch is added to what was matched, and nothing else. -/
structure Matches.AddsVerbose (loud m : Matches) : Prop where
  present : loud.present .verbose = true
  others : ∀ switch, switch ≠ .verbose →
    loud.present switch = m.present switch ∧
      loud.value? switch = m.value? switch
  free : loud.free = m.free

/--
What is documented of a parser about the verbose switch.  For arguments that are
not accepted, `occurs` tells whether the switch is among those that were read.
-/
structure Parser.Lawful (parser : Parser) (occurs : List String → Prop) :
    Prop where
  /-- A switch is present in accepted arguments if it occurs in them. -/
  present_iff : ∀ {arguments m}, parser.parse arguments = .ok m →
    (m.present .verbose = true ↔ occurs arguments)
  /-- A first verbose switch in front keeps arguments accepted. -/
  accepts : ∀ {arguments m}, ¬occurs arguments →
    parser.parse arguments = .ok m →
    ∃ loud, parser.parse ("-v" :: arguments) = .ok loud ∧ loud.AddsVerbose m
  /-- A first verbose switch in front keeps arguments refused. -/
  refuses : ∀ {arguments message}, ¬occurs arguments →
    parser.parse arguments = .error message →
    parser.parse ("-v" :: arguments) = .error message

namespace Arguments

variable {a : Arguments} {switch : Switch} {arguments : List String}

/-- The arguments with the verbose switch in front. -/
def verbosely (a : Arguments) : Arguments :=
  { a with settings := ⟨.verbose, ""⟩ :: a.settings }

/-- The verbose switch is among those that are read in the arguments. -/
def Occurs (arguments : List String) : Prop :=
  ∃ a, scan arguments = .ok a ∧ a.has .verbose = true

theorem scan_verbose (arguments : List String) :
    scan ("-v" :: arguments) = (scan arguments).map verbosely := by
  have hkind : kind "-v" = .group (.ok ⟨[⟨.verbose, ""⟩], none⟩) := rfl
  rw [scan, hkind]
  rfl

theorem count_verbosely (a : Arguments) (switch : Switch) :
    a.verbosely.count switch =
      a.count switch + if .verbose = switch then 1 else 0 := by
  simp [count, verbosely, List.countP_cons]

theorem count_eq_zero (h : a.has switch = false) : a.count switch = 0 := by
  simpa [has, count, List.countP_eq_zero] using h

/-- A switch is given more than once with the verbose switch or without. -/
theorem repeated_verbosely (h : a.has .verbose = false) :
    (Switch.all.find? fun switch => 1 < a.verbosely.count switch) =
      Switch.all.find? fun switch => 1 < a.count switch := by
  congr 1
  funext switch
  rw [count_verbosely]
  split
  next hverbose =>
    rw [← hverbose, count_eq_zero h]
    rfl
  next => rfl

theorem scan_of_ofList (h : ofList arguments = .ok a) :
    scan arguments = .ok a := by
  unfold ofList at h
  cases hscan : scan arguments with
  | error fault =>
      rw [hscan] at h
      cases h
  | ok b =>
      simp only [hscan] at h
      split at h
      · cases h
      · rw [Except.ok.inj h]

theorem ofList_verbose (quiet : ¬Occurs arguments) :
    ofList ("-v" :: arguments) = (ofList arguments).map verbosely := by
  rw [ofList, ofList, scan_verbose]
  cases hscan : scan arguments with
  | error fault => rfl
  | ok a =>
      have habsent : a.has .verbose = false :=
        Bool.eq_false_iff.mpr fun h => quiet ⟨a, hscan, h⟩
      have hrepeated := repeated_verbosely habsent
      simp only [Except.map, hrepeated]
      cases Switch.all.find? fun switch => 1 < a.count switch <;> rfl

theorem addsVerbose_verbosely (a : Arguments) :
    a.verbosely.toMatches.AddsVerbose a.toMatches where
  present := by simp [toMatches, has, verbosely]
  others switch h := by simp [toMatches, has, value?, verbosely, h.symm]
  free := rfl

theorem parse_eq_ok {m : Matches} (h : parser.parse arguments = .ok m) :
    ∃ a, ofList arguments = .ok a ∧ m = a.toMatches := by
  cases ha : ofList arguments with
  | error fault =>
      simp only [parser, ha] at h
      cases h
  | ok a =>
      simp only [parser, ha] at h
      cases h
      exact ⟨a, rfl, rfl⟩

theorem parser_lawful : parser.Lawful Occurs where
  present_iff := by
    intro arguments m h
    obtain ⟨a, ha, rfl⟩ := parse_eq_ok h
    have hscan := scan_of_ofList ha
    constructor
    · intro hpresent
      exact ⟨a, hscan, hpresent⟩
    · rintro ⟨b, hb, hpresent⟩
      rw [← Except.ok.inj (hb.symm.trans hscan)]
      exact hpresent
  accepts := by
    intro arguments m quiet h
    obtain ⟨a, ha, rfl⟩ := parse_eq_ok h
    refine ⟨a.verbosely.toMatches, ?_, a.addsVerbose_verbosely⟩
    simp only [parser, ofList_verbose quiet, ha]
    rfl
  refuses := by
    intro arguments message quiet h
    cases ha : ofList arguments with
    | error fault =>
        simp only [parser, ofList_verbose quiet, ha] at h ⊢
        exact h
    | ok a =>
        simp only [parser, ha] at h
        cases h

end Arguments

namespace Request

variable {loud m : Matches} {image : String}

theorem addressOr_of_addsVerbose (h : loud.AddsVerbose m) {switch : Switch}
    (hswitch : switch ≠ .verbose) (default : Word) :
    addressOr loud switch default = addressOr m switch default := by
  rw [addressOr, addressOr, (h.others switch hswitch).2]

theorem countOr_of_addsVerbose (h : loud.AddsVerbose m) {switch : Switch}
    (hswitch : switch ≠ .verbose) (default : Nat) :
    countOr loud switch default = countOr m switch default := by
  rw [countOr, countOr, (h.others switch hswitch).2]

/-- What is asked for with the verbose switch and without. -/
theorem ofMatches_of_addsVerbose (h : loud.AddsVerbose m)
    (quiet : m.present .verbose = false) (image : String) :
    (∃ fault, ofMatches loud image = .error fault ∧
      ofMatches m image = .error fault) ∨
      ∃ q : Request, q.verbose = false ∧ ofMatches m image = .ok q ∧
        ofMatches loud image = .ok { q with verbose := true } := by
  have hlog : loud.value? .testLog = m.value? .testLog :=
    (h.others .testLog (by decide)).2
  simp only [ofMatches, bind, Except.bind, addressOr_of_addsVerbose h,
    countOr_of_addsVerbose h, hlog, h.present, quiet, ne_eq, reduceCtorEq,
    not_false_eq_true]
  cases addressOr m .origin 0 with
  | error fault => exact .inl ⟨fault, rfl, rfl⟩
  | ok origin =>
      dsimp only
      cases addressOr m .pc origin with
      | error fault => exact .inl ⟨fault, rfl, rfl⟩
      | ok pc =>
          dsimp only
          cases countOr m .steps 1 with
          | error fault => exact .inl ⟨fault, rfl, rfl⟩
          | ok steps => exact .inr ⟨_, rfl, rfl, rfl⟩

end Request

/-- An outcome that is another one but for notes that take one line each. -/
structure Outcome.Annotates (loud quiet : Outcome) : Prop where
  status : loud.status = quiet.status
  out : loud.out = quiet.out
  err : loud.err = quiet.err
  unbroken : ∀ n ∈ loud.notes, n.Unbroken
  without : quiet.notes = []

namespace Outcome

theorem annotates_self {o : Outcome} (h : o.notes = []) : o.Annotates o :=
  ⟨rfl, rfl, rfl, fun n hn => by simp [h] at hn, h⟩

theorem annotates_ofProgress {p p' : Progress} (result : p.result = p'.result)
    (emulator : p.emulator = p'.emulator) (unbroken : ∀ n ∈ p.notes, n.Unbroken)
    (without : p'.notes = []) : (ofProgress p).Annotates (ofProgress p') := by
  refine ⟨?_, ?_, ?_, by rwa [notes_ofProgress], by rwa [notes_ofProgress]⟩
  all_goals
    unfold ofProgress
    rw [result, emulator]
    cases p'.result <;> rfl

end Outcome

namespace Request

variable {q : Request}

theorem unbroken_of_mem_loadNotes (q : Request) (image : List Byte) :
    ∀ n ∈ q.loadNotes image, n.Unbroken :=
  Note.unbroken_of_mem_when (by simp) (by simp)

theorem runImage_verbosely (quiet : q.verbose = false) (image : List Byte)
    (files : String → Entry) :
    ({ q with verbose := true }.runImage image files).Annotates
      (q.runImage image files) := by
  have hload := unbroken_of_mem_loadNotes { q with verbose := true } image
  have hnone : q.loadNotes image = [] := by
    rw [loadNotes, quiet]
    rfl
  -- Whatever the log is, the two runs differ in their notes only.
  have hrun (log : Option Log) :
      (Outcome.ofProgress (Emulator.runFrom true
          ({ q with verbose := true }.loadNotes image).toArray q.steps
          ⟨q.start image, log⟩)).Annotates
        (.ofProgress (Emulator.runFrom false #[] q.steps
          ⟨q.start image, log⟩)) := by
    obtain ⟨hresult, hafter⟩ := Emulator.runFrom_eq_quiet true
      ({ q with verbose := true }.loadNotes image).toArray q.steps
        ⟨q.start image, log⟩
    exact Outcome.annotates_ofProgress hresult hafter
      (Emulator.forall_mem_notes_runFrom true _
        (fun e => e.unbroken_of_mem_stepWith) hload _ _)
      (Emulator.notes_runFrom_quiet _ _ _)
  cases hlog : q.log with
  | none =>
      simp only [runImage, hlog, quiet, hnone]
      exact hrun none
  | some name =>
      simp only [runImage, hlog, quiet, hnone]
      cases (files name).log with
      | error fault => exact ⟨rfl, rfl, rfl, hload, rfl⟩
      | ok log => exact hrun (some log)

theorem run_verbosely (quiet : q.verbose = false) (files : String → Entry) :
    ({ q with verbose := true }.run files).Annotates (q.run files) := by
  simp only [run]
  cases (files q.image).bytes with
  | error fault => exact Outcome.annotates_self rfl
  | ok image =>
      dsimp only
      cases Image.validate image q.origin with
      | error fault => exact Outcome.annotates_self rfl
      | ok => exact runImage_verbosely quiet image files

end Request

theorem Outcome.annotates_verbose {parser : Parser}
    {occurs : List String → Prop} (laws : parser.Lawful occurs)
    (program : String) {arguments : List String} (quiet : ¬occurs arguments)
    (files : String → Entry) :
    (ofArguments parser program ("-v" :: arguments) files).Annotates
      (ofArguments parser program arguments files) := by
  cases hparse : parser.parse arguments with
  | error message =>
      simp only [ofArguments, Invocation.ofArguments, hparse,
        laws.refuses quiet hparse]
      exact annotates_self rfl
  | ok m =>
      obtain ⟨loud, hloud, hadds⟩ := laws.accepts quiet hparse
      have habsent : m.present .verbose = false :=
        Bool.eq_false_iff.mpr (mt (laws.present_iff hparse).mp quiet)
      have hhelp : loud.present .help = m.present .help :=
        (hadds.others .help (by decide)).1
      simp only [ofArguments, Invocation.ofArguments, hparse, hloud,
        hhelp, hadds.free]
      cases m.present .help with
      | true => exact annotates_self rfl
      | false =>
          rcases m.free with _ | ⟨image, _ | ⟨second, rest⟩⟩
          · exact annotates_self rfl
          · rcases Request.ofMatches_of_addsVerbose hadds habsent image with
              ⟨fault, herror, herror'⟩ | ⟨q, hquiet, hq, hq'⟩
            · simp only [herror, herror']
              exact annotates_self rfl
            · simp only [hq, hq']
              exact Request.run_verbosely hquiet files
          · exact annotates_self rfl

/-- What is written of notes is told by their tags and texts. -/
theorem Note.mapIdx_render (clock : Nat → String) (notes : List Note) :
    (notes.mapIdx fun k n => n.render (clock k) ++ "\n") =
      (notes.map fun n => (n.tag, n.text)).mapIdx fun k note =>
        "[" ++ clock k ++ "] -- [" ++ note.1 ++ "] " ++ note.2 ++ "\n" := by
  apply List.mapIdx_eq_iff.mpr
  intro k
  rw [List.getElem?_mapIdx, List.getElem?_map, Option.map_map]
  rfl

/--
A verbose switch in front changes neither the exit code nor the second output,
and adds whole lines in front of the first.  What the lines say does not depend
on the clock, which is read for each line anew.
-/
theorem verbosity_only_adds_lines {parser : Parser}
    {occurs : List String → Prop} (laws : parser.Lawful occurs)
    (program : String) {arguments : List String} (quiet : ¬occurs arguments)
    (files : String → Entry) :
    (Outcome.ofArguments parser program ("-v" :: arguments) files).status.code =
        (Outcome.ofArguments parser program arguments files).status.code ∧
      (Outcome.ofArguments parser program ("-v" :: arguments) files).err =
        (Outcome.ofArguments parser program arguments files).err ∧
      ∃ notes : List (String × String), ∀ clock clock' : Nat → String,
        (Outcome.ofArguments parser program ("-v" :: arguments) files).written
              clock =
            String.join (notes.mapIdx fun k note =>
              "[" ++ clock k ++ "] -- [" ++ note.1 ++ "] " ++ note.2 ++ "\n") ++
            (Outcome.ofArguments parser program arguments files).written
              clock' ∧
          ((∀ k, '\n' ∉ (clock k).toList) → ∀ k, ∀ note ∈ notes,
            '\n' ∉ ("[" ++ clock k ++ "] -- [" ++ note.1 ++ "] " ++
              note.2).toList) := by
  have h := Outcome.annotates_verbose laws program quiet files
  refine ⟨by rw [h.status], h.err,
    (Outcome.ofArguments parser program ("-v" :: arguments) files).notes.map
      fun n => (n.tag, n.text), fun clock clock' => ⟨?_, ?_⟩⟩
  · rw [Outcome.written_of_notes_eq_nil h.without, ← h.out, Outcome.written,
      Note.mapIdx_render]
  · intro hclock k note hnote
    obtain ⟨n, hn, rfl⟩ := List.mem_map.mp hnote
    exact (h.unbroken n hn).render (hclock k)

/-- A clock with a time of its own for each line. -/
def clockOfSeconds (k : Nat) : String :=
  "2016-11-05 12:30:0" ++ Nat.repr k

theorem newline_not_mem_clockOfSeconds (k : Nat) :
    '\n' ∉ (clockOfSeconds k).toList := by
  have happend : (clockOfSeconds k).toList =
      "2016-11-05 12:30:0".toList ++ (Nat.repr k).toList :=
    String.toList_append ..
  rw [happend, List.mem_append]
  exact not_or.mpr ⟨by decide, by simp⟩

/-- What the steps up to the one that fails add to the output. -/
def stoppedLines : String :=
  "[2016-11-05 12:30:00] -- [nesty] Loaded 3 bytes at 0x0600\n" ++
    "[2016-11-05 12:30:01] -- [cpu] " ++
    "0601  E8        INX                             " ++
    "A:00 X:00 Y:00 P:24 SP:FD\n" ++
    "[2016-11-05 12:30:02] -- [cpu] " ++
    "Execution log exhausted, testing finished\n" ++
    "[2016-11-05 12:30:03] -- [error] " ++
    "FATAL ERROR: unknown opcode 0x02 at 0x0602\n"

theorem not_occurs_stoppedArguments :
    ¬Arguments.Occurs (stoppedArguments "2") := by
  have habsent : (stoppedMatches "2").present .verbose = false := rfl
  have hiff := Arguments.parser_lawful.present_iff (parse_stoppedArguments "2")
  rw [habsent] at hiff
  exact fun h => Bool.false_ne_true (hiff.mpr h)

theorem stopped_verbosely :
    ¬Arguments.Occurs (stoppedArguments "2") ∧
      (Outcome.ofArguments Arguments.parser "nesty"
        ("-v" :: stoppedArguments "2") stoppedFiles).status.code = 4 ∧
      (Outcome.ofArguments Arguments.parser "nesty"
        ("-v" :: stoppedArguments "2") stoppedFiles).err = stoppedText ∧
      ∃ notes : List (String × String),
        String.join (notes.mapIdx fun k note =>
            "[" ++ clockOfSeconds k ++ "] -- [" ++ note.1 ++ "] " ++
              note.2 ++ "\n") =
          stoppedLines ∧
        ∀ k, ∀ note ∈ notes,
          '\n' ∉ ("[" ++ clockOfSeconds k ++ "] -- [" ++ note.1 ++ "] " ++
            note.2).toList := by
  have quiet := not_occurs_stoppedArguments
  obtain ⟨hcode, herr, notes, hnotes⟩ :=
    verbosity_only_adds_lines Arguments.parser_lawful "nesty" quiet stoppedFiles
  obtain ⟨hwritten, hunbroken⟩ := hnotes clockOfSeconds clockOfSeconds
  have hlines : (Outcome.ofArguments Arguments.parser "nesty"
      ("-v" :: stoppedArguments "2") stoppedFiles).written clockOfSeconds =
        stoppedLines := by
    decide +kernel
  have hquiet :
      (Outcome.ofArguments Arguments.parser "nesty" (stoppedArguments "2")
      stoppedFiles).written clockOfSeconds = "" := by
    decide +kernel
  have hjoin := hlines.symm.trans (hwritten.trans (congrArg _ hquiet))
  rw [String.append_empty] at hjoin
  exact ⟨quiet, hcode.trans (by decide +kernel),
    herr.trans (by decide +kernel), notes, hjoin.symm,
    hunbroken newline_not_mem_clockOfSeconds⟩

end Cpu6502
