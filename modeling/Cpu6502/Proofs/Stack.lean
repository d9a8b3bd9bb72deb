import Cpu6502.Proofs.Addressing
import Cpu6502.Proofs.Writes

/-!
# The stack as a stack of bytes

A stack that holds as many bytes as page one has cells, and the machine beside
it.  Bytes and words are pushed and pulled in any order.  As long as the stack
of bytes can follow, the machine gives the same answers, its stack pointer tells
how many bytes are held, and only the cells that a push has reached can have
changed.
-/

namespace Cpu6502

/-- Bytes on top of each other, the topmost first. -/
structure ByteStack where
  bytes : List Byte
  fits : bytes.length ≤ 256
  deriving DecidableEq, Repr

/-- The ways to use a stack. -/
inductive StackAccess where
  | push (byte : Byte)
  | pushWord (value : Word)
  | pull
  | pullWord
  deriving DecidableEq, Repr

inductive StackAnswer where
  | nothing
  | byte (byte : Byte)
  | word (value : Word)
  deriving DecidableEq, Repr

namespace ByteStack

def empty : ByteStack := ⟨[], Nat.zero_le _⟩

def depth (b : ByteStack) : Nat := b.bytes.length

/-- The byte on top of `k` others. -/
def above? (b : ByteStack) (k : Nat) : Option Byte := b.bytes.reverse[k]?

def push? (b : ByteStack) (byte : Byte) : Option ByteStack :=
  if room : b.bytes.length < 256 then some ⟨byte :: b.bytes, room⟩ else none

def pull? : ByteStack → Option (Byte × ByteStack)
  | ⟨[], _⟩ => none
  | ⟨byte :: bytes, fits⟩ => some (byte, ⟨bytes, Nat.le_of_succ_le fits⟩)

/-- The high byte is pushed first. -/
def pushWord? (b : ByteStack) (value : Word) : Option ByteStack :=
  (b.push? (BitVec.ofNat 8 (value.toNat / 256))).bind
    (·.push? (BitVec.ofNat 8 (value.toNat % 256)))

def pullWord? (b : ByteStack) : Option (Word × ByteStack) :=
  b.pull?.bind fun (low, b) =>
    b.pull?.map fun (high, b) =>
      (BitVec.ofNat 16 (low.toNat + 256 * high.toNat), b)

def access? (b : ByteStack) : StackAccess → Option (StackAnswer × ByteStack)
  | .push byte => (b.push? byte).map (.nothing, ·)
  | .pushWord value => (b.pushWord? value).map (.nothing, ·)
  | .pull => b.pull?.map fun (byte, b) => (.byte byte, b)
  | .pullWord => b.pullWord?.map fun (value, b) => (.word value, b)

def accessAll? (b : ByteStack) :
    List StackAccess → Option (List StackAnswer × ByteStack)
  | [] => some ([], b)
  | access :: rest =>
      (b.access? access).bind fun (answer, b) =>
        (b.accessAll? rest).map fun (answers, b) => (answer :: answers, b)

/-- The most bytes that are held on the way. -/
def peak (b : ByteStack) : List StackAccess → Nat
  | [] => b.depth
  | access :: rest =>
      match b.access? access with
      | none => b.depth
      | some (_, b') => max b.depth (b'.peak rest)

variable {b b' : ByteStack}

theorem push?_eq_some_iff {byte : Byte} :
    b.push? byte = some b' ↔ b.depth < 256 ∧ b'.bytes = byte :: b.bytes := by
  rw [push?, Option.dite_none_right_eq_some]
  constructor
  · rintro ⟨room, hb'⟩
    cases hb'
    exact ⟨room, rfl⟩
  · rintro ⟨room, hbytes⟩
    cases b'
    cases hbytes
    exact ⟨room, rfl⟩

theorem bytes_of_pull? {byte : Byte} (h : b.pull? = some (byte, b')) :
    b.bytes = byte :: b'.bytes := by
  obtain ⟨_ | ⟨top, rest⟩, fits⟩ := b
  · cases h
  · cases h
    rfl

theorem depth_of_cons {byte : Byte} (h : b'.bytes = byte :: b.bytes) :
    b'.depth = b.depth + 1 := by
  rw [depth, h]
  rfl

theorem above?_of_cons {byte : Byte}
    (h : b'.bytes = byte :: b.bytes) (k : Nat) :
    b'.above? k = if k = b.depth then some byte else b.above? k := by
  unfold above? depth
  rw [h, List.reverse_cons]
  rcases Nat.lt_trichotomy k b.bytes.length with hk | rfl | hk
  · rw [List.getElem?_append_left (by simpa using hk), if_neg (Nat.ne_of_lt hk)]
  · simp
  · rw [if_neg (Nat.ne_of_gt hk),
      List.getElem?_eq_none (by simpa using Nat.succ_le_of_lt hk),
      List.getElem?_eq_none (by simpa using Nat.le_of_lt hk)]

theorem lt_depth_of_above? {k : Nat} {byte : Byte}
    (h : b.above? k = some byte) : k < b.depth := by
  obtain ⟨hk, -⟩ := List.getElem?_eq_some_iff.mp h
  rwa [List.length_reverse] at hk

theorem depth_le_peak (b : ByteStack) (accesses : List StackAccess) :
    b.depth ≤ b.peak accesses := by
  cases accesses with
  | nil => exact Nat.le_refl _
  | cons a rest =>
      rw [peak]
      split
      · exact Nat.le_refl _
      · exact Nat.le_max_left _ _

theorem exists_accessAll?_take {accesses : List StackAccess}
    (h : (b.accessAll? accesses).isSome) (n : Nat) :
    ∃ answers b', b.accessAll? (accesses.take n) = some (answers, b') := by
  induction accesses generalizing b n with
  | nil => exact ⟨[], b, by rw [List.take_nil]; rfl⟩
  | cons access rest ih =>
      cases n with
      | zero => exact ⟨[], b, rfl⟩
      | succ n =>
          cases hnext : b.access? access with
          | none => simp [accessAll?, hnext] at h
          | some next =>
              have hrest : (next.2.accessAll? rest).isSome := by
                simpa [accessAll?, hnext] using h
              obtain ⟨answers, b', htake⟩ := ih hrest n
              exact ⟨next.1 :: answers, b', by simp [accessAll?, hnext, htake]⟩

end ByteStack

namespace Machine

def access (s : Machine) : StackAccess → StackAnswer × Machine
  | .push byte => (.nothing, s.push byte)
  | .pushWord value => (.nothing, s.pushWord value)
  | .pull => (.byte s.pull.1, s.pull.2)
  | .pullWord => (.word s.pullWord.1, s.pullWord.2)

def accessAll (s : Machine) : List StackAccess → List StackAnswer × Machine
  | [] => ([], s)
  | access :: rest =>
      let (answer, s) := s.access access
      let (answers, s) := s.accessAll rest
      (answer :: answers, s)

/-- The cell that a byte gets when it is pushed on top of `k` bytes. -/
def stackCell (s : Machine) (k : Nat) : Word :=
  Word.stackPage (s.regs.sp - BitVec.ofNat 8 k)

theorem stackCell_injective (s : Machine) {j k : Nat} (hj : j < 256)
    (hk : k < 256) (h : s.stackCell j = s.stackCell k) : j = k := by
  have hoffset := Word.stackPage_injective h
  bv_omega

/--
The machine `t` comes from `s` by pushing and pulling: it has these bytes on the
stack that was empty in `s`, and there were never more of them than `peak`.
-/
structure Carries (s : Machine) (b : ByteStack) (peak : Nat) (t : Machine) :
    Prop where
  regs : t.regs = { s.regs with sp := s.regs.sp - BitVec.ofNat 8 b.depth }
  held : ∀ k byte, b.above? k = some byte → t.read (s.stackCell k) = byte
  kept : ∀ cell, (∀ k < peak, cell ≠ s.stackCell k) → t.read cell = s.read cell

namespace Carries

variable {s t : Machine} {b b' : ByteStack} {peak : Nat}

theorem empty (s : Machine) : Carries s .empty 0 s where
  regs := by simp [ByteStack.empty, ByteStack.depth]
  held k byte h := absurd (ByteStack.lt_depth_of_above? h) (Nat.not_lt_zero k)
  kept _ _ := rfl

theorem mono (h : Carries s b peak t) {peak' : Nat} (hpeak : peak ≤ peak') :
    Carries s b peak' t where
  regs := h.regs
  held := h.held
  kept cell hcell :=
    h.kept cell fun k hk => hcell k (Nat.lt_of_lt_of_le hk hpeak)

theorem push (h : Carries s b peak t) {byte : Byte}
    (hpush : b.push? byte = some b') :
    Carries s b' (max peak b'.depth) (t.push byte) := by
  obtain ⟨room, hbytes⟩ := ByteStack.push?_eq_some_iff.mp hpush
  have hdepth := ByteStack.depth_of_cons hbytes
  have hread (cell : Word) : (t.push byte).read cell =
      if cell = s.stackCell b.depth then byte else t.read cell := by
    have htop : Word.stackPage t.regs.sp = s.stackCell b.depth := by
      rw [h.regs, stackCell]
    rw [← htop]
    exact Memory.read_write t.memory _ cell byte
  constructor
  case regs =>
    change { t.regs with sp := t.regs.sp - 1 } = _
    rw [h.regs, hdepth, BitVec.ofNat_add, ← BitVec.sub_sub]
    rfl
  case held =>
    intro k byte' hk
    rw [ByteStack.above?_of_cons hbytes] at hk
    rw [hread]
    by_cases htop : k = b.depth
    · rw [if_pos htop, Option.some.injEq] at hk
      rw [if_pos (by rw [htop]), hk]
    -- A stack that is not full has not come round to the cells of the bytes
    -- below.
    · rw [if_neg htop] at hk
      have hbelow := Nat.lt_trans (ByteStack.lt_depth_of_above? hk) room
      have hcell : s.stackCell k ≠ s.stackCell b.depth :=
        fun hcell => htop (s.stackCell_injective hbelow room hcell)
      rw [if_neg hcell, h.held k byte' hk]
  case kept =>
    intro cell hcell
    rw [hread, if_neg (hcell b.depth (by omega)), h.kept cell]
    intro k hk
    exact hcell k (by omega)

theorem pull (h : Carries s b peak t) {byte : Byte}
    (hpull : b.pull? = some (byte, b')) :
    t.pull.1 = byte ∧ Carries s b' peak t.pull.2 := by
  have hbytes := ByteStack.bytes_of_pull? hpull
  have hsp : t.regs.sp + 1 = s.regs.sp - BitVec.ofNat 8 b'.depth := by
    rw [h.regs, ByteStack.depth_of_cons hbytes, BitVec.ofNat_add,
      ← BitVec.sub_sub]
    exact BitVec.sub_add_cancel _ _
  constructor
  · change t.read (Word.stackPage (t.regs.sp + 1)) = byte
    rw [hsp]
    apply h.held b'.depth
    rw [ByteStack.above?_of_cons hbytes, if_pos rfl]
  · constructor
    case regs =>
      change { t.regs with sp := t.regs.sp + 1 } = _
      rw [hsp, h.regs]
    case held =>
      intro k byte' hk
      apply h.held k byte'
      have hbelow := ByteStack.lt_depth_of_above? hk
      rw [ByteStack.above?_of_cons hbytes, if_neg (Nat.ne_of_lt hbelow), hk]
    case kept => exact h.kept

theorem pushWord (h : Carries s b peak t) {value : Word}
    (hpush : b.pushWord? value = some b') :
    Carries s b' (max peak b'.depth) (t.pushWord value) := by
  obtain ⟨middle, hhigh, hlow⟩ := Option.bind_eq_some_iff.mp hpush
  rw [← Word.high_eq_ofNat] at hhigh
  rw [← Word.low_eq_ofNat] at hlow
  have hdepth := ByteStack.depth_of_cons (ByteStack.push?_eq_some_iff.mp hlow).2
  exact ((h.push hhigh).push hlow).mono (by omega)

theorem pullWord (h : Carries s b peak t) {value : Word}
    (hpull : b.pullWord? = some (value, b')) :
    t.pullWord.1 = value ∧ Carries s b' peak t.pullWord.2 := by
  obtain ⟨⟨low, middle⟩, hlow, hrest⟩ := Option.bind_eq_some_iff.mp hpull
  obtain ⟨⟨high, rest⟩, hhigh, hword⟩ := Option.map_eq_some_iff.mp hrest
  cases hword
  obtain ⟨hlow, hmiddle⟩ := h.pull hlow
  obtain ⟨hhigh, hb'⟩ := hmiddle.pull hhigh
  refine ⟨?_, hb'⟩
  rw [← Word.ofBytes_eq_ofNat, ← hlow, ← hhigh]
  rfl

theorem access (h : Carries s b peak t) {a : StackAccess} {answer : StackAnswer}
    (haccess : b.access? a = some (answer, b')) :
    (t.access a).1 = answer ∧
      Carries s b' (max peak b'.depth) (t.access a).2 := by
  cases a with
  | push byte =>
      obtain ⟨_, hpush, hb'⟩ := Option.map_eq_some_iff.mp haccess
      cases hb'
      exact ⟨rfl, h.push hpush⟩
  | pushWord value =>
      obtain ⟨_, hpush, hb'⟩ := Option.map_eq_some_iff.mp haccess
      cases hb'
      exact ⟨rfl, h.pushWord hpush⟩
  | pull =>
      obtain ⟨_, hpull, hb'⟩ := Option.map_eq_some_iff.mp haccess
      cases hb'
      obtain ⟨hbyte, hcarries⟩ := h.pull hpull
      exact ⟨congrArg StackAnswer.byte hbyte,
        hcarries.mono (Nat.le_max_left _ _)⟩
  | pullWord =>
      obtain ⟨_, hpull, hb'⟩ := Option.map_eq_some_iff.mp haccess
      cases hb'
      obtain ⟨hvalue, hcarries⟩ := h.pullWord hpull
      exact ⟨congrArg StackAnswer.word hvalue,
        hcarries.mono (Nat.le_max_left _ _)⟩

theorem accessAll (h : Carries s b peak t) {accesses : List StackAccess}
    {answers : List StackAnswer}
    (haccesses : b.accessAll? accesses = some (answers, b')) :
    (t.accessAll accesses).1 = answers ∧
      Carries s b' (max peak (b.peak accesses)) (t.accessAll accesses).2 := by
  induction accesses generalizing b t peak answers with
  | nil =>
      cases haccesses
      exact ⟨rfl, h.mono (Nat.le_max_left _ _)⟩
  | cons a rest ih =>
      obtain ⟨⟨answer, next⟩, hnext, hrest⟩ :=
        Option.bind_eq_some_iff.mp haccesses
      obtain ⟨⟨others, last⟩, hrest, hanswers⟩ :=
        Option.map_eq_some_iff.mp hrest
      cases hanswers
      obtain ⟨hanswer, hcarries⟩ := h.access hnext
      obtain ⟨hothers, hlast⟩ := ih hcarries hrest
      refine ⟨congrArg₂ List.cons hanswer hothers, hlast.mono ?_⟩
      have hdepth := next.depth_le_peak rest
      simp only [ByteStack.peak, hnext]
      omega

end Carries

end Machine

/--
The stack of a machine answers like a stack of at most 256 bytes, for as long as
that one accepts what is asked of it.  All other registers and cells stay as
they were.
-/
theorem machine_follows_byteStack (s : Machine) {accesses : List StackAccess}
    (accepted : (ByteStack.empty.accessAll? accesses).isSome) (n : Nat) :
    ∃ answers b, ByteStack.empty.accessAll? (accesses.take n) =
      some (answers, b) ∧
      (s.accessAll (accesses.take n)).1 = answers ∧
      (s.accessAll (accesses.take n)).2.regs =
        { s.regs with sp := s.regs.sp - BitVec.ofNat 8 b.depth } ∧
      (∀ cell, cell < 0x0100 ∨ 0x01FF < cell →
        (s.accessAll (accesses.take n)).2.read cell = s.read cell) ∧
      ∀ cell, (∀ k < ByteStack.empty.peak (accesses.take n),
        cell ≠ s.stackCell k) →
        (s.accessAll (accesses.take n)).2.read cell = s.read cell := by
  obtain ⟨answers, b, htake⟩ := ByteStack.exists_accessAll?_take accepted n
  obtain ⟨hanswers, hcarries⟩ := (Machine.Carries.empty s).accessAll htake
  rw [Nat.zero_max] at hcarries
  refine ⟨answers, b, htake, hanswers, hcarries.regs, ?_, hcarries.kept⟩
  intro cell hcell
  apply hcarries.kept
  rintro k - rfl
  obtain ⟨hlow, hhigh⟩ := Word.stackPage_mem (s.regs.sp - BitVec.ofNat 8 k)
  rcases hcell with hcell | hcell
  · exact absurd hlow (BitVec.not_le.mpr hcell)
  · exact absurd hhigh (BitVec.not_le.mpr hcell)

/-- The first word lies in the first and in the last cell of the page. -/
def atPageStart : Machine :=
  ⟨{ Registers.powerOn with sp := 0x00 }, .zeroed⟩

/-- Fills the stack, and takes a word off that was pushed in two parts. -/
def fillAndMix : List StackAccess :=
  List.replicate 128 (.pushWord 0xC0DE) ++ [.pull, .push 0xAB, .pullWord]

theorem fillAndMix_answers :
    (ByteStack.empty.accessAll? fillAndMix).isSome ∧
      ByteStack.empty.peak fillAndMix = 256 ∧
      (atPageStart.accessAll fillAndMix).1.drop 128 =
        [.byte 0xDE, .nothing, .word 0xC0AB] ∧
      (atPageStart.accessAll fillAndMix).2.regs =
        { Registers.powerOn with sp := 0x02 } := by
  have accepted : (ByteStack.empty.accessAll? fillAndMix).isSome := by
    decide +kernel
  obtain ⟨answers, b, hstack, hanswers, hregs, -⟩ :=
    machine_follows_byteStack atPageStart accepted fillAndMix.length
  rw [List.take_length] at hstack hanswers hregs
  have hexpected : (ByteStack.empty.accessAll? fillAndMix).map
      (fun (answers, b) => (answers.drop 128, b.depth)) =
        some ([.byte 0xDE, .nothing, .word 0xC0AB], 254) := by
    decide +kernel
  rw [hstack, Option.map_some, Option.some.injEq, Prod.mk.injEq] at hexpected
  refine ⟨accepted, by decide +kernel, ?_, ?_⟩
  · rw [hanswers, hexpected.1]
  · rw [hregs, hexpected.2]
    rfl

end Cpu6502
