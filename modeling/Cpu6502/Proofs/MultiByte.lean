import Cpu6502.Proofs.Addition
import Cpu6502.Proofs.Runs
import Cpu6502.Proofs.Step

/-!
# Arithmetic on numbers of several bytes

The program that adds or subtracts two numbers byte by byte, from the lowest up:
it loads a byte of the left number, adds the byte of the right one or subtracts
it, and stores the byte of the result.  The carry goes from each byte to the
next, since loads and stores leave it alone, so that the bytes together are the
sum of the numbers.
-/

namespace Cpu6502

/-- A cell as an instruction names it, in page zero by the offset alone. -/
inductive Site where
  | zeroPage (offset : Byte)
  | absolute (address : Word)

def Site.address : Site → Word
  | .zeroPage offset => Word.zeroPage offset
  | .absolute address => address

/-- A mnemonic with the opcodes by which it reaches a cell. -/
structure Access where
  mnemonic : Mnemonic
  zeroPage : Byte
  absolute : Byte
  lookup_zeroPage : Encoding.lookup zeroPage =
    some ⟨zeroPage, mnemonic, .zeroPage⟩
  lookup_absolute : Encoding.lookup absolute =
    some ⟨absolute, mnemonic, .absolute⟩

namespace Access

def load : Access := ⟨.lda, 0xA5, 0xAD, rfl, rfl⟩

def store : Access := ⟨.sta, 0x85, 0x8D, rfl, rfl⟩

def add : Access := ⟨.adc, 0x65, 0x6D, rfl, rfl⟩

def subtract : Access := ⟨.sbc, 0xE5, 0xED, rfl, rfl⟩

def code (access : Access) : Site → List Byte
  | .zeroPage offset => [access.zeroPage, offset]
  | .absolute address => [access.absolute, Word.low address, Word.high address]

def encoding (access : Access) : Site → Encoding
  | .zeroPage _ => ⟨access.zeroPage, access.mnemonic, .zeroPage⟩
  | .absolute _ => ⟨access.absolute, access.mnemonic, .absolute⟩

variable {access : Access} {site : Site} {s : Machine}

theorem length_code (access : Access) (site : Site) :
    (access.code site).length = (access.encoding site).length := by
  cases site <;> rfl

theorem mnemonic_encoding (access : Access) (site : Site) :
    (access.encoding site).mnemonic = access.mnemonic := by
  cases site <;> rfl

theorem lookup_of_code (h : s.memory.Holds s.regs.pc (access.code site)) :
    Encoding.lookup (s.read s.regs.pc) = some (access.encoding site) := by
  have hfirst {byte : Byte} (hbyte : (access.code site)[0]? = some byte) :
      s.memory.read s.regs.pc = byte := by
    simpa using h.read hbyte
  rw [Machine.read]
  cases site with
  | zeroPage offset => rw [hfirst rfl, access.lookup_zeroPage, encoding]
  | absolute address => rw [hfirst rfl, access.lookup_absolute, encoding]

theorem operand_of_code (h : s.memory.Holds s.regs.pc (access.code site)) :
    (access.encoding site).mode.operand s.regs s.memory =
      .cell site.address := by
  cases site with
  | zeroPage offset =>
      have hoffset : s.memory.read (s.regs.pc + 1) = offset :=
        h.read (k := 1) rfl
      rw [encoding, Mode.operand_zeroPage, hoffset, Site.address]
  | absolute address =>
      have hlow : s.memory.read (s.regs.pc + 1) = Word.low address :=
        h.read (k := 1) rfl
      have hhigh : s.memory.read (s.regs.pc + 2) = Word.high address :=
        h.read (k := 2) rfl
      rw [encoding, Mode.operand_absolute, Memory.readWord,
        BitVec.add_assoc, hlow]
      rw [show (1 : Word) + 1 = 2 by rfl, hhigh, Word.ofBytes_low_high,
        Site.address]

/-- The instruction is carried out on the cell that it names. -/
theorem exists_effect (h : s.memory.Holds s.regs.pc (access.code site)) :
    ∃ i t, Runs s [i] t ∧
      Effect (.cell site.address) (s.behind (access.encoding site))
        access.mnemonic.operation t := by
  have hlookup := lookup_of_code h
  obtain ⟨i, hdecode, -⟩ := Instruction.exists_decode hlookup
  have heffect := Machine.effect_of_documented hlookup
  rw [operand_of_code h, mnemonic_encoding] at heffect
  exact ⟨i, s.step.2, .next_of_decode (by rw [hdecode]) (.refl _), heffect⟩

theorem runs_load (h : s.memory.Holds s.regs.pc (load.code site)) :
    ∃ i, Runs s [i]
      ((s.behind (load.encoding site)).produce .a (s.read site.address)) := by
  obtain ⟨i, t, run, heffect⟩ := exists_effect h
  change Effect _ _ (.load .a) _ at heffect
  cases heffect with
  | load found =>
      cases found
      exact ⟨i, run⟩

theorem runs_store (h : s.memory.Holds s.regs.pc (store.code site)) :
    ∃ i, Runs s [i]
      ((s.behind (store.encoding site)).write site.address s.regs.a) := by
  obtain ⟨i, t, run, heffect⟩ := exists_effect h
  change Effect _ _ (.store .a) _ at heffect
  cases heffect with
  | store stored =>
      cases stored
      exact ⟨i, run⟩

end Access

inductive Calculation where
  | addition
  | subtraction

namespace Calculation

def access : Calculation → Access
  | .addition => .add
  | .subtraction => .subtract

/-- The byte that is added to the left one for a right one. -/
def addend : Calculation → Byte → Byte
  | .addition, byte => byte
  | .subtraction, byte => ~~~byte

theorem runs {c : Calculation} {site : Site} {s : Machine}
    (h : s.memory.Holds s.regs.pc (c.access.code site)) :
    ∃ i, Runs s [i]
      ((s.behind (c.access.encoding site)).add
        (c.addend (s.read site.address))) := by
  obtain ⟨i, t, run, heffect⟩ := Access.exists_effect h
  cases c with
  | addition =>
      change Effect _ _ .add _ at heffect
      cases heffect with
      | add found =>
          cases found
          exact ⟨i, run⟩
  | subtraction =>
      change Effect _ _ .subtract _ at heffect
      cases heffect with
      | subtract found =>
          cases found
          exact ⟨i, run⟩

end Calculation

def Machine.bytes (s : Machine) (sites : List Site) : List Byte :=
  sites.map fun site => s.read site.address

@[simp] theorem Machine.length_bytes (s : Machine) (sites : List Site) :
    (s.bytes sites).length = sites.length :=
  List.length_map _

@[simp] theorem Machine.bytes_nil (s : Machine) : s.bytes [] = [] := rfl

@[simp] theorem Machine.bytes_cons (s : Machine) (site : Site)
    (sites : List Site) :
    s.bytes (site :: sites) = s.read site.address :: s.bytes sites := rfl

/-- Where one byte of each number and of the result lies. -/
structure Limb where
  left : Site
  right : Site
  result : Site

namespace Limb

variable (c : Calculation) (limb : Limb) (s : Machine)

def code : List Byte :=
  Access.load.code limb.left ++
    (c.access.code limb.right ++ Access.store.code limb.result)

def loaded : Machine :=
  (s.behind (Access.load.encoding limb.left)).produce .a
    (s.read limb.left.address)

def calculated : Machine :=
  ((limb.loaded s).behind (c.access.encoding limb.right)).add
    (c.addend (s.read limb.right.address))

/-- The machine when the byte of the result has been stored. -/
def stored : Machine :=
  ((limb.calculated c s).behind (Access.store.encoding limb.result)).write
    limb.result.address (limb.calculated c s).regs.a

theorem memory_stored :
    (limb.stored c s).memory =
      s.memory.write limb.result.address (limb.stored c s).regs.a := by
  have hmemory : (limb.calculated c s).memory = s.memory :=
    Machine.memory_add ..
  rw [← hmemory]
  rfl

theorem pc_stored :
    (limb.stored c s).regs.pc =
      s.regs.pc + BitVec.ofNat 16 (limb.code c).length := by
  simp only [code, List.length_append, Access.length_code, BitVec.ofNat_add,
    ← BitVec.add_assoc]
  rfl

theorem carry_loaded : (limb.loaded s).carry = s.carry :=
  Machine.carry_produce ..

theorem total_stored :
    (limb.stored c s).regs.a.toNat + 256 * (limb.stored c s).carry =
      (s.read limb.left.address).toNat +
        (c.addend (s.read limb.right.address)).toNat +
        s.carry := by
  change (limb.calculated c s).regs.a.toNat +
    256 * (limb.calculated c s).carry = _
  rw [calculated, Machine.total_add, ← limb.carry_loaded s]
  rfl

theorem overflow_stored :
    (limb.stored c s).regs.p.get .overflow = true ↔
      ¬ SignedFits 1 ((s.read limb.left.address).toInt +
        (c.addend (s.read limb.right.address)).toInt + s.carry) := by
  change (limb.calculated c s).regs.p.get .overflow = true ↔ _
  rw [calculated, Machine.overflow_add, ← limb.carry_loaded s]
  rfl

variable {c limb s}

theorem bytes_stored {sites : List Site}
    (h : ∀ site ∈ sites, limb.result.address ≠ site.address) :
    (limb.stored c s).bytes sites = s.bytes sites := by
  apply List.map_congr_left
  intro site hsite
  rw [Machine.read, limb.memory_stored,
    Memory.read_write_of_ne _ _ (h site hsite).symm, Machine.read]

theorem runs_stored (h : s.memory.Holds s.regs.pc (limb.code c)) :
    ∃ is, Runs s is (limb.stored c s) ∧ is.length = 3 := by
  obtain ⟨hload, h⟩ := h.of_append
  obtain ⟨hcalculate, hstore⟩ := h.of_append
  rw [Access.length_code .load] at hcalculate hstore
  rw [Access.length_code] at hstore
  obtain ⟨i, hi⟩ := Access.runs_load hload
  obtain ⟨j, hj⟩ : ∃ j, Runs (limb.loaded s) [j] (limb.calculated c s) :=
    Calculation.runs hcalculate
  obtain ⟨k, hk⟩ : ∃ k, Runs (limb.calculated c s) [k] (limb.stored c s) := by
    apply Access.runs_store
    rw [calculated, Machine.memory_add]
    exact hstore
  exact ⟨_, hi.append (hj.append hk), rfl⟩

end Limb

namespace Calculation

variable (c : Calculation)

def program (limbs : List Limb) : List Byte :=
  limbs.flatMap fun limb => limb.code c

/-- The machine when all bytes of the result have been stored. -/
def after (limbs : List Limb) (s : Machine) : Machine :=
  limbs.foldl (fun s limb => limb.stored c s) s

/--
The program lies at the program counter and is not written.  No result is
written over an earlier one, nor over a byte that is still to be read; it may be
written over a byte of its own limb.
-/
structure Placed (limbs : List Limb) (s : Machine) : Prop where
  code : s.memory.Holds s.regs.pc (c.program limbs)
  spared : ∀ limb ∈ limbs, ∀ k < (c.program limbs).length,
    limb.result.address ≠ s.regs.pc + BitVec.ofNat 16 k
  distinct : (limbs.map fun limb => limb.result.address).Nodup
  ordered : limbs.Pairwise fun earlier later =>
    earlier.result.address ≠ later.left.address ∧
      earlier.result.address ≠ later.right.address

theorem after_cons (limb : Limb) (limbs : List Limb) (s : Machine) :
    c.after (limb :: limbs) s = c.after limbs (limb.stored c s) := rfl

instance (limbs : List Limb) (s : Machine) : Decidable (c.Placed limbs s) :=
  decidable_of_iff (_ ∧ _ ∧ _ ∧ _)
    ⟨fun ⟨code, spared, distinct, ordered⟩ => ⟨code, spared, distinct, ordered⟩,
      fun ⟨code, spared, distinct, ordered⟩ =>
        ⟨code, spared, distinct, ordered⟩⟩

variable {c} {limb : Limb} {limbs : List Limb} {s : Machine}

theorem read_after_of_ne {cell : Word}
    (h : ∀ limb ∈ limbs, cell ≠ limb.result.address) :
    (c.after limbs s).read cell = s.read cell := by
  induction limbs generalizing s with
  | nil => rfl
  | cons limb limbs ih =>
      rw [List.forall_mem_cons] at h
      rw [after_cons, ih h.2, Machine.read, limb.memory_stored,
        Memory.read_write_of_ne _ _ h.1, Machine.read]

namespace Placed

theorem tail (h : c.Placed (limb :: limbs) s) :
    c.Placed limbs (limb.stored c s) := by
  have hprogram : c.program (limb :: limbs) =
      limb.code c ++ c.program limbs := rfl
  obtain ⟨hcode, hspared, hdistinct, hordered⟩ := h
  rw [hprogram] at hcode hspared
  rw [List.forall_mem_cons] at hspared
  have hcell {cell : Word}
      (hcell : ∀ k < (limb.code c ++ c.program limbs).length,
      cell ≠ s.regs.pc + BitVec.ofNat 16 k) :
      ∀ k < (c.program limbs).length,
      cell ≠ (limb.stored c s).regs.pc + BitVec.ofNat 16 k := by
    intro k hk
    rw [limb.pc_stored, BitVec.add_assoc, ← BitVec.ofNat_add]
    exact hcell _ (by rw [List.length_append]; omega)
  refine ⟨?_, fun later hlater => hcell (hspared.2 later hlater),
    hdistinct.of_cons, hordered.of_cons⟩
  rw [limb.memory_stored]
  apply Memory.Holds.write _ _ (hcell hspared.1)
  rw [limb.pc_stored]
  exact hcode.of_append.2

theorem bytes_left (h : c.Placed (limb :: limbs) s) :
    (limb.stored c s).bytes (limbs.map Limb.left) =
      s.bytes (limbs.map Limb.left) := by
  apply Limb.bytes_stored
  intro site hsite
  obtain ⟨later, hlater, rfl⟩ := List.mem_map.mp hsite
  exact (List.rel_of_pairwise_cons h.ordered hlater).1

theorem bytes_right (h : c.Placed (limb :: limbs) s) :
    (limb.stored c s).bytes (limbs.map Limb.right) =
      s.bytes (limbs.map Limb.right) := by
  apply Limb.bytes_stored
  intro site hsite
  obtain ⟨later, hlater, rfl⟩ := List.mem_map.mp hsite
  exact (List.rel_of_pairwise_cons h.ordered hlater).2

/-- The first byte of the result is not written again. -/
theorem read_result (h : c.Placed (limb :: limbs) s) :
    (c.after (limb :: limbs) s).read limb.result.address =
      (limb.stored c s).regs.a := by
  rw [after_cons, read_after_of_ne, Machine.read, limb.memory_stored,
    Memory.read_write_self]
  intro later hlater
  have hdistinct := h.distinct
  rw [List.map_cons, List.nodup_cons] at hdistinct
  intro heq
  exact hdistinct.1 (List.mem_map.mpr ⟨later, hlater, heq.symm⟩)

theorem runs (h : c.Placed limbs s) :
    ∃ is, Runs s is (c.after limbs s) ∧ is.length = 3 * limbs.length := by
  induction limbs generalizing s with
  | nil => exact ⟨[], .refl s, rfl⟩
  | cons limb limbs ih =>
      have hcode : s.memory.Holds s.regs.pc (limb.code c) := h.code.of_append.1
      obtain ⟨is, first, his⟩ := Limb.runs_stored hcode
      obtain ⟨js, rest, hjs⟩ := ih h.tail
      refine ⟨is ++ js, first.append rest, ?_⟩
      rw [List.length_append, his, hjs, List.length_cons]
      omega

theorem total (h : c.Placed limbs s) :
    number ((c.after limbs s).bytes (limbs.map Limb.result)) +
        256 ^ limbs.length * (c.after limbs s).carry =
      number (s.bytes (limbs.map Limb.left)) +
        number ((s.bytes (limbs.map Limb.right)).map c.addend) + s.carry := by
  induction limbs generalizing s with
  | nil => simp [Machine.bytes, after]
  | cons limb limbs ih =>
      have hbyte := limb.total_stored c s
      have hrest := ih h.tail
      rw [h.bytes_left, h.bytes_right, ← after_cons] at hrest
      have hcarry :=
        Nat.mul_right_comm (256 ^ limbs.length) 256
          (c.after (limb :: limbs) s).carry
      -- the carry out of the lowest limb is the one that goes into the rest
      simp only [List.map_cons, Machine.bytes_cons, number_cons, h.read_result,
        List.length_cons, Nat.pow_succ]
      omega

theorem overflow (h : c.Placed limbs s) (hlimbs : limbs ≠ []) :
    (c.after limbs s).regs.p.get .overflow = true ↔
      ¬ SignedFits limbs.length (signedNumber (s.bytes (limbs.map Limb.left)) +
        signedNumber ((s.bytes (limbs.map Limb.right)).map c.addend) +
        s.carry) := by
  induction limbs generalizing s with
  | nil => contradiction
  | cons limb limbs ih =>
      by_cases hlast : limbs = []
      · subst hlast
        simp only [List.map_cons, List.map_nil, Machine.bytes_cons,
          Machine.bytes_nil, signedNumber_singleton]
        exact limb.overflow_stored c s
      · -- the lowest byte and its carry out only shift the sum of the rest
        have hbyte := limb.total_stored c s
        have hleft : s.bytes (limbs.map Limb.left) ≠ [] := by
          simpa [Machine.bytes] using hlast
        have hright : (s.bytes (limbs.map Limb.right)).map c.addend ≠ [] := by
          simpa [Machine.bytes] using hlast
        have hlength : 0 < limbs.length := List.length_pos_iff.mpr hlast
        simp only [List.map_cons, Machine.bytes_cons, signedNumber_cons _ hleft,
          signedNumber_cons _ hright, List.length_cons]
        rw [after_cons, ih h.tail hlast, h.bytes_left, h.bytes_right,
          ← signedFits_cons hlength (limb.stored c s).regs.a.isLt]
        refine not_congr (iff_of_eq (congrArg (SignedFits _) ?_))
        omega

end Placed

end Calculation

/--
Numbers of any length are added and subtracted byte by byte without loss: the
carry in and the carry out make up for what does not fit, and the overflow flag
tells whether the signed result fits.
-/
theorem multi_byte_arithmetic_is_exact {limbs : List Limb} (hlimbs : limbs ≠ [])
    (s : Machine) :
    (Calculation.addition.Placed limbs s →
      ∃ is t, Runs s is t ∧ is.length = 3 * limbs.length ∧
        number (t.bytes (limbs.map Limb.result)) +
            256 ^ limbs.length * t.carry =
          number (s.bytes (limbs.map Limb.left)) +
            number (s.bytes (limbs.map Limb.right)) + s.carry ∧
        (t.regs.p.get .overflow = true ↔
          ¬ SignedFits limbs.length
            (signedNumber (s.bytes (limbs.map Limb.left)) +
              signedNumber (s.bytes (limbs.map Limb.right)) + s.carry))) ∧
      (Calculation.subtraction.Placed limbs s →
        ∃ is t, Runs s is t ∧ is.length = 3 * limbs.length ∧
          (number (t.bytes (limbs.map Limb.result)) : Int) =
            number (s.bytes (limbs.map Limb.left)) -
              number (s.bytes (limbs.map Limb.right)) -
              (1 - s.carry) + 256 ^ limbs.length * (1 - t.carry) ∧
          (t.regs.p.get .overflow = true ↔
            ¬ SignedFits limbs.length
              (signedNumber (s.bytes (limbs.map Limb.left)) -
                signedNumber (s.bytes (limbs.map Limb.right)) -
                (1 - s.carry)))) := by
  constructor
  · intro h
    obtain ⟨is, run, hlength⟩ := h.runs
    have hid :
        (s.bytes (limbs.map Limb.right)).map Calculation.addition.addend =
        s.bytes (limbs.map Limb.right) := List.map_id _
    have htotal := h.total
    have hoverflow := h.overflow hlimbs
    rw [hid] at htotal hoverflow
    exact ⟨is, _, run, hlength, htotal, hoverflow⟩
  · intro h
    obtain ⟨is, run, hlength⟩ := h.runs
    have hright : s.bytes (limbs.map Limb.right) ≠ [] := by
      simpa [Machine.bytes] using hlimbs
    have hnot :
        (s.bytes (limbs.map Limb.right)).map Calculation.subtraction.addend =
        (s.bytes (limbs.map Limb.right)).map (~~~·) := rfl
    have htotal := h.total
    have hoverflow := h.overflow hlimbs
    rw [hnot] at htotal hoverflow
    refine ⟨is, _, run, hlength, ?_, ?_⟩
    · have hcomplement := number_complement (s.bytes (limbs.map Limb.right))
      rw [Machine.length_bytes, List.length_map] at hcomplement
      zify at htotal hcomplement
      rw [mul_sub, mul_one]
      omega
    · rw [hoverflow, signedNumber_complement hright]
      refine not_congr (iff_of_eq (congrArg (SignedFits _) ?_))
      omega

/-- Two limbs that are calculated in place. -/
def inPlace : List Limb :=
  [⟨.zeroPage 0x10, .absolute 0x0300, .zeroPage 0x10⟩,
    ⟨.zeroPage 0x11, .absolute 0x0301, .absolute 0x0011⟩]

/--
The greatest number of two bytes in two's complement and one, with a program
across the end of memory.
-/
def greatestAndOne (c : Calculation) : Machine where
  regs := { Registers.powerOn with pc := 0xFFFA }
  memory := ((Memory.zeroed.load 0x0010 [0xFF, 0x7F]).load
    0x0300 [0x01, 0x00]).load 0xFFFA (c.program inPlace)

theorem greatestAndOne_exact :
    inPlace ≠ [] ∧
      (∃ is t, Runs (greatestAndOne .addition) is t ∧ is.length = 6 ∧
        number (t.bytes [.zeroPage 0x10, .absolute 0x0011]) +
          65536 * t.carry = 0x8000 ∧
        t.regs.p.get .overflow = true) ∧
      ∃ is t, Runs (greatestAndOne .subtraction) is t ∧ is.length = 6 ∧
        (number (t.bytes [.zeroPage 0x10, .absolute 0x0011]) : Int) =
          0x7FFD + 65536 * (1 - t.carry) ∧
        t.regs.p.get .overflow = false := by
  have hlimbs : inPlace ≠ [] := by simp [inPlace]
  have hsum :
      Calculation.addition.Placed inPlace (greatestAndOne .addition) := by
    decide +kernel
  have hdifference :
      Calculation.subtraction.Placed inPlace (greatestAndOne .subtraction) := by
    decide +kernel
  obtain ⟨is, t, run, hlength, htotal, hoverflow⟩ :=
    (multi_byte_arithmetic_is_exact hlimbs (greatestAndOne .addition)).1 hsum
  obtain ⟨js, u, run', hlength', htotal', hoverflow'⟩ :=
    (multi_byte_arithmetic_is_exact hlimbs
      (greatestAndOne .subtraction)).2 hdifference
  have hfits : u.regs.p.get .overflow = false :=
    Bool.eq_false_iff.mpr (mt hoverflow'.mp (by decide))
  exact ⟨hlimbs, ⟨is, t, run, hlength, htotal, hoverflow.mpr (by decide)⟩,
    js, u, run', hlength', htotal', hfits⟩

end Cpu6502
