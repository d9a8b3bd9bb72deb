import Cpu6502.Word

/-!
# Trees of cells

A full binary tree with one byte at each leaf.  A tree of depth `n` has a leaf
for every bit vector of width `n`: the leading bit chooses the branch and the
others lead on.  A write copies one path and shares the rest, and a tree whose
leaves agree is built from one node per level.
-/

namespace Cpu6502

inductive Cells : Nat → Type where
  | leaf (byte : Byte) : Cells 0
  | fork {n : Nat} (lower upper : Cells n) : Cells (n + 1)
  deriving DecidableEq

namespace Cells

def fill (byte : Byte) : (n : Nat) → Cells n
  | 0 => .leaf byte
  | n + 1 =>
      let half := fill byte n
      .fork half half

def read : {n : Nat} → Cells n → BitVec n → Byte
  | _, .leaf byte, _ => byte
  | _, .fork lower upper, i =>
      if i.msb then upper.read (i.setWidth _) else lower.read (i.setWidth _)

def write : {n : Nat} → Cells n → BitVec n → Byte → Cells n
  | _, .leaf _, _, byte => .leaf byte
  | _, .fork lower upper, i, byte =>
      if i.msb then .fork lower (upper.write (i.setWidth _) byte)
      else .fork (lower.write (i.setWidth _) byte) upper

theorem eq_iff_msb_setWidth {n : Nat} (i j : BitVec (n + 1)) :
    i = j ↔ i.msb = j.msb ∧ i.setWidth n = j.setWidth n := by
  constructor
  · rintro rfl
    exact ⟨rfl, rfl⟩
  · rintro ⟨hm, hl⟩
    rw [← BitVec.cons_msb_setWidth i, ← BitVec.cons_msb_setWidth j, hm, hl]

theorem read_fill (byte : Byte) {n : Nat} (i : BitVec n) :
    (fill byte n).read i = byte := by
  induction n with
  | zero => rfl
  | succ n ih => simp [fill, read, ih]

theorem read_write {n : Nat} (c : Cells n) (i j : BitVec n) (byte : Byte) :
    (c.write i byte).read j = if j = i then byte else c.read j := by
  induction c with
  | leaf b => simp [read, write, Subsingleton.elim j i]
  | fork lower upper ihl ihu =>
      simp only [eq_iff_msb_setWidth j i]
      cases hi : i.msb <;> cases hj : j.msb <;>
        simp [read, write, hi, hj, ihl, ihu]

theorem ext_read {n : Nat} {c d : Cells n} (h : ∀ i, c.read i = d.read i) :
    c = d := by
  induction c with
  | leaf byte =>
      cases d with
      | leaf byte' => exact congrArg leaf (h 0)
  | @fork n lower upper ihl ihu =>
      cases d with
      | fork lower' upper' =>
          have hlower : lower = lower' := ihl fun i => by
            simpa [read] using h (BitVec.cons false i)
          have hupper : upper = upper' := ihu fun i => by
            simpa [read] using h (BitVec.cons true i)
          rw [hlower, hupper]

end Cells

end Cpu6502
