import Mathlib.Data.BitVec

namespace Omission.Lib
set_option autoImplicit true

/-- A right xorshift by at least a third of the width is undone by two more terms. -/
theorem xorshift_undo (a : BitVec w) (k : Nat) (h : w ≤ 3 * k) :
    (a ^^^ a >>> k) ^^^ (a ^^^ a >>> k) >>> k ^^^ (a ^^^ a >>> k) >>> (2 * k) = a := by
  ext i hi
  have hout : a.getLsbD (k + (2 * k + i)) = false := a.getLsbD_of_ge _ (by omega)
  have hsum : k + (k + i) = 2 * k + i := by omega
  simp only [BitVec.getElem_xor, BitVec.getElem_ushiftRight, BitVec.getLsbD_xor,
    BitVec.getLsbD_ushiftRight, hsum, hout]
  cases a[i] <;> cases a.getLsbD (k + i) <;> cases a.getLsbD (2 * k + i) <;> rfl

/-- In the other order the xorshift undoes the two terms. -/
theorem xorshift_redo (a : BitVec w) (k : Nat) (h : w ≤ 3 * k) :
    (a ^^^ a >>> k ^^^ a >>> (2 * k)) ^^^ (a ^^^ a >>> k ^^^ a >>> (2 * k)) >>> k = a := by
  ext i hi
  have hout : a.getLsbD (2 * k + (k + i)) = false := a.getLsbD_of_ge _ (by omega)
  have hsum : k + (k + i) = 2 * k + i := by omega
  simp only [BitVec.getElem_xor, BitVec.getElem_ushiftRight, BitVec.getLsbD_xor,
    BitVec.getLsbD_ushiftRight, hsum, hout]
  cases a[i] <;> cases a.getLsbD (k + i) <;> cases a.getLsbD (2 * k + i) <;> rfl

theorem mul_undo {m n : BitVec w} (h : m * n = 1#w) (a : BitVec w) : a * m * n = a := by
  rw [BitVec.mul_assoc, h, BitVec.mul_one]

theorem rotate_xor (a b : BitVec w) (k : Nat) (h : k ≤ w) :
    (a ^^^ b) <<< k ||| (a ^^^ b) >>> (w - k) =
      (a <<< k ||| a >>> (w - k)) ^^^ (b <<< k ||| b >>> (w - k)) := by
  ext i hi
  simp only [BitVec.getElem_or, BitVec.getElem_xor, BitVec.getElem_shiftLeft,
    BitVec.getElem_ushiftRight, BitVec.getLsbD_xor]
  by_cases hk : i < k
  · simp [hk]
  · have ha : a.getLsbD (w - k + i) = false := a.getLsbD_of_ge _ (by omega)
    have hb : b.getLsbD (w - k + i) = false := b.getLsbD_of_ge _ (by omega)
    simp [hk, ha, hb]

end Omission.Lib
