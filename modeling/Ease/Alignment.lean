import Mathlib.Algebra.Group.Nat.Defs
import Mathlib.Data.Nat.Basic
import Mathlib.Order.Bounds.Basic

/-! Rounding up to a multiple, and the bit mask that rounds to a power of two. -/

namespace Ease.Rounding

def roundUp (n align : Nat) : Nat := (n + align - 1) / align * align

theorem roundUp_isLeast (n : Nat) {align : Nat} (positive : 0 < align) :
    IsLeast {m | align ∣ m ∧ n ≤ m} (roundUp n align) := by
  have quotient := Nat.div_add_mod (n + align - 1) align
  have small := Nat.mod_lt (n + align - 1) positive
  rw [Nat.mul_comm] at quotient
  refine ⟨⟨Nat.dvd_mul_left _ _, ?_⟩, ?_⟩
  · rw [roundUp]
    omega
  · intro _ multiple
    rcases multiple with ⟨⟨count, rfl⟩, above⟩
    rw [roundUp, Nat.mul_comm align]
    apply Nat.mul_le_mul_right
    rw [← Nat.lt_succ_iff, Nat.div_lt_iff_lt_mul positive, Nat.succ_mul, Nat.mul_comm count]
    omega

theorem le_roundUp (n : Nat) {align : Nat} (positive : 0 < align) : n ≤ roundUp n align :=
  (roundUp_isLeast n positive).1.2

theorem dvd_roundUp (n : Nat) {align : Nat} (positive : 0 < align) : align ∣ roundUp n align :=
  (roundUp_isLeast n positive).1.1

theorem roundUp_lt (n : Nat) {align : Nat} (positive : 0 < align) :
    roundUp n align < n + align := by
  have quotient := Nat.div_add_mod (n + align - 1) align
  rw [Nat.mul_comm] at quotient
  rw [roundUp]
  omega

theorem roundUp_zero {align : Nat} (positive : 0 < align) : roundUp 0 align = 0 :=
  Nat.le_zero.mp ((roundUp_isLeast 0 positive).2 ⟨Nat.dvd_zero _, Nat.le_refl _⟩)

/-- Clearing the low bits of a `width`-bit number, whose complement is taken at that
width, rounds down to a multiple of `2 ^ k`. -/
theorem and_not_mask {width k x : Nat} (below : x < 2 ^ width) :
    x &&& (2 ^ width - 1 - (2 ^ k - 1)) = x / 2 ^ k * 2 ^ k := by
  rw [← Nat.shiftRight_eq_div_pow, ← Nat.shiftLeft_eq]
  apply Nat.eq_of_testBit_eq
  intro i
  rw [Nat.testBit_and, Nat.testBit_shiftLeft, Nat.testBit_shiftRight]
  rcases Nat.lt_or_ge i width with inside | beyond
  · rcases Nat.le_total k width with narrow | wide
    · have mask : (2 ^ k - 1) + 1 ≤ 2 ^ width := by
        have size := Nat.pow_le_pow_right Nat.two_pos narrow
        have positive := Nat.two_pow_pos k
        omega
      rw [Nat.sub_sub, Nat.add_comm 1, Nat.testBit_two_pow_sub_succ mask,
        Nat.testBit_two_pow_sub_one]
      rcases Nat.lt_or_ge i k with low | high
      · simp [inside, low]
      · simp [inside, high, Nat.add_sub_cancel' high]
    · have size := Nat.pow_le_pow_right Nat.two_pos wide
      have none : 2 ^ width - 1 - (2 ^ k - 1) = 0 := by omega
      have low : ¬ k ≤ i := by omega
      simp [none, low]
  · have zero : x.testBit i = false :=
      Nat.testBit_lt_two_pow (Nat.lt_of_lt_of_le below (Nat.pow_le_pow_right Nat.two_pos beyond))
    rcases Nat.lt_or_ge i k with low | high
    · simp [zero, low]
    · simp [zero, high, Nat.add_sub_cancel' high]

end Ease.Rounding
