import Mathlib.Data.List.GetD
import Mathlib.Data.UInt

/-! Memory of bytes at unbounded addresses, and numbers in little-endian order. -/

namespace Ease

abbrev Memory := Nat → UInt8

namespace Memory

def load (mem : Memory) (addr count : Nat) : List UInt8 :=
  (List.range count).map fun offset => mem (addr + offset)

def store (mem : Memory) (addr : Nat) (bytes : List UInt8) : Memory := fun a =>
  if addr ≤ a ∧ a - addr < bytes.length then bytes.getD (a - addr) 0 else mem a

@[simp] theorem load_length (mem : Memory) (addr count : Nat) :
    (mem.load addr count).length = count := by
  simp [load]

theorem load_store (mem : Memory) (addr : Nat) {count : Nat} {bytes : List UInt8}
    (size : bytes.length = count) : (mem.store addr bytes).load addr count = bytes := by
  subst size
  apply List.ext_getElem (load_length _ _ _)
  intro offset inside inBytes
  simp only [load, store, List.getElem_map, List.getElem_range]
  rw [if_pos (by omega), Nat.add_sub_cancel_left, List.getD_eq_getElem _ _ inBytes]

theorem load_store_apart (mem : Memory) {addr count other : Nat} {bytes : List UInt8}
    (apart : addr + count ≤ other ∨ other + bytes.length ≤ addr) :
    (mem.store other bytes).load addr count = mem.load addr count := by
  apply List.map_congr_left
  intro offset member
  have inside := List.mem_range.mp member
  exact if_neg (by omega)

theorem store_one (mem : Memory) (addr : Nat) (byte : UInt8) :
    mem.store addr [byte] addr = byte := by
  simp [store]

theorem blocks_apart {size first second : Nat} (other : first ≠ second) :
    first * size + size ≤ second * size ∨ second * size + size ≤ first * size := by
  rcases Nat.lt_or_gt_of_ne other with before | after
  · left
    calc first * size + size = (first + 1) * size := (Nat.succ_mul first size).symm
      _ ≤ second * size := Nat.mul_le_mul_right size before
  · right
    calc second * size + size = (second + 1) * size := (Nat.succ_mul second size).symm
      _ ≤ first * size := Nat.mul_le_mul_right size after

end Memory

def encodeLE : Nat → Nat → List UInt8
  | 0, _ => []
  | width + 1, n => UInt8.ofNat n :: encodeLE width (n / 256)

def decodeLE : List UInt8 → Nat
  | [] => 0
  | byte :: bytes => byte.toNat + 256 * decodeLE bytes

@[simp] theorem encodeLE_length (width n : Nat) : (encodeLE width n).length = width := by
  induction width generalizing n with
  | zero => rfl
  | succ width ih => rw [encodeLE, List.length_cons, ih]

theorem decodeLE_encodeLE {width n : Nat} (fits : n < 256 ^ width) :
    decodeLE (encodeLE width n) = n := by
  induction width generalizing n with
  | zero =>
      rw [Nat.pow_zero] at fits
      rw [encodeLE, decodeLE]
      omega
  | succ width ih =>
      have high : n / 256 < 256 ^ width := by
        rw [Nat.div_lt_iff_lt_mul (by decide), ← Nat.pow_succ]
        exact fits
      have low : (UInt8.ofNat n).toNat = n % 256 := UInt8.toNat_ofNat'
      calc decodeLE (encodeLE (width + 1) n)
          = (UInt8.ofNat n).toNat + 256 * decodeLE (encodeLE width (n / 256)) := rfl
        _ = n % 256 + 256 * (n / 256) := by rw [low, ih high]
        _ = n := Nat.mod_add_div n 256

end Ease
