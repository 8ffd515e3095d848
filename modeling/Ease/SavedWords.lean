import Ease.ByteMemory
import Mathlib.Logic.Function.Basic

/-! Registers saved one after the other in memory, and taken back from it. -/

namespace Ease.SavedWords

variable {ρ : Type}

def save (regs : ρ → BitVec 32) : Nat → List ρ → Memory → Memory
  | _, [], mem => mem
  | addr, r :: rs, mem => save regs (addr + 4) rs (mem.store addr (encodeLE 4 (regs r).toNat))

def word (mem : Memory) (addr : Nat) : BitVec 32 := BitVec.ofNat 32 (decodeLE (mem.load addr 4))

def restore [DecidableEq ρ] (mem : Memory) : Nat → List ρ → (ρ → BitVec 32) → ρ → BitVec 32
  | _, [], regs => regs
  | addr, r :: rs, regs => restore mem (addr + 4) rs (Function.update regs r (word mem addr))

variable {regs : ρ → BitVec 32} {addr : Nat} {rs : List ρ} {mem : Memory}

theorem word_store (mem : Memory) (addr : Nat) (value : BitVec 32) :
    word (mem.store addr (encodeLE 4 value.toNat)) addr = value := by
  have fits : value.toNat < 256 ^ 4 := value.isLt
  rw [word, Memory.load_store _ _ (encodeLE_length 4 _), decodeLE_encodeLE fits,
    BitVec.ofNat_toNat, BitVec.setWidth_eq]

theorem word_congr {other : Memory} (same : ∀ a, addr ≤ a → a < addr + 4 → other a = mem a) :
    word other addr = word mem addr := by
  have bytes : other.load addr 4 = mem.load addr 4 := by
    apply List.map_congr_left
    intro offset member
    have inside := List.mem_range.mp member
    exact same _ (Nat.le_add_right _ _) (by omega)
  rw [word, word, bytes]

theorem save_outside {a : Nat} (outside : a < addr ∨ addr + 4 * rs.length ≤ a) :
    save regs addr rs mem a = mem a := by
  induction rs generalizing addr mem with
  | nil => rfl
  | cons r rs ih =>
      rw [List.length_cons] at outside
      rw [save, ih (by omega), Memory.store, encodeLE_length, if_neg (by omega)]

variable [DecidableEq ρ]

theorem restore_other {r : ρ} (other : r ∉ rs) : restore mem addr rs regs r = regs r := by
  induction rs generalizing addr regs with
  | nil => rfl
  | cons first rs ih =>
      rw [List.mem_cons, not_or] at other
      rw [restore, ih other.2, Function.update_of_ne other.1]

theorem restore_save {later : Memory} {others : ρ → BitVec 32} (nodup : rs.Nodup)
    (kept : ∀ a, addr ≤ a → a < addr + 4 * rs.length → later a = save regs addr rs mem a) :
    ∀ r ∈ rs, restore later addr rs others r = regs r := by
  induction rs generalizing addr mem others with
  | nil => simp
  | cons first rs ih =>
      rcases List.nodup_cons.mp nodup with ⟨fresh, nodup⟩
      rw [List.length_cons] at kept
      intro r member
      rcases List.mem_cons.mp member with rfl | inRest
      · have stored : word later addr = regs r := by
          rw [← word_store mem addr (regs r)]
          apply word_congr
          intro a after before
          rw [kept a after (by omega), save, save_outside (.inl before)]
        rw [restore, restore_other fresh, Function.update_self, stored]
      · have rest : ∀ a, addr + 4 ≤ a → a < addr + 4 + 4 * rs.length →
            later a = save regs (addr + 4) rs (mem.store addr (encodeLE 4 (regs first).toNat)) a :=
          fun a after before => kept a (by omega) (by omega)
        exact ih nodup rest r inRest

end Ease.SavedWords
