import Ease.ByteMemory
import Mathlib.Logic.Function.Basic

/-! Records in memory: numbers in little-endian fields that do not overlap. A record is
the function from its fields to their numbers, and storing a field updates it there. -/

namespace Ease

namespace Memory

def SameOn (P : Nat → Prop) (mem other : Memory) : Prop := ∀ a, P a → mem a = other a

namespace SameOn

variable {P : Nat → Prop} {mem other third : Memory}

theorem refl (P : Nat → Prop) (mem : Memory) : SameOn P mem mem := fun _ _ => rfl

theorem trans (first : SameOn P mem other) (second : SameOn P other third) : SameOn P mem third :=
  fun a holds => (first a holds).trans (second a holds)

theorem symm (same : SameOn P mem other) : SameOn P other mem :=
  fun a holds => (same a holds).symm

theorem mono {Q : Nat → Prop} (same : SameOn P mem other) (fewer : ∀ a, Q a → P a) :
    SameOn Q mem other :=
  fun a holds => same a (fewer a holds)

theorem load (same : SameOn P mem other) {addr count : Nat}
    (inside : ∀ offset < count, P (addr + offset)) :
    mem.load addr count = other.load addr count := by
  apply List.map_congr_left
  intro offset member
  exact same _ (inside offset (List.mem_range.mp member))

theorem store (same : SameOn P mem other) (addr : Nat) (bytes : List UInt8) :
    SameOn P (mem.store addr bytes) (other.store addr bytes) := by
  intro a holds
  rw [Memory.store, Memory.store, same a holds]

theorem store_apart (P : Nat → Prop) (mem : Memory) {addr : Nat} {bytes : List UInt8}
    (apart : ∀ offset < bytes.length, ¬ P (addr + offset)) :
    SameOn P mem (mem.store addr bytes) := by
  intro a holds
  rw [Memory.store, if_neg]
  intro covered
  rcases covered with ⟨above, below⟩
  apply apart (a - addr) below
  rwa [Nat.add_sub_cancel' above]

end SameOn

def Within (base size a : Nat) : Prop := base ≤ a ∧ a < base + size

end Memory

theorem decodeLE_replicate_zero (width : Nat) : decodeLE (List.replicate width 0) = 0 := by
  induction width with
  | zero => rfl
  | succ width ih =>
      rw [List.replicate_succ, decodeLE, ih]
      rfl

theorem decodeLE_encodeLE_mod (width n : Nat) : decodeLE (encodeLE width n) = n % 256 ^ width := by
  induction width generalizing n with
  | zero =>
      rw [Nat.pow_zero, Nat.mod_one]
      rfl
  | succ width ih =>
      have low : (UInt8.ofNat n).toNat = n % 256 := UInt8.toNat_ofNat'
      calc decodeLE (encodeLE (width + 1) n)
          = (UInt8.ofNat n).toNat + 256 * decodeLE (encodeLE width (n / 256)) := rfl
        _ = n % 256 + 256 * (n / 256 % 256 ^ width) := by rw [low, ih]
        _ = n % (256 * 256 ^ width) := (Nat.mod_mul).symm
        _ = n % 256 ^ (width + 1) := by rw [Nat.pow_succ, Nat.mul_comm]

theorem encodeLE_decodeLE (bytes : List UInt8) :
    encodeLE bytes.length (decodeLE bytes) = bytes := by
  induction bytes with
  | nil => rfl
  | cons byte bytes ih =>
      have small := byte.toNat_lt
      have low : UInt8.ofNat (byte.toNat + 256 * decodeLE bytes) = byte := by
        apply UInt8.toNat_inj.mp
        rw [UInt8.toNat_ofNat']
        omega
      have high : (byte.toNat + 256 * decodeLE bytes) / 256 = decodeLE bytes := by omega
      rw [List.length_cons, decodeLE, encodeLE, low, high, ih]

theorem decodeLE_lt (bytes : List UInt8) : decodeLE bytes < 256 ^ bytes.length := by
  induction bytes with
  | nil => exact Nat.one_pos
  | cons byte bytes ih =>
      have small := byte.toNat_lt
      rw [decodeLE, List.length_cons, Nat.pow_succ]
      omega

/-- A number with its bytes in the other order, as `to_be` gives it on this machine. -/
def swapBytes (width n : Nat) : Nat := decodeLE (encodeLE width n).reverse

theorem swapBytes_lt (width n : Nat) : swapBytes width n < 256 ^ width := by
  have small := decodeLE_lt (encodeLE width n).reverse
  rwa [List.length_reverse, encodeLE_length] at small

theorem swapBytes_swapBytes {width n : Nat} (fits : n < 256 ^ width) :
    swapBytes width (swapBytes width n) = n := by
  have bytes := encodeLE_decodeLE (encodeLE width n).reverse
  rw [List.length_reverse, encodeLE_length] at bytes
  rw [swapBytes, swapBytes, bytes, List.reverse_reverse, decodeLE_encodeLE fits]

/-- The fields of a record, by their offsets and widths in bytes. -/
structure Fields (F : Type) where
  offset : F → Nat
  width : F → Nat
  size : Nat
  inside : ∀ field, offset field + width field ≤ size
  apart : ∀ field other, field ≠ other →
    offset field + width field ≤ offset other ∨ offset other + width other ≤ offset field

namespace Fields

variable {F : Type} (fields : Fields F)

def read (mem : Memory) (base : Nat) (field : F) : Nat :=
  decodeLE (mem.load (base + fields.offset field) (fields.width field))

def write (mem : Memory) (base : Nat) (field : F) (n : Nat) : Memory :=
  mem.store (base + fields.offset field) (encodeLE (fields.width field) n)

theorem read_write [DecidableEq F] (mem : Memory) (base : Nat) (field : F) (n : Nat) :
    fields.read (fields.write mem base field n) base =
      Function.update (fields.read mem base) field (n % 256 ^ fields.width field) := by
  funext other
  by_cases same : other = field
  · subst same
    rw [Function.update_self, read, write, Memory.load_store _ _ (encodeLE_length _ _),
      decodeLE_encodeLE_mod]
  · have apart := fields.apart other field same
    rw [Function.update_of_ne same, read, write,
      Memory.load_store_apart _ (by rw [encodeLE_length]; omega), read]

theorem read_congr {mem other : Memory} {base : Nat}
    (same : Memory.SameOn (Memory.Within base fields.size) mem other) :
    fields.read mem base = fields.read other base := by
  funext field
  have inside := fields.inside field
  rw [read, read, same.load fun offset below => ⟨by omega, by omega⟩]

theorem write_same (mem : Memory) (base : Nat) (field : F) (n : Nat) :
    Memory.SameOn (fun a => ¬ Memory.Within base fields.size a) mem
      (fields.write mem base field n) := by
  have inside := fields.inside field
  apply Memory.SameOn.store_apart
  intro offset below outside
  rw [encodeLE_length] at below
  exact outside ⟨by omega, by omega⟩

theorem read_zeros (mem : Memory) (base : Nat) :
    fields.read (mem.store base (List.replicate fields.size 0)) base = fun _ => 0 := by
  funext field
  have inside := fields.inside field
  have zeros : (mem.store base (List.replicate fields.size 0)).load (base + fields.offset field)
      (fields.width field) = List.replicate (fields.width field) 0 := by
    rw [List.eq_replicate_iff]
    refine ⟨Memory.load_length _ _ _, ?_⟩
    intro byte member
    rcases List.mem_map.mp member with ⟨offset, below, rfl⟩
    have small := List.mem_range.mp below
    have covered : base ≤ base + fields.offset field + offset ∧
        base + fields.offset field + offset - base <
          (List.replicate fields.size (0 : UInt8)).length := by
      rw [List.length_replicate]
      omega
    rw [Memory.store, if_pos covered, List.getD_eq_getElem _ _ covered.2, List.getElem_replicate]
  rw [read, zeros, decodeLE_replicate_zero]

def readBE (mem : Memory) (base : Nat) (field : F) : Nat :=
  swapBytes (fields.width field) (fields.read mem base field)

def writeBE (mem : Memory) (base : Nat) (field : F) (n : Nat) : Memory :=
  fields.write mem base field (swapBytes (fields.width field) n)

def storeBE (mem : Memory) (base : Nat) (entries : List (F × Nat)) : Memory :=
  entries.foldl (fun mem entry => fields.writeBE mem base entry.1 entry.2) mem

theorem readBE_writeBE [DecidableEq F] (mem : Memory) (base : Nat) {field : F} {n : Nat}
    (fits : n < 256 ^ fields.width field) :
    fields.readBE (fields.writeBE mem base field n) base =
      Function.update (fields.readBE mem base) field n := by
  funext other
  rw [readBE, writeBE, fields.read_write]
  by_cases same : other = field
  · subst same
    rw [Function.update_self, Function.update_self, Nat.mod_eq_of_lt (swapBytes_lt _ _),
      swapBytes_swapBytes fits]
  · rw [Function.update_of_ne same, Function.update_of_ne same, readBE]

theorem readBE_storeBE [DecidableEq F] (mem : Memory) (base : Nat) (entries : List (F × Nat))
    (fits : ∀ entry ∈ entries, entry.2 < 256 ^ fields.width entry.1) :
    fields.readBE (fields.storeBE mem base entries) base =
      entries.foldl (fun numbers entry => Function.update numbers entry.1 entry.2)
        (fields.readBE mem base) := by
  induction entries generalizing mem with
  | nil => rfl
  | cons entry entries ih =>
      rw [storeBE, List.foldl_cons, List.foldl_cons,
        ← fields.readBE_writeBE mem base (fits entry List.mem_cons_self)]
      exact ih _ fun other later => fits other (List.mem_cons_of_mem entry later)

theorem storeBE_same (mem : Memory) (base : Nat) (entries : List (F × Nat)) :
    Memory.SameOn (fun a => ¬ Memory.Within base fields.size a) mem
      (fields.storeBE mem base entries) := by
  induction entries generalizing mem with
  | nil => exact Memory.SameOn.refl _ mem
  | cons entry entries ih =>
      apply (fields.write_same mem base entry.1 _).trans
      exact ih _

theorem readBE_congr {mem other : Memory} {base : Nat}
    (same : Memory.SameOn (Memory.Within base fields.size) mem other) :
    fields.readBE mem base = fields.readBE other base := by
  funext field
  rw [readBE, readBE, fields.read_congr same]

end Fields

end Ease
