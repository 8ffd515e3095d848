import Ease.Alignment
import Ease.Rv32

/-! The zeroing of the BSS segment at boot. -/

namespace Ease

open Rounding (roundUp)
open Rv32 (Word Reg Instr State Reaches)

namespace Boot

def stackTop : Word := 0x80100000#32

/-- The label `1:` of `_start`. -/
def zeroLoop : Nat := 3

def zeroed : Nat := 7

def start (bssStart bssEnd : Word) : List Instr :=
  [.la .sp stackTop,
    .la .t0 bssStart,
    .la .t1 bssEnd,
    .bge .t0 .t1 zeroed,
    .sw .zero 0#12 .t0,
    .addi .t0 .t0 4#12,
    .j zeroLoop]

/-- `. = ALIGN(16); __heap_start = .;` -/
def heapStart (bssEnd : Word) : Nat := roundUp bssEnd.toNat 16

/-- The segment lies in RAM and starts at a word; its end may lie inside one. -/
structure BssPlaced (bssStart bssEnd : Word) : Prop where
  inRam : 0x80000000 ≤ bssStart.toNat
  ordered : bssStart.toNat ≤ bssEnd.toNat
  below : bssEnd.toNat < 0x88000000
  aligned : bssStart.toNat % 4 = 0

structure WordsZeroed (bssStart bssEnd : Word) (mem : Memory) (count : Nat) (state : State)
    (written : List Nat) : Prop where
  pc : state.pc = zeroLoop
  t0 : (state.reg .t0).toNat = bssStart.toNat + 4 * count
  t1 : state.reg .t1 = bssEnd
  covered : ∀ a, a ∈ written ↔ bssStart.toNat ≤ a ∧ a < bssStart.toNat + 4 * count
  zero : ∀ a ∈ written, state.mem a = 0
  kept : ∀ a, a ∉ written → state.mem a = mem a

section Loop

variable {bssStart bssEnd : Word} {mem : Memory} {count : Nat} {state : State}
  {before : List Nat}

theorem store_zero (mem : Memory) (addr a : Nat) :
    mem.store addr (encodeLE 4 (0#32).toNat) a =
      if addr ≤ a ∧ a < addr + 4 then 0 else mem a := by
  have zeros : encodeLE 4 (0#32).toNat = List.replicate 4 0 := rfl
  rw [zeros, Memory.store, List.length_replicate]
  by_cases inside : addr ≤ a ∧ a < addr + 4
  · rw [if_pos inside, if_pos (by omega), List.getD_replicate _ (by omega)]
  · rw [if_neg inside, if_neg (by omega)]

theorem body_runs (atLoop : state.pc = zeroLoop)
    (goesOn : ¬ (state.reg .t1).sle (state.reg .t0) = true)
    (aligned : (state.reg .t0).toNat % 4 = 0) :
    ∃ after, Reaches (start bssStart bssEnd) state (List.range' (state.reg .t0).toNat 4) after ∧
      after.pc = zeroLoop ∧ after.reg .t0 = state.reg .t0 + 4#32 ∧
      after.reg .t1 = state.reg .t1 ∧
      after.mem = state.mem.store (state.reg .t0).toNat (encodeLE 4 (0#32).toNat) := by
  have noOffset : (0#12).signExtend 32 = 0#32 := by decide
  have word : (4#12).signExtend 32 = 4#32 := by decide
  let stored : State :=
    { state.next with
      mem := state.mem.store (state.reg .t0).toNat (encodeLE 4 (0#32).toNat) }.next
  let added : State := (stored.setReg .t0 (state.reg .t0 + 4#32)).next
  have branch : Reaches (start bssStart bssEnd) state [] state.next := by
    apply Reaches.exec (by rw [atLoop]; rfl)
    rw [State.exec, if_neg goesOn]
  have store : Reaches (start bssStart bssEnd) state.next
      (List.range' (state.reg .t0).toNat 4) stored := by
    apply Reaches.exec (by rw [State.next_pc, atLoop]; rfl)
    rw [State.exec, State.next_reg, noOffset, BitVec.add_zero]
    exact if_pos aligned
  have add : Reaches (start bssStart bssEnd) stored [] added := by
    apply Reaches.exec (by simp only [stored, State.next_pc, atLoop]; rfl)
    rw [State.exec, word]
    rfl
  have back : Reaches (start bssStart bssEnd) added [] (added.jump zeroLoop) := by
    apply Reaches.exec (by simp only [added, stored, State.next_pc, State.setReg_pc, atLoop]; rfl)
    rfl
  have whole := ((branch.trans store).trans add).trans back
  rw [List.nil_append, List.append_nil, List.append_nil] at whole
  refine ⟨added.jump zeroLoop, whole, rfl, ?_, ?_, rfl⟩
  · exact State.setReg_same stored (state.reg .t0 + 4#32) (nofun : Reg.t0 ≠ .zero)
  · exact State.setReg_other stored (state.reg .t0 + 4#32) (nofun : Reg.t1 ≠ .t0)

theorem WordsZeroed.round (placed : BssPlaced bssStart bssEnd)
    (words : WordsZeroed bssStart bssEnd mem count state before)
    (more : bssStart.toNat + 4 * count < bssEnd.toNat) :
    ∃ after written, Reaches (start bssStart bssEnd) state written after ∧
      WordsZeroed bssStart bssEnd mem (count + 1) after (before ++ written) := by
  rcases placed with ⟨inRam, _, below, aligned⟩
  rcases words with ⟨pc, t0, t1, covered, zero, kept⟩
  have goesOn : ¬ (state.reg .t1).sle (state.reg .t0) = true := by
    rw [t1, Rv32.sle_iff_of_high (by omega) (by omega), t0]
    omega
  rcases body_runs pc goesOn (by omega) with ⟨after, reached, atLoop, moved, same, stored⟩
  have written : ∀ a, a ∈ List.range' (state.reg .t0).toNat 4 ↔
      (state.reg .t0).toNat ≤ a ∧ a < (state.reg .t0).toNat + 4 := fun a => List.mem_range'_1
  refine ⟨after, _, reached, atLoop, ?_, same.trans t1, fun a => ?_, fun a inside => ?_,
    fun a outside => ?_⟩
  · have four : (4#32).toNat = 4 := rfl
    rw [moved, BitVec.toNat_add, four, t0]
    omega
  · rw [List.mem_append, covered, written, t0]
    omega
  · rw [stored, store_zero]
    rcases List.mem_append.mp inside with old | new
    · rw [zero a old]
      exact ite_self 0
    · rw [if_pos ((written a).mp new)]
  · rw [List.mem_append, not_or] at outside
    rw [stored, store_zero, if_neg (mt (written a).mpr outside.2)]
    exact kept a outside.1

theorem enters_loop (bssStart bssEnd : Word) (regs : Reg → Word) (mem : Memory) :
    ∃ state, Reaches (start bssStart bssEnd) ⟨0, regs, mem⟩ [] state ∧
      WordsZeroed bssStart bssEnd mem 0 state [] := by
  let stacked : State := (State.setReg ⟨0, regs, mem⟩ .sp stackTop).next
  let loaded : State := (stacked.setReg .t0 bssStart).next
  have stack : Reaches (start bssStart bssEnd) ⟨0, regs, mem⟩ [] stacked := .exec rfl rfl
  have first : Reaches (start bssStart bssEnd) stacked [] loaded := .exec rfl rfl
  have last : Reaches (start bssStart bssEnd) loaded [] (loaded.setReg .t1 bssEnd).next :=
    .exec rfl rfl
  refine ⟨_, (stack.trans first).trans last, rfl, rfl, rfl, fun a => ?_, nofun, fun _ _ => rfl⟩
  simp

/-- `_start` comes to the label `2:` with the segment zeroed, and writes nothing below it
and nothing from the heap on. -/
theorem boot_zeroes_bss {bssStart bssEnd : Word} (placed : BssPlaced bssStart bssEnd)
    (regs : Reg → Word) (mem : Memory) :
    ∃ last written, Reaches (start bssStart bssEnd) ⟨0, regs, mem⟩ written last ∧
      last.pc = zeroed ∧
      (∀ a, bssStart.toNat ≤ a → a < bssEnd.toNat → last.mem a = 0) ∧
      (∀ a ∈ written, bssStart.toNat ≤ a ∧ a < heapStart bssEnd) ∧
      ∀ a, a ∉ written → last.mem a = mem a := by
  have heap := Rounding.dvd_roundUp bssEnd.toNat (by decide : 0 < 16)
  have above := Rounding.le_roundUp bssEnd.toNat (by decide : 0 < 16)
  have inRam := placed.inRam
  have ordered := placed.ordered
  have below := placed.below
  have aligned := placed.aligned
  rcases enters_loop bssStart bssEnd regs mem with ⟨state, entered, words⟩
  obtain ⟨done, written, looped, pc, t0, t1, covered, zero, kept⟩ :=
    Reaches.counted ((bssEnd.toNat - bssStart.toNat + 3) / 4)
      (fun count more state before words => words.round placed (by omega)) words
  have leaves : (done.reg .t1).sle (done.reg .t0) = true := by
    rw [t1, Rv32.sle_iff_of_high (by omega) (by omega), t0]
    omega
  have exit : Reaches (start bssStart bssEnd) done [] (done.jump zeroed) := by
    apply Reaches.exec (by rw [pc]; rfl)
    rw [State.exec, if_pos leaves]
  refine ⟨done.jump zeroed, _, (entered.trans looped).trans exit, rfl, fun a after before => ?_,
    fun a inside => ?_, fun a outside => ?_⟩
  · exact zero a ((covered a).mpr (by omega))
  · rw [List.nil_append, List.append_nil, covered] at inside
    rw [heapStart]
    omega
  · rw [List.nil_append, List.append_nil] at outside
    exact kept a outside

/-- The last two bytes of the segment share their word with the heap's gap. -/
theorem boot_zeroes_ragged_bss :
    ∃ last written,
      Reaches (start 0x80001000#32 0x80001006#32) ⟨0, fun _ => 0#32, fun _ => 0xFF⟩ written last ∧
      last.pc = zeroed ∧ (∀ a, 0x80001000 ≤ a → a < 0x80001006 → last.mem a = 0) ∧
      (∀ a ∈ written, 0x80001000 ≤ a ∧ a < 0x80001010) ∧
      ∀ a, a ∉ written → last.mem a = 0xFF :=
  boot_zeroes_bss ⟨by decide, by decide, by decide, by decide⟩ (fun _ => 0#32) fun _ => 0xFF

end Loop

end Boot

end Ease
