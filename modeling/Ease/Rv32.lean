import Ease.ByteMemory
import Ease.Checked
import Ease.Runs

/-! Programs of a few RV32 instructions: registers, memory, the bytes that a run writes,
and a rule for loops that count. -/

namespace Ease.Rv32

abbrev Word := BitVec 32

inductive Reg where
  | zero
  | sp
  | t0
  | t1
  deriving DecidableEq, Repr

inductive Instr where
  | la (rd : Reg) (addr : Word)
  | bge (rs1 rs2 : Reg) (target : Nat)
  | sw (rs2 : Reg) (offset : BitVec 12) (rs1 : Reg)
  | addi (rd rs1 : Reg) (imm : BitVec 12)
  | j (target : Nat)
  deriving DecidableEq, Repr

structure State where
  pc : Nat
  regs : Reg → Word
  mem : Memory

namespace State

def reg (state : State) : Reg → Word
  | .zero => 0#32
  | rd => state.regs rd

def setReg (state : State) (rd : Reg) (value : Word) : State :=
  { state with regs := Function.update state.regs rd value }

def jump (state : State) (target : Nat) : State := { state with pc := target }

def next (state : State) : State := state.jump (state.pc + 1)

@[simp] theorem jump_reg (state : State) (target : Nat) (r : Reg) :
    (state.jump target).reg r = state.reg r := by
  cases r <;> rfl

@[simp] theorem next_pc (state : State) : state.next.pc = state.pc + 1 := rfl

@[simp] theorem next_reg (state : State) (r : Reg) : state.next.reg r = state.reg r :=
  jump_reg state _ r

@[simp] theorem setReg_pc (state : State) (rd : Reg) (value : Word) :
    (state.setReg rd value).pc = state.pc := rfl

theorem reg_of_ne (state : State) {r : Reg} (writable : r ≠ .zero) :
    state.reg r = state.regs r := by
  cases r with
  | zero => exact absurd rfl writable
  | sp => rfl
  | t0 => rfl
  | t1 => rfl

theorem setReg_same (state : State) {rd : Reg} (value : Word) (writable : rd ≠ .zero) :
    (state.setReg rd value).reg rd = value := by
  rw [reg_of_ne _ writable]
  exact Function.update_self ..

theorem setReg_other (state : State) {rd r : Reg} (value : Word) (other : r ≠ rd) :
    (state.setReg rd value).reg r = state.reg r := by
  by_cases zero : r = .zero
  · subst zero
    rfl
  · rw [reg_of_ne _ zero, reg_of_ne _ zero]
    exact Function.update_of_ne other ..

/-- The state after the instruction, and the addresses of the bytes that it writes. Words
that are not aligned are left to the hardware. -/
def exec (state : State) : Instr → Exec (State × List Nat)
  | .la rd addr => .ok ((state.setReg rd addr).next, [])
  | .bge rs1 rs2 target =>
      .ok (if (state.reg rs2).sle (state.reg rs1) then state.jump target else state.next, [])
  | .sw rs2 offset rs1 =>
      let addr := (state.reg rs1 + offset.signExtend 32).toNat
      if addr % 4 = 0 then
        .ok ({ state with mem := state.mem.store addr (encodeLE 4 (state.reg rs2).toNat) }.next,
          List.range' addr 4)
      else .error .unmodelled
  | .addi rd rs1 imm => .ok ((state.setReg rd (state.reg rs1 + imm.signExtend 32)).next, [])
  | .j target => .ok (state.jump target, [])

end State

def step (program : List Instr) (state : State) (_ : Unit) : Exec (State × List Nat) :=
  match program[state.pc]? with
  | some instr => state.exec instr
  | none => .error .unmodelled

def Reaches (program : List Instr) (state : State) (written : List Nat) (last : State) : Prop :=
  ∃ steps outputs, Runs.run (step program) state (List.replicate steps ()) = .ok (last, outputs) ∧
    outputs.flatten = written

section

variable {program : List Instr} {state middle last : State} {first written : List Nat}

theorem Reaches.refl (state : State) : Reaches program state [] state := ⟨0, [], rfl, rfl⟩

theorem Reaches.trans (head : Reaches program state first middle)
    (tail : Reaches program middle written last) :
    Reaches program state (first ++ written) last := by
  rcases head with ⟨some, outputs, start, rfl⟩
  rcases tail with ⟨more, others, finish, rfl⟩
  refine ⟨some + more, outputs ++ others, ?_, List.flatten_append⟩
  rw [← List.replicate_append_replicate, Runs.run_append_eq_ok]
  exact ⟨middle, outputs, others, start, finish, rfl⟩

theorem Reaches.exec {instr : Instr} (here : program[state.pc]? = some instr)
    (executed : state.exec instr = .ok (last, written)) : Reaches program state written last := by
  refine ⟨1, [written], ?_, List.append_nil _⟩
  rw [List.replicate_one, Runs.run_cons_eq_ok]
  exact ⟨last, written, [], by rw [step, here]; exact executed, rfl, rfl⟩

/-- A loop whose body takes the invariant from one count to the next. -/
theorem Reaches.counted {Inv : Nat → State → List Nat → Prop} (rounds : Nat)
    (body : ∀ count < rounds, ∀ state before, Inv count state before →
      ∃ after written, Reaches program state written after ∧
        Inv (count + 1) after (before ++ written))
    (start : Inv 0 state []) :
    ∃ last written, Reaches program state written last ∧ Inv rounds last written := by
  induction rounds with
  | zero => exact ⟨state, [], .refl state, start⟩
  | succ rounds ih =>
      obtain ⟨middle, before, reached, kept⟩ := ih fun count below =>
        body count (Nat.lt_succ_of_lt below)
      obtain ⟨after, written, round, kept⟩ :=
        body rounds (Nat.lt_succ_self rounds) middle before kept
      exact ⟨after, before ++ written, reached.trans round, kept⟩

end

/-- In the upper half of the address space the order of signed numbers is that of the
addresses. -/
theorem sle_iff_of_high {x y : Word} (highX : 2 ^ 31 ≤ x.toNat) (highY : 2 ^ 31 ≤ y.toNat) :
    x.sle y = true ↔ x.toNat ≤ y.toNat := by
  rw [BitVec.sle_iff_toInt_le, BitVec.toInt_eq_toNat_cond, BitVec.toInt_eq_toNat_cond]
  omega

end Ease.Rv32
