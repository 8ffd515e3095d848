import Ease.SavedWords
import Ease.TimerRegisters

/-! Traps: the vector that saves the registers and calls the handler, and a program that
is interrupted. -/

namespace Ease.Trap

abbrev Word := BitVec 32

inductive Reg where
  | ra | sp | gp | tp
  | t0 | t1 | t2 | t3 | t4 | t5 | t6
  | a0 | a1 | a2 | a3 | a4 | a5 | a6 | a7
  | s0 | s1 | s2 | s3 | s4 | s5 | s6 | s7 | s8 | s9 | s10 | s11
  deriving DecidableEq, Repr

inductive Instr where
  | addi (rd rs1 : Reg) (imm : Int)
  | sw (rs2 : Reg) (offset : Int) (rs1 : Reg)
  | lw (rd : Reg) (offset : Int) (rs1 : Reg)
  | callTrapHandler
  | mret
  deriving DecidableEq, Repr

/-- What a program can see of the hart: `mie` is the bit of `mstatus` that enables
interrupts. -/
structure Core where
  pc : Word
  regs : Reg → Word
  mem : Memory
  mie : Bool

structure System where
  core : Core
  mpie : Bool
  mepc : Word
  mcause : Word
  timer : Timer
  printed : List String

namespace System

def withRegs (system : System) (regs : Reg → Word) : System :=
  { system with core := { system.core with regs } }

def withMem (system : System) (mem : Memory) : System :=
  { system with core := { system.core with mem } }

def reg (system : System) (r : Reg) : Word := system.core.regs r

def setReg (system : System) (rd : Reg) (value : Word) : System :=
  system.withRegs (Function.update system.core.regs rd value)

theorem setReg_same (system : System) (rd : Reg) (value : Word) :
    (system.setReg rd value).reg rd = value := Function.update_self ..

theorem setReg_other (system : System) {rd r : Reg} (value : Word) (other : r ≠ rd) :
    (system.setReg rd value).reg r = system.reg r := Function.update_of_ne other ..

end System

/-- What the compiled handler does to the registers and to memory, its call and return
included. -/
abbrev Compiled := (Reg → Word) → Memory → (Reg → Word) × Memory

def exceptionIllegalInstruction : Word := 2#32

def interruptTimer : Word := 7#32

def hex (value : Word) : String := String.ofList (Nat.toDigits 16 value.toNat)

/-- `trap_handler`. A panic stops the run, as a failed assertion with its message does. -/
def trapHandler (read : UInt64) (system : System) : Exec System :=
  let isInterrupt := (system.mcause >>> 31) &&& 1#32 == 1#32
  let code := system.mcause &&& 0x7FFFFFFF#32
  if isInterrupt then
    if code = interruptTimer then do
      let timer ← system.timer.handleInterrupt read
      .ok { system with timer }
    else
      .ok { system with
        printed := system.printed ++ ["Unknown interrupt " ++ code.toNat.repr ++ "\n"] }
  else if code = exceptionIllegalInstruction then
    .error (.assertFailed ("Illegal instruction at " ++ hex system.mepc))
  else
    .error (.assertFailed
      ("Unknown exception mcause " ++ hex system.mcause ++ " mepc " ++ hex system.mepc))

def address (system : System) (offset : Int) (rs1 : Reg) : Nat :=
  (system.reg rs1 + BitVec.ofInt 32 offset).toNat

def exec (compiled : Compiled) (read : UInt64) (system : System) : Instr → Exec System
  | .addi rd rs1 imm => .ok (system.setReg rd (system.reg rs1 + BitVec.ofInt 32 imm))
  | .sw rs2 offset rs1 =>
      let addr := address system offset rs1
      if addr % 4 = 0 then
        .ok (system.withMem (system.core.mem.store addr (encodeLE 4 (system.reg rs2).toNat)))
      else .error .unmodelled
  | .lw rd offset rs1 =>
      let addr := address system offset rs1
      if addr % 4 = 0 then .ok (system.setReg rd (SavedWords.word system.core.mem addr))
      else .error .unmodelled
  | .callTrapHandler =>
      let (regs, mem) := compiled system.core.regs system.core.mem
      trapHandler read ((system.withRegs regs).withMem mem)
  | .mret =>
      .ok { system with
        core := { system.core with pc := system.mepc, mie := system.mpie }
        mpie := true }

def saved : List Reg :=
  [.ra, .gp, .tp, .t0, .t1, .t2, .t3, .t4, .t5, .t6, .a0, .a1, .a2, .a3, .a4, .a5, .a6, .a7,
    .s0, .s1, .s2, .s3, .s4, .s5, .s6, .s7, .s8, .s9, .s10, .s11]

def saves (first : Nat) (rs : List Reg) : List Instr :=
  (rs.zipIdx first).map fun (r, slot) => .sw r (4 * slot) .sp

def restores (first : Nat) (rs : List Reg) : List Instr :=
  (rs.zipIdx first).map fun (r, slot) => .lw r (4 * slot) .sp

/-- `_trap_vector`. It has no branch of its own, so the list is its instructions in the order
in which they are executed. -/
def trapVector : List Instr :=
  .addi .sp .sp (-4 * 32) :: saves 0 saved ++
    .callTrapHandler :: restores 0 saved ++ [.addi .sp .sp (4 * 32), .mret]

def interrupted (system : System) : System :=
  { system with
    core := { system.core with mie := false }
    mepc := system.core.pc
    mcause := 0x80000007#32
    mpie := system.core.mie }

def takeInterrupt (compiled : Compiled) (read : UInt64) (system : System) : Exec System :=
  trapVector.foldlM (exec compiled read) (interrupted system)

/-- What can come next on the hart: an instruction of the program, or a moment at which the
timer interrupt is taken if it is pending and enabled. -/
inductive Beat where
  | instr
  | check (mtime read : UInt64) (ordered : mtime ≤ read)

def beat (program : Core → Core) (compiled : Compiled) (system : System) : Beat → Exec System
  | .instr => .ok { system with core := program system.core }
  | .check mtime read _ =>
      if system.core.mie ∧ system.timer.mtimecmp ≤ mtime.toNat then
        takeInterrupt compiled read system
      else .ok system

/-- Where a handler that is called with this stack pointer may write: the free part of the
stack, which starts at `limit`, and its own variables. -/
def Scratch (limit : Nat) (statics : Nat → Prop) (sp : Word) (a : Nat) : Prop :=
  limit ≤ a ∧ a < sp.toNat ∨ statics a

/-- The compiled handler keeps to the calling convention, and its variables lie below the
stack. -/
structure Convention (compiled : Compiled) (limit : Nat) (statics : Nat → Prop) : Prop where
  sp : ∀ regs mem, (compiled regs mem).1 .sp = regs .sp
  frame : ∀ regs mem a, ¬ Scratch limit statics (regs .sp) a → (compiled regs mem).2 a = mem a
  below : ∀ a, statics a → a < limit

section Vector

variable {compiled : Compiled} {read : UInt64} {system : System} {limit : Nat}
  {statics : Nat → Prop} {rs : List Reg} {first : Nat}

theorem address_slot {slot : Nat} (room : (system.reg .sp).toNat + 4 * slot < 2 ^ 32) :
    address system (4 * slot) .sp = (system.reg .sp).toNat + 4 * slot := by
  have small : (BitVec.ofInt 32 (4 * slot)).toNat = 4 * slot := by
    have cast : (4 * (slot : Int)) = ((4 * slot : Nat) : Int) := by simp
    rw [cast, BitVec.ofInt_natCast, BitVec.toNat_ofNat]
    omega
  rw [address, BitVec.toNat_add, small]
  omega

theorem saves_ok (aligned : (system.reg .sp).toNat % 4 = 0)
    (room : (system.reg .sp).toNat + 4 * (first + rs.length) ≤ 2 ^ 32) :
    (saves first rs).foldlM (exec compiled read) system =
      .ok (system.withMem (SavedWords.save system.core.regs
        ((system.reg .sp).toNat + 4 * first) rs system.core.mem)) := by
  induction rs generalizing first system with
  | nil => rfl
  | cons r rs ih =>
      rw [List.length_cons] at room
      have here : address system (4 * first) .sp = (system.reg .sp).toNat + 4 * first :=
        address_slot (by omega)
      have stored : exec compiled read system (.sw r (4 * first) .sp) =
          .ok (system.withMem (system.core.mem.store ((system.reg .sp).toNat + 4 * first)
            (encodeLE 4 (system.reg r).toNat))) := by
        rw [exec, here]
        exact if_pos (by omega)
      have rest := @ih (system.withMem (system.core.mem.store
        ((system.reg .sp).toNat + 4 * first) (encodeLE 4 (system.reg r).toNat))) (first + 1) aligned
        (by change (system.reg .sp).toNat + 4 * (first + 1 + rs.length) ≤ 2 ^ 32; omega)
      rw [saves, List.zipIdx_cons, List.map_cons, List.foldlM_cons, stored, Exec.ok_bind,
        ← saves, rest]
      rfl

theorem restores_ok (other : .sp ∉ rs) (aligned : (system.reg .sp).toNat % 4 = 0)
    (room : (system.reg .sp).toNat + 4 * (first + rs.length) ≤ 2 ^ 32) :
    (restores first rs).foldlM (exec compiled read) system =
      .ok (system.withRegs (SavedWords.restore system.core.mem
        ((system.reg .sp).toNat + 4 * first) rs system.core.regs)) := by
  induction rs generalizing first system with
  | nil => rfl
  | cons r rs ih =>
      rw [List.mem_cons, not_or] at other
      rw [List.length_cons] at room
      have here : address system (4 * first) .sp = (system.reg .sp).toNat + 4 * first :=
        address_slot (by omega)
      let loaded := system.setReg r
        (SavedWords.word system.core.mem ((system.reg .sp).toNat + 4 * first))
      have load : exec compiled read system (.lw r (4 * first) .sp) = .ok loaded := by
        rw [exec, here]
        exact if_pos (by omega)
      have same : loaded.reg .sp = system.reg .sp := system.setReg_other _ other.1
      have rest := @ih loaded (first + 1) other.2 (by rw [same]; exact aligned)
        (by rw [same]; omega)
      rw [restores, List.zipIdx_cons, List.map_cons, List.foldlM_cons, load, Exec.ok_bind,
        ← restores, rest, same]
      rfl

theorem saved_nodup : saved.Nodup := by decide

theorem sp_not_saved : .sp ∉ saved := by decide

theorem saved_all {r : Reg} (other : r ≠ .sp) : r ∈ saved := by
  cases r
  case sp => exact absurd rfl other
  all_goals decide

theorem trapHandler_timer {timer : Timer} (cause : system.mcause = 0x80000007#32)
    (handled : system.timer.handleInterrupt read = .ok timer) :
    trapHandler read system = .ok { system with timer } := by
  have interrupt : ((0x80000007#32 >>> 31) &&& 1#32 == 1#32) = true := by decide
  have code : 0x80000007#32 &&& 0x7FFFFFFF#32 = interruptTimer := by decide
  simp only [trapHandler, cause, interrupt, code, if_true, handled, Exec.ok_bind]

def lowered (system : System) : System :=
  (interrupted system).setReg .sp (system.reg .sp + BitVec.ofInt 32 (-4 * 32))

def framed (system : System) : Memory :=
  SavedWords.save (lowered system).core.regs ((lowered system).reg .sp).toNat saved system.core.mem

theorem lowered_sp : (lowered system).reg .sp = system.reg .sp + BitVec.ofInt 32 (-4 * 32) :=
  System.setReg_same ..

theorem lowered_toNat (room : limit + 128 ≤ (system.reg .sp).toNat) :
    ((lowered system).reg .sp).toNat = (system.reg .sp).toNat - 128 := by
  have bound := (system.reg .sp).isLt
  have offset : (BitVec.ofInt 32 (-4 * 32)).toNat = 2 ^ 32 - 128 := by decide
  rw [lowered_sp, BitVec.toNat_add, offset]
  omega

/-- The handler returns with the frame as it was saved. -/
theorem Convention.keeps_frame (convention : Convention compiled limit statics)
    (room : limit + 128 ≤ (system.reg .sp).toNat) (a : Nat)
    (after : ((lowered system).reg .sp).toNat ≤ a) :
    (compiled (lowered system).core.regs (framed system)).2 a = framed system a := by
  rw [lowered_toNat room] at after
  apply convention.frame
  rintro (⟨_, before⟩ | own)
  · rw [← System.reg, lowered_toNat room] at before
    omega
  · have low := convention.below a own
    omega

theorem Convention.keeps_memory (convention : Convention compiled limit statics)
    (room : limit + 128 ≤ (system.reg .sp).toNat) (a : Nat)
    (outside : ¬ Scratch limit statics (system.reg .sp) a) :
    (compiled (lowered system).core.regs (framed system)).2 a = system.core.mem a := by
  rw [Scratch, not_or] at outside
  have thirty : saved.length = 30 := rfl
  have sp := @lowered_toNat system limit room
  calc (compiled (lowered system).core.regs (framed system)).2 a
      = framed system a := by
        apply convention.frame
        rintro (⟨above, before⟩ | own)
        · rw [← System.reg] at before
          exact outside.1 ⟨above, by omega⟩
        · exact outside.2 own
    _ = system.core.mem a := by
        apply SavedWords.save_outside
        by_contra inside
        exact outside.1 ⟨by omega, by omega⟩

theorem Convention.restores (convention : Convention compiled limit statics)
    (room : limit + 128 ≤ (system.reg .sp).toNat) :
    Function.update
        (SavedWords.restore (compiled (lowered system).core.regs (framed system)).2
          ((lowered system).reg .sp).toNat saved
            (compiled (lowered system).core.regs (framed system)).1)
        .sp (system.reg .sp) =
      system.core.regs := by
  funext r
  by_cases pointer : r = .sp
  · rw [pointer, Function.update_self, System.reg]
  · rw [Function.update_of_ne pointer,
      SavedWords.restore_save saved_nodup
        (fun a after _ => convention.keeps_frame room a after) r (saved_all pointer)]
    exact System.setReg_other _ _ pointer

theorem enters_ok (aligned : (system.reg .sp).toNat % 4 = 0)
    (room : limit + 128 ≤ (system.reg .sp).toNat) :
    (.addi .sp .sp (-4 * 32) :: saves 0 saved).foldlM (exec compiled read) (interrupted system) =
      .ok ((lowered system).withMem (framed system)) := by
  have bound := (system.reg .sp).isLt
  have thirty : saved.length = 30 := rfl
  have low := @lowered_toNat system limit room
  have stored := @saves_ok compiled read (lowered system) saved 0 (by omega) (by omega)
  rw [Nat.mul_zero, Nat.add_zero] at stored
  have lowers : exec compiled read (interrupted system) (.addi .sp .sp (-4 * 32)) =
      .ok (lowered system) := rfl
  rw [List.foldlM_cons, lowers, Exec.ok_bind, stored]
  rfl

theorem leaves_ok (aligned : (system.reg .sp).toNat % 4 = 0)
    (room : (system.reg .sp).toNat + 4 * 32 ≤ 2 ^ 32) :
    (restores 0 saved ++ [Instr.addi .sp .sp (4 * 32), .mret]).foldlM (exec compiled read) system =
      .ok ⟨⟨system.mepc, Function.update
          (SavedWords.restore system.core.mem (system.reg .sp).toNat saved system.core.regs) .sp
          (system.reg .sp + BitVec.ofInt 32 (4 * 32)), system.core.mem, system.mpie⟩,
        true, system.mepc, system.mcause, system.timer, system.printed⟩ := by
  have thirty : saved.length = 30 := rfl
  have loaded := @restores_ok compiled read system saved 0 sp_not_saved aligned (by omega)
  rw [Nat.mul_zero, Nat.add_zero] at loaded
  have sp : System.reg (system.withRegs (SavedWords.restore system.core.mem
      (system.reg .sp).toNat saved system.core.regs)) .sp = system.reg .sp :=
    SavedWords.restore_other sp_not_saved
  have raises : exec compiled read (system.withRegs (SavedWords.restore system.core.mem
      (system.reg .sp).toNat saved system.core.regs)) (.addi .sp .sp (4 * 32)) =
        .ok (System.setReg (system.withRegs (SavedWords.restore system.core.mem
          (system.reg .sp).toNat saved system.core.regs)) .sp
            (system.reg .sp + BitVec.ofInt 32 (4 * 32))) := by
    rw [← sp]
    rfl
  rw [List.foldlM_append, loaded, Exec.ok_bind, List.foldlM_cons, raises, Exec.ok_bind]
  rfl

/-- The vector gives back every register, and leaves memory as it was outside the scratch
space of the handler. -/
theorem takeInterrupt_ok (convention : Convention compiled limit statics)
    (aligned : (system.reg .sp).toNat % 4 = 0) (room : limit + 128 ≤ (system.reg .sp).toNat)
    {timer : Timer} (handled : system.timer.handleInterrupt read = .ok timer) :
    ∃ mem, takeInterrupt compiled read system =
        .ok ⟨{ system.core with mem }, true, system.core.pc, 0x80000007#32, timer,
          system.printed⟩ ∧
      ∀ a, ¬ Scratch limit statics (system.reg .sp) a → mem a = system.core.mem a := by
  have bound := (system.reg .sp).isLt
  have low := @lowered_toNat system limit room
  let returned : System := { (((lowered system).withMem (framed system)).withRegs
    (compiled (lowered system).core.regs (framed system)).1).withMem
      (compiled (lowered system).core.regs (framed system)).2 with timer }
  have called : exec compiled read ((lowered system).withMem (framed system)) .callTrapHandler =
      .ok returned := trapHandler_timer rfl handled
  have sp : returned.reg .sp = (lowered system).reg .sp :=
    convention.sp (lowered system).core.regs (framed system)
  have raised : returned.reg .sp + BitVec.ofInt 32 (4 * 32) = system.reg .sp := by
    have cancel : BitVec.ofInt 32 (-4 * 32) + BitVec.ofInt 32 (4 * 32) = 0#32 := by decide
    rw [sp, lowered_sp, BitVec.add_assoc, cancel, BitVec.add_zero]
  have leaves := @leaves_ok compiled read returned (by rw [sp]; omega) (by rw [sp]; omega)
  have regs := convention.restores room
  rw [raised, sp] at leaves
  refine ⟨returned.core.mem, ?_, convention.keeps_memory room⟩
  rw [takeInterrupt, trapVector, List.append_assoc, List.foldlM_append, enters_ok aligned room,
    Exec.ok_bind, List.cons_append, List.foldlM_cons, called, Exec.ok_bind, leaves]
  exact congrArg (fun regs => Except.ok (System.mk ⟨system.core.pc, regs, returned.core.mem,
    system.core.mie⟩ true system.core.pc 0x80000007#32 timer system.printed)) regs

end Vector

/-- The second core is as good as the first for a program that relies on these bytes only. -/
structure Agree (live : Core → Nat → Prop) (s t : Core) : Prop where
  pc : t.pc = s.pc
  regs : t.regs = s.regs
  mie : t.mie = s.mie
  mem : ∀ a, live s a → t.mem a = s.mem a

/-- What the program has to keep to, in its run without interrupts: it does what it does
by the bytes that it relies on, these are out of the handler's reach, and the stack has
room for the frame. -/
structure Discipline (program : Core → Core) (live : Core → Nat → Prop) (limit : Nat)
    (statics : Nat → Prop) (start : Core) : Prop where
  respects : ∀ count t, Agree live (program^[count] start) t →
    Agree live (program^[count + 1] start) (program t)
  apart : ∀ count a, live (program^[count] start) a →
    ¬ Scratch limit statics ((program^[count] start).regs .sp) a
  aligned : ∀ count, ((program^[count] start).regs .sp).toNat % 4 = 0
  room : ∀ count, limit + 128 ≤ ((program^[count] start).regs .sp).toNat

def instructions : List Beat → Nat
  | [] => 0
  | .instr :: beats => instructions beats + 1
  | .check .. :: beats => instructions beats

def schedule (program : Core → Core) : Core → List Beat → List Moment
  | _, [] => []
  | core, .instr :: beats => schedule program (program core) beats
  | core, .check mtime read ordered :: beats =>
      ⟨mtime, core.mie, read, ordered⟩ :: schedule program core beats

section Programs

variable {program : Core → Core} {live : Core → Nat → Prop} {compiled : Compiled} {limit : Nat}
  {statics : Nat → Prop} {core : Core} {system : System}

theorem beat_check (convention : Convention compiled limit statics)
    (discipline : Discipline program live limit statics core) {count : Nat}
    (agree : Agree live (program^[count] core) system.core) {mtime read : UInt64}
    (ordered : mtime ≤ read) {timer : Timer} {taken : Bool}
    (stepped : system.timer.step ⟨mtime, (program^[count] core).mie, read, ordered⟩ =
      .ok (timer, taken)) :
    ∃ after, beat program compiled system (.check mtime read ordered) = .ok after ∧
      Agree live (program^[count] core) after.core ∧ after.timer = timer ∧
      after.printed = system.printed := by
  rw [← agree.mie, Timer.step] at stepped
  by_cases pending : system.core.mie ∧ system.timer.mtimecmp ≤ mtime.toNat
  · rw [if_pos pending] at stepped
    rcases Exec.bind_eq_ok.mp stepped with ⟨next, handled, finished⟩
    cases finished
    have aligned := discipline.aligned count
    have room := discipline.room count
    rw [← agree.regs, ← System.reg] at aligned room
    rcases takeInterrupt_ok convention aligned room handled with ⟨mem, returned, kept⟩
    refine ⟨_, (if_pos pending).trans returned, ⟨agree.pc, agree.regs, agree.mie, ?_⟩, rfl, rfl⟩
    intro a relied
    have apart := discipline.apart count a relied
    rw [← agree.regs, ← System.reg] at apart
    exact (kept a apart).trans (agree.mem a relied)
  · rw [if_neg pending] at stepped
    cases stepped
    exact ⟨system, by rw [beat, if_neg pending], agree, rfl, rfl⟩

theorem beats_agree (convention : Convention compiled limit statics)
    (discipline : Discipline program live limit statics core) {count : Nat}
    (agree : Agree live (program^[count] core) system.core) {beats : List Beat} {timer : Timer}
    {taken : List Bool}
    (ran : Runs.run Timer.step system.timer (schedule program (program^[count] core) beats) =
      .ok (timer, taken)) :
    ∃ last, beats.foldlM (beat program compiled) system = .ok last ∧
      Agree live (program^[count + instructions beats] core) last.core ∧ last.timer = timer ∧
      last.printed = system.printed := by
  induction beats generalizing system count taken with
  | nil =>
      cases ran
      exact ⟨system, rfl, agree, rfl, rfl⟩
  | cons next beats ih =>
      cases next with
      | instr =>
          rw [schedule, ← Function.iterate_succ_apply' program] at ran
          let stepped : System := { system with core := program system.core }
          obtain ⟨last, finished, final, same, printed⟩ :=
            @ih stepped (count + 1) (discipline.respects count _ agree) _ ran
          refine ⟨last, ?_, ?_, same, printed⟩
          · rw [List.foldlM_cons, beat, Exec.ok_bind, finished]
          · rwa [instructions, Nat.add_comm (instructions beats), ← Nat.add_assoc]
      | check mtime read ordered =>
          rw [schedule, Runs.run_cons_eq_ok] at ran
          rcases ran with ⟨middle, output, rest, head, tail, rfl⟩
          rcases beat_check convention discipline agree ordered head with
            ⟨after, checked, kept, timed, printed⟩
          rw [← timed] at tail
          rcases ih kept tail with ⟨last, finished, final, same, unprinted⟩
          refine ⟨last, ?_, final, same, unprinted.trans printed⟩
          rw [List.foldlM_cons, checked, Exec.ok_bind, finished]

/-- A program that is interrupted anywhere, any number of times, does what it does without
interrupts, and the timer goes through the moments at which the program had them enabled. -/
theorem interrupts_invisible (convention : Convention compiled limit statics) (start : System)
    (discipline : Discipline program live limit statics start.core) (beats : List Beat)
    {timer : Timer} {taken : List Bool}
    (ran : Runs.run Timer.step start.timer (schedule program start.core beats) =
      .ok (timer, taken)) :
    ∃ last, beats.foldlM (beat program compiled) start = .ok last ∧
      Agree live (program^[instructions beats] start.core) last.core ∧ last.timer = timer ∧
      last.printed = start.printed := by
  have agree : Agree live (program^[0] start.core) start.core :=
    ⟨rfl, rfl, rfl, fun _ _ => rfl⟩
  have whole := beats_agree convention discipline agree ran
  rwa [Nat.zero_add] at whole

end Programs

def busyHandler : Compiled := fun regs mem =>
  (Function.update (fun _ => 0xDEADBEEF#32) .sp (regs .sp), fun a =>
    if 0x80080000 ≤ a ∧ a < (regs .sp).toNat ∨ a = 0x80001000 then 0xFF else mem a)

def counting (core : Core) : Core :=
  { core with
    pc := core.pc + 4#32
    regs := Function.update core.regs .t0 (core.regs .t0 + 1#32) }

def countingStart : System :=
  ⟨⟨0x80000000#32, Function.update (fun _ => 0#32) .sp 0x800FFFF0#32, fun _ => 0, true⟩,
    false, 0#32, 0#32, ⟨0, 10000, 0⟩, []⟩

def countingBeats : List Beat :=
  [.check 10000 10005 (by decide), .instr, .check 10010 10010 (by decide), .instr,
    .check 20005 20005 (by decide)]

/-- Interrupted before the first instruction and after the second, with the counter in a
register that the handler overwrites. -/
theorem counting_interrupted :
    ∃ last, countingBeats.foldlM (beat counting busyHandler) countingStart = .ok last ∧
      last.core.regs .t0 = 2#32 ∧ last.timer.ticks = 2 := by
  have sp : ∀ count, (counting^[count] countingStart.core).regs .sp = 0x800FFFF0#32 := by
    intro count
    induction count with
    | zero => rfl
    | succ count ih =>
        have other : Reg.sp ≠ .t0 := by decide
        rw [Function.iterate_succ_apply', ← ih]
        exact Function.update_of_ne other ((counting^[count] countingStart.core).regs .t0 + 1#32) _
  have convention : Convention busyHandler 0x80080000 (· = 0x80001000) :=
    ⟨fun _ _ => rfl, fun _ _ _ outside => if_neg outside, fun a own => by omega⟩
  have discipline : Discipline counting (fun _ a => 0x800FFFF0 ≤ a) 0x80080000 (· = 0x80001000)
      countingStart.core := by
    refine ⟨fun count t agree => ?_, fun count a relied => ?_, fun count => ?_, fun count => ?_⟩
    · rw [Function.iterate_succ_apply', counting, counting, agree.pc, agree.regs]
      exact ⟨rfl, rfl, agree.mie, agree.mem⟩
    · rw [sp]
      rintro (⟨_, before⟩ | own)
      · have value : (0x800FFFF0#32).toNat = 0x800FFFF0 := rfl
        omega
      · omega
    · rw [sp]
      decide
    · rw [sp]
      decide
  have ran : Runs.run Timer.step countingStart.timer
      (schedule counting countingStart.core countingBeats) =
        .ok (⟨2, 30005, 0⟩, [true, false, true]) := by decide
  obtain ⟨last, finished, agree, timed, _⟩ :=
    interrupts_invisible convention countingStart discipline countingBeats ran
  refine ⟨last, finished, ?_, ?_⟩
  · rw [agree.regs]
    decide
  · rw [timed]

end Ease.Trap
