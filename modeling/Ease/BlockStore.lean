import Ease.Runs
import Ease.VirtioRequest
import Mathlib.Data.List.Induction

/-! The driver and a device that answers every request refine an array of blocks. -/

namespace Ease

inductive BlkCall where
  | read (block : UInt32) (buf : Block)
  | write (block : UInt32) (data : Block)

def BlkCall.block : BlkCall → Nat
  | .read block _ => block.toNat
  | .write block _ => block.toNat

structure Served where
  call : BlkCall
  result : Except VirtioBlkError Unit
  buf : Block

def World.serve (world : World) : BlkCall × Reply → Exec (World × Served)
  | (.read block buf, reply) => do
      let (world, after, result) ← world.readBlock reply block buf
      .ok (world, ⟨.read block buf, result, after⟩)
  | (.write block data, reply) => do
      let (world, after, result) ← world.writeBlock reply block data
      .ok (world, ⟨.write block data, result, after⟩)

def Served.written (served : Served) (block : Nat) : Option Block :=
  match served.call, served.result with
  | .write target data, .ok () => if target.toNat = block then some data else none
  | _, _ => none

/-- The data of the latest successful write to each block, or what it held at first. -/
def contentsAfter (initial : Nat → Block) (history : List Served) (block : Nat) : Block :=
  (history.reverse.findSome? fun served => served.written block).getD (initial block)

section Array

variable (blocks : Nat) (contents : Nat → Block) (status : UInt8)

def arrayResult (call : BlkCall) : Except VirtioBlkError Unit :=
  if blocks ≤ call.block then .error .sectorOutOfRange else answered status

def arrayServe : BlkCall → Served
  | .read block buf =>
      let result := arrayResult blocks status (.read block buf)
      ⟨.read block buf, result, if result = .ok () then contents block.toNat else buf⟩
  | .write block data => ⟨.write block data, arrayResult blocks status (.write block data), data⟩

def arrayAfter (served : Served) (block : Nat) : Block :=
  (served.written block).getD (contents block)

@[simp] theorem arrayServe_call (call : BlkCall) :
    (arrayServe blocks contents status call).call = call := by
  cases call <;> rfl

@[simp] theorem arrayServe_result (call : BlkCall) :
    (arrayServe blocks contents status call).result = arrayResult blocks status call := by
  cases call <;> rfl

theorem arrayResult_outside {call : BlkCall} (outside : blocks ≤ call.block) :
    arrayResult blocks status call = .error .sectorOutOfRange := if_pos outside

theorem arrayResult_inside {call : BlkCall} (inside : call.block < blocks) :
    arrayResult blocks status call = answered status := if_neg (Nat.not_le.mpr inside)

theorem answered_ok_iff : answered status = .ok () ↔ status = 0 := by
  by_cases succeeded : status = 0
  · simp [answered, succeeded]
  · simp [answered, succeeded]

theorem arrayAfter_error {served : Served} {fault : VirtioBlkError}
    (failed : served.result = .error fault) : arrayAfter contents served = contents := by
  rcases served with ⟨call, result, buf⟩
  cases failed
  cases call <;> rfl

theorem arrayAfter_other {served : Served} {block : Nat} (other : block ≠ served.call.block) :
    arrayAfter contents served block = contents block := by
  rcases served with ⟨call, result, buf⟩
  cases call with
  | read => rfl
  | write target data =>
      have apart : ¬ target.toNat = block := fun same => other same.symm
      cases result with
      | error => rfl
      | ok => simp only [arrayAfter, Served.written, apart, if_false, Option.getD_none]

theorem contentsAfter_snoc (history : List Served) (served : Served) :
    contentsAfter contents (history ++ [served]) =
      arrayAfter (contentsAfter contents history) served := by
  funext block
  rw [contentsAfter, List.reverse_append, List.reverse_singleton, List.singleton_append,
    List.findSome?_cons, arrayAfter]
  cases served.written block with
  | none => rfl
  | some data => rfl

end Array

/-- The driver at rest over `contents`, after at most `count` requests. -/
structure Holds (world : World) (blocks count : Nat) (contents : Nat → Block) : Prop where
  present : ∃ blk, world.blk = some blk ∧ blk.capacity / blockSize = blocks ∧
    ∃ n ≤ count, Counts blk.vq n
  stored : ∀ block, diskBlock world.disk block = contents block

section Serve

variable {world : World} {blocks count : Nat} {contents : Nat → Block}

theorem diskBlock_written (stored : ∀ block, diskBlock world.disk block = contents block)
    {target : UInt32} (inside : target.toNat < blocks) (data : Block) (status : UInt8)
    (block : Nat) :
    diskBlock (if status = 0 then world.disk.store (target.toNat * blockSize) data.val
        else world.disk) block =
      arrayAfter contents (arrayServe blocks contents status (.write target data)) block := by
  have result : arrayResult blocks status (.write target data) = answered status :=
    arrayResult_inside blocks status inside
  by_cases succeeded : status = 0
  · rw [if_pos succeeded, diskBlock_store, stored, arrayAfter, arrayServe, result,
      (answered_ok_iff status).mpr succeeded, Served.written]
    by_cases same : target.toNat = block
    · simp only [same, if_true, Option.getD_some]
    · simp only [same, if_false, Option.getD_none]
  · have failed : answered status = .error (.deviceError status) := if_neg succeeded
    rw [if_neg succeeded, arrayAfter_error contents (result.trans failed)]
    exact stored block

theorem serve_outside (holds : Holds world blocks count contents) {call : BlkCall}
    (outside : blocks ≤ call.block) (reply : Reply) :
    world.serve (call, reply) = .ok (world, arrayServe blocks contents reply.status call) := by
  rcases holds with ⟨⟨blk, present, capacity, _⟩, _⟩
  have result := arrayResult_outside blocks reply.status outside
  subst capacity
  cases call with
  | read block buf =>
      have past : blk.capacity / blockSize ≤ block.toNat := outside
      rw [World.serve, World.readBlock, diskOp_outside world reply .read buf present past,
        Exec.ok_bind, arrayServe, result]
      rfl
  | write block data =>
      have past : blk.capacity / blockSize ≤ block.toNat := outside
      rw [World.serve, World.writeBlock, diskOp_outside world reply .write data present past,
        Exec.ok_bind, Exec.ok_bind, arrayServe, result]

theorem serve_inside (holds : Holds world blocks count contents) (few : count + 1 < 2 ^ 16)
    {call : BlkCall} (inside : call.block < blocks) (reply : Reply) :
    ∃ after, world.serve (call, reply) = .ok (after, arrayServe blocks contents reply.status call) ∧
      Holds after blocks (count + 1)
        (arrayAfter contents (arrayServe blocks contents reply.status call)) := by
  rcases holds with ⟨⟨blk, present, capacity, n, bounded, counts⟩, stored⟩
  have result := arrayResult_inside blocks reply.status inside
  have room : n + 1 < 2 ^ 16 := Nat.lt_of_le_of_lt (Nat.succ_le_succ bounded) few
  subst capacity
  cases call with
  | read block buf =>
      have fits : block.toNat < 2 ^ 64 := Nat.lt_trans block.toNat_lt (by decide)
      have below : block.toNat < blk.capacity / blockSize := inside
      rcases diskOp_read world reply buf present counts room below fits with ⟨vq, mem, after, ran⟩
      refine ⟨⟨some { blk with vq := vq }, mem, world.disk⟩, ?_,
        ⟨⟨_, rfl, rfl, n + 1, Nat.succ_le_succ bounded, after⟩, stored⟩⟩
      rw [World.serve, World.readBlock, ran, Exec.ok_bind, arrayServe, result]
      simp only [answered_ok_iff, stored]
  | write block data =>
      have fits : block.toNat < 2 ^ 64 := Nat.lt_trans block.toNat_lt (by decide)
      have below : block.toNat < blk.capacity / blockSize := inside
      rcases diskOp_write world reply data present counts room below fits with ⟨vq, mem, after, ran⟩
      refine ⟨⟨some { blk with vq := vq }, mem,
        if reply.status = 0 then world.disk.store (block.toNat * blockSize) data.val
        else world.disk⟩, ?_,
        ⟨⟨_, rfl, rfl, n + 1, Nat.succ_le_succ bounded, after⟩,
          diskBlock_written stored inside data reply.status⟩⟩
      rw [World.serve, World.writeBlock, ran, Exec.ok_bind, Exec.ok_bind, arrayServe, result]

/-- One call does what the array does, and past the end nothing at all. -/
theorem serve_ok (holds : Holds world blocks count contents) (few : count + 1 < 2 ^ 16)
    (call : BlkCall) (reply : Reply) :
    ∃ after, world.serve (call, reply) = .ok (after, arrayServe blocks contents reply.status call) ∧
      Holds after blocks (count + 1)
        (arrayAfter contents (arrayServe blocks contents reply.status call)) ∧
      (blocks ≤ call.block → after = world) := by
  by_cases outside : blocks ≤ call.block
  · refine ⟨world, serve_outside holds outside reply, ?_, fun _ => rfl⟩
    rcases holds with ⟨⟨blk, present, capacity, n, bounded, counts⟩, stored⟩
    rw [arrayAfter_error contents ((arrayServe_result ..).trans (arrayResult_outside _ _ outside))]
    exact ⟨⟨blk, present, capacity, n, Nat.le_succ_of_le bounded, counts⟩, stored⟩
  · rcases serve_inside holds few (Nat.not_le.mp outside) reply with ⟨after, served, holds⟩
    exact ⟨after, served, holds, fun past => absurd past outside⟩

theorem run_serve_ok (holds : Holds world blocks 0 contents) (calls : List (BlkCall × Reply))
    (few : calls.length < 2 ^ 16) :
    ∃ after history, Runs.run World.serve world calls = .ok (after, history) ∧
      Holds after blocks calls.length (contentsAfter contents history) := by
  induction calls using List.reverseRecOn with
  | nil => exact ⟨world, [], rfl, holds⟩
  | append_singleton calls request ih =>
      rcases request with ⟨call, reply⟩
      rw [List.length_append, List.length_singleton] at few ⊢
      rcases ih (by omega) with ⟨middle, history, reached, holds⟩
      rcases serve_ok holds few call reply with ⟨after, served, holds, _⟩
      rw [← contentsAfter_snoc] at holds
      exact ⟨after, _, (Runs.run_snoc_eq_ok World.serve).mpr
        ⟨middle, history, _, reached, served, rfl⟩, holds⟩

end Serve

/-- What one call may do and answer, after the calls of `history`. -/
structure Answers (blocks : Nat) (initial : Nat → Block) (history : List Served)
    (before after : World) (call : BlkCall) (status : UInt8) (served : Served) : Prop where
  outOfRange : blocks ≤ call.block → served.result = .error .sectorOutOfRange ∧ after = before
  failed : call.block < blocks → status ≠ 0 → served.result = .error (.deviceError status)
  done : call.block < blocks → status = 0 → served.result = .ok ()
  readLatest : ∀ block buf, call = .read block buf → served.result = .ok () →
    served.buf = contentsAfter initial history block.toNat
  readKeeps : ∀ block buf fault, call = .read block buf → served.result = .error fault →
    served.buf = buf
  others : ∀ block ≠ call.block, diskBlock after.disk block = diskBlock before.disk block
  counters : ∃ blk, after.blk = some blk ∧ blk.vq.lastUsedIndex = blk.vq.avail.index ∧
    blk.vq.used.index = blk.vq.avail.index

theorem serve_answers {world : World} {blocks count : Nat} {initial : Nat → Block}
    {history : List Served} (holds : Holds world blocks count (contentsAfter initial history))
    (few : count + 1 < 2 ^ 16) (call : BlkCall) (reply : Reply) :
    ∃ after served, world.serve (call, reply) = .ok (after, served) ∧
      Answers blocks initial history world after call reply.status served := by
  rcases serve_ok holds few call reply with ⟨after, served, left, same⟩
  refine ⟨after, _, served, ?_, ?_, ?_, ?_, ?_, ?_, ?_⟩
  · intro outside
    exact ⟨(arrayServe_result ..).trans (arrayResult_outside _ _ outside), same outside⟩
  · intro inside failed
    rw [arrayServe_result, arrayResult_inside _ _ inside, answered, if_neg failed]
  · intro inside succeeded
    rw [arrayServe_result, arrayResult_inside _ _ inside, (answered_ok_iff _).mpr succeeded]
  · intro block buf read ok
    subst read
    exact if_pos ok
  · intro block buf fault read failed
    subst read
    have notOk : arrayResult blocks reply.status (.read block buf) ≠ .ok () := by
      intro ok
      rw [arrayServe_result, ok] at failed
      cases failed
    exact if_neg notOk
  · intro block other
    have unchanged := @arrayAfter_other (contentsAfter initial history)
      (arrayServe blocks (contentsAfter initial history) reply.status call) block
      (by rw [arrayServe_call]; exact other)
    rw [left.stored, holds.stored, unchanged]
  · rcases left with ⟨⟨blk, present, _, n, _, ⟨avail, last, used⟩⟩, _⟩
    exact ⟨blk, present, by rw [last, avail], by rw [used, avail]⟩

/-- Over fewer than 65536 calls the driver is an array of blocks. -/
theorem virtio_blk_refines_array {world : World} {blk : VirtioBlkState}
    (present : world.blk = some blk) (fresh : Counts blk.vq 0)
    {calls : List (BlkCall × Reply)} (few : calls.length < 2 ^ 16) :
    (∃ result, Runs.run World.serve world calls = .ok result) ∧
      ∀ front call reply back, calls = front ++ (call, reply) :: back →
        ∃ before history after served, Runs.run World.serve world front = .ok (before, history) ∧
          before.serve (call, reply) = .ok (after, served) ∧
          Answers (blk.capacity / blockSize) (diskBlock world.disk) history before after call
            reply.status served := by
  have holds : Holds world (blk.capacity / blockSize) 0 (diskBlock world.disk) :=
    ⟨⟨blk, present, rfl, 0, Nat.le_refl 0, fresh⟩, fun _ => rfl⟩
  constructor
  · rcases run_serve_ok holds calls few with ⟨after, history, finished, _⟩
    exact ⟨_, finished⟩
  · intro front call reply back split
    subst split
    rw [List.length_append, List.length_cons] at few
    rcases run_serve_ok holds front (by omega) with ⟨before, history, reached, left⟩
    rcases serve_answers left (by omega) call reply with ⟨after, served, stepped, answers⟩
    exact ⟨before, history, after, served, reached, stepped, answers⟩

def emptyWorld : World := ⟨some ⟨1024, 4096, virtqInit 0, by decide⟩, fun _ => 0, fun _ => 0⟩

def filledBlock (byte : UInt8) : Block := ⟨List.replicate blockSize byte, List.length_replicate⟩

def writeAndReadBack : List (BlkCall × Reply) :=
  [(.write 1 (filledBlock 7), ⟨3, 0, []⟩), (.read 1 (filledBlock 1), ⟨0, 1, [9]⟩),
    (.read 1 (filledBlock 2), ⟨2, 0, []⟩)]

theorem virtio_blk_refines_array_sample :
    emptyWorld.blk = some ⟨1024, 4096, virtqInit 0, by decide⟩ ∧ Counts (virtqInit 0) 0 ∧
      ∃ before history after served,
        Runs.run World.serve emptyWorld (writeAndReadBack.take 2) = .ok (before, history) ∧
        before.serve (.read 1 (filledBlock 2), ⟨2, 0, []⟩) = .ok (after, served) ∧
        Answers 2 (diskBlock emptyWorld.disk) history before after (.read 1 (filledBlock 2)) 0
          served :=
  ⟨rfl, ⟨rfl, rfl, rfl⟩,
    (@virtio_blk_refines_array emptyWorld _ rfl ⟨rfl, rfl, rfl⟩ writeAndReadBack
      (by exact (by decide : 3 < 2 ^ 16))).2 (writeAndReadBack.take 2) _ ⟨2, 0, []⟩ [] rfl⟩

end Ease
