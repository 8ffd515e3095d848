import Ease.VirtioBlk

/-! One request to the block device, from the header that the driver fills in to the
answer that it finds when the device has counted the request. -/

namespace Ease

def diskBlock (disk : Memory) (block : Nat) : Block :=
  ⟨disk.load (block * blockSize) blockSize, Memory.load_length _ _ _⟩

theorem diskBlock_val (disk : Memory) (block : Nat) :
    (diskBlock disk block).val = disk.load (block * blockSize) blockSize := by
  rw [diskBlock]

theorem diskBlock_store (disk : Memory) (target : Nat) (data : Block) (block : Nat) :
    diskBlock (disk.store (target * blockSize) data.val) block =
      if target = block then data else diskBlock disk block := by
  apply Subtype.ext
  by_cases same : target = block
  · rw [if_pos same, diskBlock_val, ← same]
    exact Memory.load_store _ _ data.property
  · have apart : block * blockSize + blockSize ≤ target * blockSize ∨
        target * blockSize + data.val.length ≤ block * blockSize := by
      rw [data.property]
      exact Memory.blocks_apart fun equal => same equal.symm
    rw [if_neg same, diskBlock_val, diskBlock_val]
    exact Memory.load_store_apart _ apart

def answered (status : UInt8) : Except VirtioBlkError Unit :=
  if status = 0 then .ok () else .error (.deviceError status)

section Request

variable {mem disk : Memory} {req sector n : Nat} {reply : Reply} {vq : VirtioVirtq}

def flagsOf : BlkOp → Nat
  | .read => virtqDescFWrite
  | .write => 0

def requestDescs (req flags : Nat) : List VirtqDesc :=
  [⟨req, 16, virtqDescFNext, 1⟩,
    ⟨req + dataOffset, blockSize, (virtqDescFNext ||| flags) % 2 ^ 16, 2⟩,
    ⟨req + statusOffset, 1, virtqDescFWrite, 0⟩]

theorem fillRequest_flags (mem : Memory) (req sector : Nat) (op : BlkOp) (data : Block) :
    (fillRequest mem req sector op data).2 = flagsOf op := by
  cases op <;> rfl

theorem fillRequest_sector (mem : Memory) (req : Nat) {sector : Nat} (op : BlkOp) (data : Block)
    (fits : sector < 2 ^ 64) :
    decodeLE ((fillRequest mem req sector op data).1.load (req + sectorOffset) 8) = sector := by
  have stored := Memory.load_store mem (req + sectorOffset) (encodeLE_length 8 sector)
  have decoded : decodeLE (encodeLE 8 sector) = sector := decodeLE_encodeLE (by omega)
  have offsets : sectorOffset = 8 ∧ dataOffset = 16 := ⟨rfl, rfl⟩
  cases op with
  | read =>
      rw [fillRequest, Memory.load_store_apart _ (.inr (by rw [encodeLE_length]; omega)), stored,
        decoded]
  | write =>
      rw [fillRequest, Memory.load_store_apart _ (.inl (by omega)),
        Memory.load_store_apart _ (.inr (by rw [encodeLE_length]; omega)), stored, decoded]

theorem fillRequest_type (mem : Memory) (req sector : Nat) (op : BlkOp) (data : Block) :
    decodeLE ((fillRequest mem req sector op data).1.load req 4) =
      match op with
      | .read => virtioBlkTIn
      | .write => virtioBlkTOut := by
  cases op with
  | read =>
      rw [fillRequest, Memory.load_store _ _ (encodeLE_length 4 _)]
      rfl
  | write =>
      have data : dataOffset = 16 := rfl
      rw [fillRequest, Memory.load_store_apart _ (.inl (by omega)),
        Memory.load_store _ _ (encodeLE_length 4 _)]
      rfl

theorem fillRequest_data (mem : Memory) (req sector : Nat) (data : Block) :
    (fillRequest mem req sector .write data).1.load (req + dataOffset) blockSize = data.val :=
  Memory.load_store _ _ data.property

theorem requestDescs_shape (req : Nat) :
    (!Device.writable ⟨req, 16, virtqDescFNext, 1⟩ && 16 == 16 &&
      Device.writable ⟨req + statusOffset, 1, virtqDescFWrite, 0⟩ && 1 == 1) = true := by
  simp [Device.writable, virtqDescFNext, virtqDescFWrite]

theorem perform_write (mem disk : Memory) (req : Nat) (reply : Reply) (vq : VirtioVirtq)
    (data : Block) (fits : sector < 2 ^ 64) :
    Device.perform ⟨vq, (fillRequest mem req sector .write data).1, disk⟩ reply
        (requestDescs req (flagsOf .write)) =
      .ok ⟨vq, (fillRequest mem req sector .write data).1.store (req + statusOffset) [reply.status],
        if reply.status = 0 then disk.store (sector * blockSize) data.val else disk⟩ := by
  have readable : (!Device.writable
      ⟨req + dataOffset, blockSize, (virtqDescFNext ||| flagsOf .write) % 2 ^ 16, 2⟩) = true := by
    simp [Device.writable, flagsOf, virtqDescFNext, virtqDescFWrite]
  rw [requestDescs, Device.perform]
  dsimp only
  rw [if_pos (requestDescs_shape req), fillRequest_sector mem req .write data fits,
    fillRequest_type, if_pos ⟨rfl, readable⟩, Device.transferOut]
  dsimp only
  rw [fillRequest_data]

theorem perform_read (mem disk : Memory) (req : Nat) (reply : Reply) (vq : VirtioVirtq)
    (data : Block) (fits : sector < 2 ^ 64) :
    Device.perform ⟨vq, (fillRequest mem req sector .read data).1, disk⟩ reply
        (requestDescs req (flagsOf .read)) =
      .ok ⟨vq, ((fillRequest mem req sector .read data).1.store (req + dataOffset)
          (if reply.status = 0 then disk.load (sector * blockSize) blockSize
            else reply.leftover.take blockSize)).store (req + statusOffset) [reply.status],
        disk⟩ := by
  have writable : Device.writable
      ⟨req + dataOffset, blockSize, (virtqDescFNext ||| flagsOf .read) % 2 ^ 16, 2⟩ = true := by
    simp [Device.writable, flagsOf, virtqDescFNext, virtqDescFWrite]
  have otherType : ¬ (virtioBlkTIn = virtioBlkTOut ∧ (!Device.writable
      ⟨req + dataOffset, blockSize, (virtqDescFNext ||| flagsOf .read) % 2 ^ 16, 2⟩) = true) :=
    fun both => absurd both.1 (by decide)
  rw [requestDescs, Device.perform]
  dsimp only
  rw [if_pos (requestDescs_shape req), fillRequest_sector mem req .read data fits,
    fillRequest_type]
  dsimp only
  rw [if_neg otherType, if_pos ⟨rfl, writable⟩, Device.transferIn]

structure Counts (vq : VirtioVirtq) (n : Nat) : Prop where
  avail : vq.avail.index = n
  last : vq.lastUsedIndex = n
  used : vq.used.index = n

theorem waitIdle_ok {machine after : Machine} (busy : virtqIsBusy machine.vq = true)
    (done : Device.complete machine reply = .ok after) (idle : virtqIsBusy after.vq = false)
    (polls : Nat) : waitIdle machine reply polls = .ok after := by
  induction polls with
  | zero => simp only [waitIdle, done, Exec.ok_bind, idle, Bool.false_eq_true, if_false]
  | succ polls ih => simp only [waitIdle, busy, if_true, ih]

/-- The chain that the driver builds, followed from descriptor 0. -/
theorem chain_requestDescs (descs : Slots VirtqDesc 16) (req : Nat) (op : BlkOp) :
    Device.chain (Function.update (Function.update (Function.update descs
        ⟨0, by decide⟩ ⟨req, 16, virtqDescFNext, 1⟩)
        ⟨1, by decide⟩ ⟨req + dataOffset, blockSize, (virtqDescFNext ||| flagsOf op) % 2 ^ 16, 2⟩)
        ⟨2, by decide⟩ ⟨req + statusOffset, 1, virtqDescFWrite, 0⟩) 16 0 =
      some (requestDescs req (flagsOf op)) := by
  cases op <;> simp [Device.chain, requestDescs, flagsOf, virtqDescFNext, virtqDescFWrite]

theorem complete_ok {mem' disk' : Memory} {head : Nat} {descs : List VirtqDesc}
    (performed : Device.perform ⟨vq, mem, disk⟩ reply descs = .ok ⟨vq, mem', disk'⟩)
    (placed : vq.avail.ring ⟨(vq.avail.index + 15) % 16, Nat.mod_lt _ (by decide)⟩ = head)
    (chained : Device.chain vq.descs 16 head = some descs) :
    Device.complete ⟨vq, mem, disk⟩ reply =
      .ok ⟨{ vq with used := ⟨(vq.used.index + 1) % 2 ^ 16⟩ }, mem', disk'⟩ := by
  simp only [Device.complete, placed, chained, performed, Exec.ok_bind]

/-- One request, from the descriptors to the end of the wait. -/
theorem virtioQueue_ok {op : BlkOp} {mem' disk' : Memory} (counts : Counts vq n)
    (few : n + 1 < 2 ^ 16) (reqFits : req + reqSize ≤ 2 ^ 32)
    (performed : ∀ vq, Device.perform ⟨vq, mem, disk⟩ reply (requestDescs req (flagsOf op)) =
      .ok ⟨vq, mem', disk'⟩) :
    ∃ after, virtioQueue ⟨vq, mem, disk⟩ reply req (flagsOf op) = .ok ⟨after, mem', disk'⟩ ∧
      Counts after (n + 1) := by
  rcases counts with ⟨avail, last, used⟩
  have sizes : dataOffset = 16 ∧ statusOffset = 528 ∧ reqSize = 529 := ⟨rfl, rfl, rfl⟩
  have chained := chain_requestDescs vq.descs req op
  rw [virtioQueue, Slots.write_ok _ _ (by decide), Exec.ok_bind, usizeAdd_ok (by omega),
    Exec.ok_bind, Slots.write_ok _ _ (by decide), Exec.ok_bind, usizeAdd_ok (by omega),
    Exec.ok_bind, Slots.write_ok _ _ (by decide), Exec.ok_bind]
  generalize Function.update (Function.update (Function.update vq.descs _ _) _ _) _ _ = descs
    at chained ⊢
  rw [virtqKick_ok 0 (by dsimp only; omega) (by dsimp only; omega), Exec.ok_bind]
  refine ⟨_, waitIdle_ok ?_ (complete_ok (performed _) ?_ chained) ?_ reply.polls, ?_⟩
  · simp [virtqIsBusy, kicked, last, used]
  · have slot : (vq.avail.index + 1 + 15) % 16 = vq.avail.index % 16 := by omega
    simp [kicked, slot]
  · simp only [virtqIsBusy, kicked, last, used, Nat.mod_eq_of_lt few]
    simp
  · exact ⟨by simp [kicked, avail], by simp [kicked, last],
      by simp only [kicked, used]; exact Nat.mod_eq_of_lt few⟩

theorem diskOp_outside (world : World) (reply : Reply) (op : BlkOp) (data : Block)
    {blk : VirtioBlkState} (present : world.blk = some blk)
    (outside : blk.capacity / blockSize ≤ sector) :
    world.diskOp reply sector op data = .ok (world, data, .error .sectorOutOfRange) := by
  simp only [World.diskOp, present, outside, if_true]

theorem diskOp_write (world : World) (reply : Reply) (data : Block) {blk : VirtioBlkState}
    (present : world.blk = some blk) (counts : Counts blk.vq n) (few : n + 1 < 2 ^ 16)
    (inside : sector < blk.capacity / blockSize) (fits : sector < 2 ^ 64) :
    ∃ vq mem, Counts vq (n + 1) ∧ world.diskOp reply sector .write data =
      .ok (⟨some { blk with vq := vq }, mem,
          if reply.status = 0 then world.disk.store (sector * blockSize) data.val
          else world.disk⟩, data, answered reply.status) := by
  obtain ⟨vq, ran, after⟩ := virtioQueue_ok counts few blk.reqFits fun vq =>
    perform_write world.mem world.disk blk.req reply vq data fits
  rw [← fillRequest_flags world.mem blk.req sector .write data] at ran
  refine ⟨vq, (fillRequest world.mem blk.req sector .write data).1.store
    (blk.req + statusOffset) [reply.status], after, ?_⟩
  simp only [World.diskOp, present, Nat.not_le.mpr inside, if_false, ran, Exec.ok_bind,
    Memory.store_one, answered]
  by_cases succeeded : reply.status = 0
  · simp [succeeded]
  · simp [succeeded]

theorem diskOp_read (world : World) (reply : Reply) (buf : Block) {blk : VirtioBlkState}
    (present : world.blk = some blk) (counts : Counts blk.vq n) (few : n + 1 < 2 ^ 16)
    (inside : sector < blk.capacity / blockSize) (fits : sector < 2 ^ 64) :
    ∃ vq mem, Counts vq (n + 1) ∧ world.diskOp reply sector .read buf =
      .ok (⟨some { blk with vq := vq }, mem, world.disk⟩,
        if reply.status = 0 then diskBlock world.disk sector else buf, answered reply.status) := by
  obtain ⟨vq, ran, after⟩ := virtioQueue_ok counts few blk.reqFits fun vq =>
    perform_read world.mem world.disk blk.req reply vq buf fits
  rw [← fillRequest_flags world.mem blk.req sector .read buf] at ran
  refine ⟨vq, ((fillRequest world.mem blk.req sector .read buf).1.store (blk.req + dataOffset)
    (if reply.status = 0 then world.disk.load (sector * blockSize) blockSize
      else reply.leftover.take blockSize)).store (blk.req + statusOffset) [reply.status],
    after, ?_⟩
  simp only [World.diskOp, present, Nat.not_le.mpr inside, if_false, ran, Exec.ok_bind,
    Memory.store_one, answered]
  by_cases succeeded : reply.status = 0
  · have offsets : dataOffset = 16 ∧ statusOffset = 528 ∧ blockSize = 512 := ⟨rfl, rfl, rfl⟩
    have filled (mem : Memory) (bytes : List UInt8) (size : bytes.length = blockSize) :
        ((mem.store (blk.req + dataOffset) bytes).store (blk.req + statusOffset) [0]).load
          (blk.req + dataOffset) blockSize = bytes := by
      rw [Memory.load_store_apart _ (.inl (by omega)), Memory.load_store _ _ size]
    simp [succeeded, filled, diskBlock]
  · simp [succeeded]

end Request

end Ease
