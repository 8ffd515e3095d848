import Ease.Lockstep
import Ease.QueueMemory

/-! The block device driver on a queue of bytes, and one request in lockstep with the
machine of `VirtioBlk`. -/

namespace Ease

/-- The driver's static: the queue is a pointer into the heap. -/
structure BareBlk where
  capacity : Nat
  req : Nat
  queue : Nat

structure BareStart where
  blk : BareBlk
  heap : BumpAllocator
  regs : Registers
  mem : Memory

def BareBlk.new (heap : BumpAllocator) (regs : Registers) (mem : Memory) (req : Nat) :
    Exec BareStart := do
  let magic ← regs.read32 virtioRegMagic
  assertThat (magic == 0x74726976) "virtio: invalid magic value"
  let version ← regs.read32 virtioRegVersion
  assertThat (version == 1) "virtio: invalid version"
  let deviceId ← regs.read32 virtioRegDeviceId
  assertThat (deviceId == virtioDeviceBlk) "virtio: invalid version"
  let regs ← regs.write32 virtioRegDeviceStatus 0
  let regs ← regs.fetchAndOr32 virtioRegDeviceStatus virtioStatusAck
  let regs ← regs.fetchAndOr32 virtioRegDeviceStatus virtioStatusDriver
  let regs ← regs.fetchAndOr32 virtioRegDeviceStatus virtioStatusFeatOk
  let vq ← Bare.virtqInit heap regs mem 0
  let regs ← vq.regs.write32 virtioRegDeviceStatus virtioStatusDriverOk
  let sectors ← regs.read64 (virtioRegDeviceConfig + 0)
  let capacity ← mulWithin 64 sectors.toNat blockSize
  .ok ⟨⟨capacity, req, vq.queue⟩, vq.heap, regs, vq.mem⟩

/-- `pageSize` is what the device takes page numbers times, which the driver leaves as it
is after a reset. -/
structure BareWorld where
  blk : Option BareBlk
  regs : Registers
  pageSize : Nat
  mem : Memory
  disk : Memory

namespace Bare

variable (disk : Memory) (vring : Device.Vring) (queue : Nat) (reply : Reply)

def waitIdle (mem : Memory) : Nat → Exec (Memory × Memory)
  | 0 => do
      let (mem, disk) ← Device.serveQueue mem vring disk reply
      let busy ← virtqIsBusy mem queue
      if busy then .error .diverges else .ok (mem, disk)
  | polls + 1 => do
      let busy ← virtqIsBusy mem queue
      if busy then waitIdle mem polls else .error .unmodelled

def virtioQueue (mem : Memory) (blkReqAddr flags : Nat) : Exec (Memory × Memory) := do
  let mem ← writeDesc mem queue 0 ⟨blkReqAddr, 16, virtqDescFNext, 1⟩
  let dataAddr ← usizeAdd blkReqAddr dataOffset
  let mem ← writeDesc mem queue 1 ⟨dataAddr, blockSize, (virtqDescFNext ||| flags) % 2 ^ 16, 2⟩
  let statusAddr ← usizeAdd blkReqAddr statusOffset
  let mem ← writeDesc mem queue 2 ⟨statusAddr, 1, virtqDescFWrite, 0⟩
  let mem ← virtqKick mem queue 0
  waitIdle disk vring queue reply mem reply.polls

end Bare

namespace BareWorld

def diskOp (world : BareWorld) (reply : Reply) (sector : Nat) (op : BlkOp) (data : Block) :
    Exec (BareWorld × Block × Except VirtioBlkError Unit) :=
  match world.blk with
  | none => .ok (world, data, .error .notInitialized)
  | some blk =>
      if blk.capacity / blockSize ≤ sector then .ok (world, data, .error .sectorOutOfRange)
      else do
        let vring := Device.vring world.regs world.pageSize
        let (mem, flags) := fillRequest world.mem blk.req sector op data
        let (mem, disk) ← Bare.virtioQueue world.disk vring blk.queue reply mem blk.req flags
        let world := { world with mem, disk }
        let status := mem (blk.req + statusOffset)
        if status ≠ 0 then .ok (world, data, .error (.deviceError status))
        else
          match op with
          | .read =>
              .ok (world, ⟨mem.load (blk.req + dataOffset) blockSize, Memory.load_length _ _ _⟩,
                .ok ())
          | .write => .ok (world, data, .ok ())

def readBlock (world : BareWorld) (reply : Reply) (block : UInt32) (buf : Block) :
    Exec (BareWorld × Block × Except VirtioBlkError Unit) :=
  world.diskOp reply block.toNat .read buf

def writeBlock (world : BareWorld) (reply : Reply) (block : UInt32) (buf : Block) :
    Exec (BareWorld × Block × Except VirtioBlkError Unit) := do
  let (world, _, result) ← world.diskOp reply block.toNat .write buf
  .ok (world, buf, result)

def serve (world : BareWorld) : BlkCall × Reply → Exec (BareWorld × Served)
  | (.read block buf, reply) => do
      let (world, after, result) ← world.readBlock reply block buf
      .ok (world, ⟨.read block buf, result, after⟩)
  | (.write block data, reply) => do
      let (world, after, result) ← world.writeBlock reply block data
      .ok (world, ⟨.write block data, result, after⟩)

def virtioBlkInit (world : BareWorld) (heap : BumpAllocator) (req : Nat) :
    Exec (BareWorld × BumpAllocator) := do
  let start ← BareBlk.new heap world.regs world.mem req
  let mem := start.mem.store req (List.replicate reqSize 0)
  .ok ({ world with blk := some start.blk, regs := start.regs, mem }, start.heap)

end BareWorld

def InQueue (queue a : Nat) : Prop := Memory.Within queue 12288 a

def Outside (queue a : Nat) : Prop := ¬ InQueue queue a

/-- The queue lies at its address with these numbers, in a memory that is `outer`
elsewhere. -/
structure QueueAt (queue : Nat) (numbers : QueueField → Nat) (outer mem : Memory) : Prop where
  read : queueFields.read mem queue = numbers
  same : Memory.SameOn (Outside queue) outer mem

theorem queueOf_writeDesc (numbers : QueueField → Nat) (i : Fin 16) (desc : VirtqDesc) :
    queueOf (Function.update (Function.update (Function.update (Function.update numbers
        (.descAddr i) desc.addr) (.descLen i) desc.len) (.descFlags i) desc.flags)
        (.descNext i) desc.next) =
      { queueOf numbers with descs := Function.update (queueOf numbers).descs i desc } := by
  simp only [queueOf, Function.update_apply, reduceCtorEq, if_false, QueueField.descAddr.injEq,
    QueueField.descLen.injEq, QueueField.descFlags.injEq, QueueField.descNext.injEq,
    VirtioVirtq.mk.injEq, and_true]
  funext j
  by_cases same : j = i
  · simp only [same, if_true, Function.update_self]
  · simp only [same, if_false, Function.update_of_ne same]

theorem queueOf_kick (numbers : QueueField → Nat) (i : Fin 16) (head avail last : Nat) :
    queueOf (Function.update (Function.update (Function.update numbers (.availRing i) head)
        .availIndex avail) .lastUsedIndex last) =
      { queueOf numbers with
        avail := ⟨avail, Function.update (queueOf numbers).avail.ring i head⟩
        lastUsedIndex := last } := by
  simp only [queueOf, Function.update_apply, reduceCtorEq, if_false, if_true,
    QueueField.availRing.injEq, VirtioVirtq.mk.injEq, VirtqAvail.mk.injEq, true_and, and_true]
  funext j
  by_cases same : j = i
  · simp only [same, if_true, Function.update_self]
  · simp only [same, if_false, Function.update_of_ne same]

theorem queueOf_used (numbers : QueueField → Nat) (i j : Fin 16) (id len count : Nat) :
    queueOf (Function.update (Function.update (Function.update numbers (.usedId i) id)
        (.usedLen j) len) .usedIndex count) =
      { queueOf numbers with used := ⟨count⟩ } := by
  simp only [queueOf, Function.update_apply, reduceCtorEq, if_false, if_true]

namespace QueueAt

variable {queue : Nat} {numbers : QueueField → Nat} {outer mem : Memory}

theorem write_mod (at_queue : QueueAt queue numbers outer mem) (field : QueueField) (n : Nat) :
    QueueAt queue (Function.update numbers field (n % 256 ^ field.width)) outer
      (queueFields.write mem queue field n) := by
  constructor
  · rw [queueFields.read_write, at_queue.read]
    rfl
  · exact at_queue.same.trans (queueFields.write_same mem queue field n)

theorem write (at_queue : QueueAt queue numbers outer mem) (field : QueueField) {n : Nat}
    (fits : n < 256 ^ field.width) :
    QueueAt queue (Function.update numbers field n) outer
      (queueFields.write mem queue field n) := by
  have written := at_queue.write_mod field n
  rwa [Nat.mod_eq_of_lt fits] at written

theorem number (at_queue : QueueAt queue numbers outer mem) (field : QueueField) {addr width : Nat}
    (place : addr = queue + field.offset) (size : width = field.width) :
    decodeLE (mem.load addr width) = numbers field := by
  subst place size
  exact congrFun at_queue.read field

theorem writeDesc (at_queue : QueueAt queue numbers outer mem) {index : Nat}
    (inside : index < 16) (desc : VirtqDesc) (addr : desc.addr < 2 ^ 64) (len : desc.len < 2 ^ 32)
    (flags : desc.flags < 2 ^ 16) (next : desc.next < 2 ^ 16) :
    ∃ after others, Bare.writeDesc mem queue index desc = .ok after ∧
      QueueAt queue others outer after ∧
      others .usedPointer = numbers .usedPointer ∧
      queueOf others = { queueOf numbers with
        descs := Function.update (queueOf numbers).descs ⟨index, inside⟩ desc } := by
  have written := (((at_queue.write (.descAddr ⟨index, inside⟩) addr).write
    (.descLen ⟨index, inside⟩) len).write (.descFlags ⟨index, inside⟩) flags).write
    (.descNext ⟨index, inside⟩) next
  exact ⟨_, _, dif_pos inside, written, rfl, queueOf_writeDesc numbers ⟨index, inside⟩ desc⟩

theorem virtqKick (at_queue : QueueAt queue numbers outer mem) {head : Nat} (fits : head < 2 ^ 16) :
    Exec.Lockstep
      (fun vq after => vq = kicked (queueOf numbers) head ∧ ∃ others,
        QueueAt queue others outer after ∧ others .usedPointer = numbers .usedPointer ∧
          queueOf others = vq)
      (Ease.virtqKick (queueOf numbers) head) (Bare.virtqKick mem queue head) := by
  have inside : (queueOf numbers).avail.index % virtqEntryNum < 16 := Nat.mod_lt _ (by decide)
  have ringed := at_queue.write (.availRing ⟨_, inside⟩) fits
  have notified : ∀ value, virtioRegWrite32 virtioRegQueueNotify value = .ok () := fun _ => rfl
  have put : Bare.writeRing mem queue (numbers .availIndex % virtqEntryNum) head =
      .ok (queueFields.write mem queue (.availRing ⟨_, inside⟩) head) := dif_pos inside
  rw [Ease.virtqKick, Slots.write_ok _ _ inside, Exec.ok_bind, Bare.virtqKick, at_queue.read,
    put, Exec.ok_bind, ringed.read]
  apply Exec.Lockstep.same
  intro availIndex added
  have counted := ringed.write .availIndex (addWithin_lt added)
  dsimp only
  rw [notified, notified, Exec.ok_bind, Exec.ok_bind, counted.read]
  apply Exec.Lockstep.same
  intro lastUsedIndex increased
  have last := counted.write .lastUsedIndex (addWithin_lt increased)
  refine .ok ⟨?_, _, last, rfl, queueOf_kick ..⟩
  rw [addWithin_eq added, addWithin_eq increased]
  rfl

end QueueAt

namespace Device

section Perform

variable {P : Nat → Prop} {machine : Machine} {mem : Memory} {vq : VirtioVirtq} {reply : Reply}

/-- After a request: the same disk, the same bytes where `P` holds, and nothing done
where it does not. -/
structure Served (P : Nat → Prop) (machine : Machine) (mem : Memory) (after bare : Machine) :
    Prop where
  vq : after.vq = machine.vq
  disk : after.disk = bare.disk
  same : Memory.SameOn P after.mem bare.mem
  kept : Memory.SameOn (fun a => ¬ P a) mem bare.mem

theorem transferOut_served (same : Memory.SameOn P machine.mem mem) (sector : Nat)
    {data status : VirtqDesc} (dataInside : ∀ offset < data.len, P (data.addr + offset))
    (statusInside : P status.addr) :
    Served P machine mem (transferOut machine reply sector data status)
      (transferOut ⟨vq, mem, machine.disk⟩ reply sector data status) := by
  refine ⟨rfl, ?_, same.store _ _, ?_⟩
  · rw [transferOut, transferOut, same.load dataInside]
  · apply Memory.SameOn.store_apart
    intro offset below outside
    obtain rfl : offset = 0 := Nat.lt_one_iff.mp below
    exact outside statusInside

theorem transferIn_served (same : Memory.SameOn P machine.mem mem) (sector : Nat)
    {data status : VirtqDesc} (dataInside : ∀ offset < data.len, P (data.addr + offset))
    (statusInside : P status.addr) :
    Served P machine mem (transferIn machine reply sector data status)
      (transferIn ⟨vq, mem, machine.disk⟩ reply sector data status) := by
  refine ⟨rfl, rfl, (same.store _ _).store _ _, ?_⟩
  have length : (if reply.status = 0 then machine.disk.load (sector * blockSize) data.len
      else reply.leftover.take data.len).length ≤ data.len := by
    split
    · exact (Memory.load_length _ _ _).le
    · exact List.length_take_le _ _
  refine Memory.SameOn.trans (Memory.SameOn.store_apart _ _ ?_)
    (Memory.SameOn.store_apart _ _ ?_)
  · intro offset below outside
    exact outside (dataInside offset (below.trans_le length))
  · intro offset below outside
    obtain rfl : offset = 0 := Nat.lt_one_iff.mp below
    exact outside statusInside

theorem perform_lockstep (same : Memory.SameOn P machine.mem mem) {descs : List VirtqDesc}
    (inside : ∀ desc ∈ descs, ∀ offset < desc.len, P (desc.addr + offset)) :
    Exec.Lockstep (Served P machine mem) (perform machine reply descs)
      (perform ⟨vq, mem, machine.disk⟩ reply descs) := by
  match descs with
  | [] | [_] | [_, _] | _ :: _ :: _ :: _ :: _ => exact .error _
  | [header, data, status] =>
      rw [perform, perform]
      dsimp only
      apply Exec.Lockstep.ite
      · intro shape
        simp only [Bool.and_eq_true, beq_iff_eq] at shape
        rcases shape with ⟨⟨⟨_, headerLen⟩, _⟩, statusLen⟩
        have typeSame : machine.mem.load header.addr 4 = mem.load header.addr 4 :=
          same.load fun offset below => inside header (by simp) offset (by omega)
        have sectorSame : machine.mem.load (header.addr + sectorOffset) 8 =
            mem.load (header.addr + sectorOffset) 8 := by
          have offsets : sectorOffset = 8 := rfl
          apply same.load
          intro offset below
          rw [Nat.add_assoc]
          exact inside header (by simp) _ (by omega)
        have dataInside := inside data (by simp)
        have statusInside : P status.addr := inside status (by simp) 0 (by omega)
        rw [typeSame, sectorSame]
        apply Exec.Lockstep.ite
        · intro _
          exact .ok (transferOut_served same _ dataInside statusInside)
        · intro _
          apply Exec.Lockstep.ite
          · intro _
            exact .ok (transferIn_served same _ dataInside statusInside)
          · intro _
            exact .error _
      · intro _
        exact .error _

end Perform

def ringsAt (queue : Nat) : Vring := ⟨16, queue, queue + 256, queue + 4096⟩

end Device

namespace QueueAt

variable {queue : Nat} {numbers : QueueField → Nat} {outer mem : Memory}

theorem store (at_queue : QueueAt queue numbers outer mem) (field : QueueField) (n : Nat)
    {addr width : Nat} (place : addr = queue + field.offset) (size : width = field.width) :
    QueueAt queue (Function.update numbers field (n % 256 ^ field.width)) outer
      (mem.store addr (encodeLE width n)) := by
  subst place size
  exact at_queue.write_mod field n

theorem served (at_queue : QueueAt queue numbers outer mem) {vq : VirtioVirtq} {disk : Memory}
    {after bare : Machine}
    (done : Device.Served (Outside queue) ⟨vq, outer, disk⟩ mem after bare) :
    QueueAt queue numbers after.mem bare.mem := by
  constructor
  · rw [← at_queue.read]
    apply Eq.symm
    apply queueFields.read_congr
    intro a within
    exact done.kept a (not_not.mpr within)
  · exact done.same

theorem fetchDesc (at_queue : QueueAt queue numbers outer mem) (i : Fin 16) :
    Device.fetchDesc mem (Device.ringsAt queue) i = (queueOf numbers).descs i := by
  have addr : decodeLE (mem.load (queue + 16 * i) 8) = numbers (.descAddr i) :=
    at_queue.number _ rfl rfl
  have len : decodeLE (mem.load (queue + 16 * i + 8) 4) = numbers (.descLen i) :=
    at_queue.number _ (Nat.add_assoc ..) rfl
  have flags : decodeLE (mem.load (queue + 16 * i + 12) 2) = numbers (.descFlags i) :=
    at_queue.number _ (Nat.add_assoc ..) rfl
  have next : decodeLE (mem.load (queue + 16 * i + 14) 2) = numbers (.descNext i) :=
    at_queue.number _ (Nat.add_assoc ..) rfl
  simp only [Device.fetchDesc, Device.ringsAt, addr, len, flags, next, queueOf]

theorem fetchChain (at_queue : QueueAt queue numbers outer mem) (fuel index : Nat) :
    Device.fetchChain mem (Device.ringsAt queue) fuel index =
      Device.chain (queueOf numbers).descs fuel index := by
  induction fuel generalizing index with
  | zero => rfl
  | succ fuel ih =>
      have count : (Device.ringsAt queue).num = 16 := rfl
      rw [Device.fetchChain, Device.chain, count]
      by_cases inside : index < 16
      · have fetched := at_queue.fetchDesc ⟨index, inside⟩
        dsimp only at fetched
        rw [if_pos inside, dif_pos inside, fetched]
        simp only [ih]
      · rw [if_neg inside, dif_neg inside]

/-- The device puts the finished request into the used ring. -/
theorem posted (at_queue : QueueAt queue numbers outer mem) (head len : Nat) :
    ∃ entries, QueueAt queue entries outer
        (((mem.store (queue + 4096 + 4 + 8 * (numbers .usedIndex % 16)) (encodeLE 4 head)).store
            (queue + 4096 + 4 + 8 * (numbers .usedIndex % 16) + 4) (encodeLE 4 len)).store
          (queue + 4096 + 2) (encodeLE 2 ((numbers .usedIndex + 1) % 2 ^ 16))) ∧
      entries .usedPointer = numbers .usedPointer ∧
      queueOf entries =
        { queueOf numbers with used := ⟨(numbers .usedIndex + 1) % 2 ^ 16⟩ } := by
  obtain ⟨entry, entry_val⟩ : ∃ entry : Fin 16, numbers .usedIndex % 16 = entry :=
    ⟨⟨_, Nat.mod_lt _ (by decide)⟩, rfl⟩
  rw [entry_val]
  have id_place : queue + 4096 + 4 + 8 * entry = queue + (QueueField.usedId entry).offset := by
    rw [QueueField.offset]
    omega
  have len_place : queue + 4096 + 4 + 8 * entry + 4 =
      queue + (QueueField.usedLen entry).offset := by
    rw [QueueField.offset]
    omega
  have named := at_queue.store (.usedId entry) head id_place rfl
  have sized := named.store (.usedLen entry) len len_place rfl
  have counted := sized.store .usedIndex ((numbers .usedIndex + 1) % 2 ^ 16) rfl rfl
  have once : (numbers .usedIndex + 1) % 2 ^ 16 % 256 ^ QueueField.usedIndex.width =
      (numbers .usedIndex + 1) % 2 ^ 16 := Nat.mod_mod _ _
  refine ⟨_, counted, rfl, ?_⟩
  rw [queueOf_used, once]

end QueueAt

structure Mirrors (queue : Nat) (machine : Machine) (mem disk : Memory) : Prop where
  queued : ∃ numbers, QueueAt queue numbers machine.mem mem ∧
    numbers .usedPointer = queue + 4098 ∧ machine.vq = queueOf numbers
  disk : machine.disk = disk

def pending (vq : VirtioVirtq) : Option (List VirtqDesc) :=
  Device.chain vq.descs 16
    (vq.avail.ring ⟨(vq.avail.index + 15) % 16, Nat.mod_lt _ (by decide)⟩)

def PendingOutside (queue : Nat) (vq : VirtioVirtq) : Prop :=
  ∀ descs, pending vq = some descs → ∀ desc ∈ descs, ∀ offset < desc.len,
    Outside queue (desc.addr + offset)

section Bytes

variable {queue : Nat} {machine : Machine} {mem disk : Memory} {reply : Reply}

theorem Mirrors.virtqIsBusy (mirrors : Mirrors queue machine mem disk) (page : queue % 4096 = 0) :
    Bare.virtqIsBusy mem queue = .ok (Ease.virtqIsBusy machine.vq) := by
  rcases mirrors with ⟨⟨numbers, at_queue, pointer, vq⟩, _⟩
  have even : decide ((queue + 4098) % 2 = 0) = true := decide_eq_true (by omega)
  have counted : decodeLE (mem.load (queue + 4098) 2) = numbers .usedIndex :=
    at_queue.number _ rfl rfl
  rw [Bare.virtqIsBusy, at_queue.read, pointer, even, counted, vq]
  rfl

/-- The device on its rings does what the device on the record does. -/
theorem Mirrors.serveQueue (mirrors : Mirrors queue machine mem disk)
    (outside : PendingOutside queue machine.vq) :
    Exec.Lockstep (fun after bare => Mirrors queue after bare.1 bare.2)
      (Device.complete machine reply)
      (Device.serveQueue mem (Device.ringsAt queue) disk reply) := by
  rcases machine with ⟨vq, outer, stored⟩
  rcases mirrors with ⟨⟨numbers, at_queue, pointer, rfl⟩, rfl⟩
  have rings : (Device.ringsAt queue).num = 16 ∧ (Device.ringsAt queue).avail = queue + 256 ∧
      (Device.ringsAt queue).used = queue + 4096 := ⟨rfl, rfl, rfl⟩
  rcases rings with ⟨num, avail, used⟩
  have index : decodeLE (mem.load (queue + 256 + 2) 2) = numbers .availIndex :=
    at_queue.number _ rfl rfl
  generalize slot_eq : (⟨(numbers .availIndex + 15) % 16, Nat.mod_lt _ (by decide)⟩ : Fin 16) = slot
  have slot_val : (numbers .availIndex + (16 - 1)) % 16 = slot := congrArg Fin.val slot_eq
  have head : decodeLE (mem.load (queue + 256 + 4 + 2 * slot) 2) = numbers (.availRing slot) :=
    at_queue.number _ (by rw [QueueField.offset]; omega) rfl
  have found : pending (queueOf numbers) =
      Device.chain (queueOf numbers).descs 16 (numbers (.availRing slot)) := by
    rw [← slot_eq]
    rfl
  rw [Device.complete, Device.serveQueue, num, avail, used, index, slot_val, head,
    at_queue.fetchChain, ← found]
  have same_found : Device.chain (queueOf numbers).descs 16 ((queueOf numbers).avail.ring
      ⟨((queueOf numbers).avail.index + 15) % 16, Nat.mod_lt _ (by decide)⟩) =
      pending (queueOf numbers) := rfl
  rw [same_found]
  cases request : pending (queueOf numbers) with
  | none => exact .error _
  | some descs =>
      have performed := @Device.perform_lockstep _ ⟨queueOf numbers, outer, stored⟩ _ .zeroed reply
        at_queue.same descs (outside descs request)
      apply performed.bind
      intro after bare done
      have left := at_queue.served done
      have count : decodeLE (bare.mem.load (queue + 4096 + 2) 2) = numbers .usedIndex :=
        left.number _ rfl rfl
      rcases left.posted (numbers (.availRing slot)) (Device.writableBytes descs) with
        ⟨entries, posted, kept, counted⟩
      rw [count]
      refine .ok ⟨⟨entries, posted, kept.trans pointer, ?_⟩, done.disk⟩
      rw [counted, done.vq]
      rfl

theorem Mirrors.waitIdle (mirrors : Mirrors queue machine mem disk) (page : queue % 4096 = 0)
    (outside : PendingOutside queue machine.vq) (polls : Nat) :
    Exec.Lockstep (fun after bare => Mirrors queue after bare.1 bare.2)
      (Ease.waitIdle machine reply polls)
      (Bare.waitIdle disk (Device.ringsAt queue) queue reply mem polls) := by
  induction polls with
  | zero =>
      rw [Ease.waitIdle, Bare.waitIdle]
      apply (mirrors.serveQueue outside).bind
      intro after bare served
      have busy := served.virtqIsBusy page
      rcases bare with ⟨mem, disk⟩
      dsimp only at busy ⊢
      rw [busy]
      apply Exec.Lockstep.ite
      · intro _
        exact .error _
      · intro _
        exact .ok served
  | succ polls ih =>
      rw [Ease.waitIdle, Bare.waitIdle, mirrors.virtqIsBusy page, Exec.ok_bind]
      apply Exec.Lockstep.ite
      · intro _
        exact ih
      · intro _
        exact .error _

theorem pending_kicked (vq : VirtioVirtq) (req : Nat) (op : BlkOp) :
    pending (kicked { vq with
      descs := Function.update (Function.update (Function.update vq.descs
        ⟨0, by decide⟩ ⟨req, 16, virtqDescFNext, 1⟩)
        ⟨1, by decide⟩ ⟨req + dataOffset, blockSize, (virtqDescFNext ||| flagsOf op) % 2 ^ 16, 2⟩)
        ⟨2, by decide⟩ ⟨req + statusOffset, 1, virtqDescFWrite, 0⟩ } 0) =
      some (requestDescs req (flagsOf op)) := by
  have slot : (vq.avail.index + 1 + 15) % 16 = vq.avail.index % 16 := by omega
  rw [← chain_requestDescs vq.descs req op, pending]
  simp only [kicked, slot, Function.update_self]

theorem requestDescs_outside {req : Nat} (apart : ∀ offset < reqSize, Outside queue (req + offset))
    (flags : Nat) : ∀ desc ∈ requestDescs req flags, ∀ offset < desc.len,
      Outside queue (desc.addr + offset) := by
  have sizes : dataOffset = 16 ∧ statusOffset = 528 ∧ reqSize = 529 ∧ blockSize = 512 :=
    ⟨rfl, rfl, rfl, rfl⟩
  intro desc member offset below
  simp only [requestDescs, List.mem_cons, List.not_mem_nil, or_false] at member
  rcases member with rfl | rfl | rfl
  · exact apart offset (by dsimp only at below; omega)
  · rw [Nat.add_assoc]
    exact apart _ (by dsimp only at below; omega)
  · rw [Nat.add_assoc]
    exact apart _ (by dsimp only at below; omega)

theorem Mirrors.virtioQueue (mirrors : Mirrors queue machine mem disk) (page : queue % 4096 = 0)
    {req : Nat} (reqFits : req + reqSize ≤ 2 ^ 32)
    (apart : ∀ offset < reqSize, Outside queue (req + offset)) (op : BlkOp) :
    Exec.Lockstep (fun after bare => Mirrors queue after bare.1 bare.2)
      (Ease.virtioQueue machine reply req (flagsOf op))
      (Bare.virtioQueue disk (Device.ringsAt queue) queue reply mem req (flagsOf op)) := by
  have sizes : dataOffset = 16 ∧ statusOffset = 528 ∧ reqSize = 529 ∧ blockSize = 512 :=
    ⟨rfl, rfl, rfl, rfl⟩
  have zero : 0 < 16 := by decide
  have one : 1 < 16 := by decide
  have two : 2 < 16 := by decide
  rcases machine with ⟨vq, outer, stored⟩
  rcases mirrors with ⟨⟨numbers, at_queue, pointer, rfl⟩, rfl⟩
  dsimp only at at_queue
  rw [Ease.virtioQueue, Bare.virtioQueue, Slots.write_ok _ _ zero, Exec.ok_bind]
  obtain ⟨mem₀, numbers₀, wrote₀, queue₀, pointer₀, record₀⟩ :=
    at_queue.writeDesc zero ⟨req, 16, virtqDescFNext, 1⟩ (by dsimp only; omega)
      (by decide : 16 < 2 ^ 32) (by decide : virtqDescFNext < 2 ^ 16) (by decide : 1 < 2 ^ 16)
  obtain ⟨mem₁, numbers₁, wrote₁, queue₁, pointer₁, record₁⟩ :=
    queue₀.writeDesc one ⟨req + dataOffset, blockSize, (virtqDescFNext ||| flagsOf op) % 2 ^ 16, 2⟩
      (by dsimp only; omega) (by decide : blockSize < 2 ^ 32) (Nat.mod_lt _ (by decide))
      (by decide : 2 < 2 ^ 16)
  obtain ⟨mem₂, numbers₂, wrote₂, queue₂, pointer₂, record₂⟩ :=
    queue₁.writeDesc two ⟨req + statusOffset, 1, virtqDescFWrite, 0⟩ (by dsimp only; omega)
      (by decide : 1 < 2 ^ 32) (by decide : virtqDescFWrite < 2 ^ 16) (by decide : 0 < 2 ^ 16)
  rw [wrote₀, Exec.ok_bind, usizeAdd_ok (by omega), Exec.ok_bind, Exec.ok_bind,
    Slots.write_ok _ _ one, Exec.ok_bind, wrote₁, Exec.ok_bind, usizeAdd_ok (by omega),
    Exec.ok_bind, Exec.ok_bind, Slots.write_ok _ _ two, Exec.ok_bind, wrote₂, Exec.ok_bind]
  rw [record₀] at record₁
  rw [record₁] at record₂
  dsimp only at record₂ ⊢
  rw [← record₂]
  apply (queue₂.virtqKick (by decide)).bind
  intro after mem₃ notified
  rcases notified with ⟨rfl, numbers₃, queue₃, pointer₃, record₃⟩
  have given : Mirrors queue ⟨kicked (queueOf numbers₂) 0, outer, stored⟩ mem₃ stored :=
    ⟨⟨numbers₃, queue₃, by rw [pointer₃, pointer₂, pointer₁, pointer₀, pointer], record₃.symm⟩, rfl⟩
  apply given.waitIdle page
  intro descs request
  rw [record₂, pending_kicked] at request
  cases request
  exact requestDescs_outside apart (flagsOf op)

theorem Mirrors.store (mirrors : Mirrors queue machine mem disk) {addr : Nat} {bytes : List UInt8}
    (outside : ∀ offset < bytes.length, Outside queue (addr + offset)) :
    Mirrors queue { machine with mem := machine.mem.store addr bytes } (mem.store addr bytes)
      disk := by
  rcases mirrors with ⟨⟨numbers, at_queue, pointer, vq⟩, same⟩
  refine ⟨⟨numbers, ⟨?_, at_queue.same.store _ _⟩, pointer, vq⟩, same⟩
  rw [← at_queue.read]
  apply Eq.symm
  apply queueFields.read_congr
  apply Memory.SameOn.store_apart
  intro offset below inside
  exact outside offset below inside

theorem Mirrors.fillRequest (mirrors : Mirrors queue machine mem disk) {req : Nat}
    (apart : ∀ offset < reqSize, Outside queue (req + offset)) (sector : Nat) (op : BlkOp)
    (data : Block) :
    Mirrors queue { machine with mem := (Ease.fillRequest machine.mem req sector op data).1 }
      (Ease.fillRequest mem req sector op data).1 disk := by
  have sizes : sectorOffset = 8 ∧ dataOffset = 16 ∧ reqSize = 529 ∧ blockSize = 512 :=
    ⟨rfl, rfl, rfl, rfl⟩
  have type (n : Nat) : ∀ offset < (encodeLE 4 n).length, Outside queue (req + offset) := by
    intro offset below
    rw [encodeLE_length] at below
    exact apart offset (by omega)
  have sectored := @mirrors.store _ _ _ _ (req + sectorOffset) (encodeLE 8 sector) (by
    intro offset below
    rw [encodeLE_length] at below
    rw [Nat.add_assoc]
    exact apart _ (by omega))
  cases op with
  | read => exact sectored.store (type virtioBlkTIn)
  | write =>
      apply (sectored.store (type virtioBlkTOut)).store
      intro offset below
      rw [data.property] at below
      rw [Nat.add_assoc]
      exact apart _ (by omega)

theorem Mirrors.at_outside (mirrors : Mirrors queue machine mem disk) {a : Nat}
    (outside : Outside queue a) : machine.mem a = mem a := by
  rcases mirrors with ⟨⟨_, at_queue, _⟩, _⟩
  exact at_queue.same a outside

theorem Mirrors.load_outside (mirrors : Mirrors queue machine mem disk) {addr count : Nat}
    (outside : ∀ offset < count, Outside queue (addr + offset)) :
    machine.mem.load addr count = mem.load addr count := by
  rcases mirrors with ⟨⟨_, at_queue, _⟩, _⟩
  exact at_queue.same.load outside

end Bytes

end Ease
