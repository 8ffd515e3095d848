import Ease.BareDisk

/-! From the allocation of the queue on, the driver on bytes does what the driver on the
record does, and is an array of blocks. -/

namespace Ease

/-- The queue is on a page, the request does not lie in it, and the registers lead the
device to it. -/
structure Wired (bare : BareWorld) (req queue : Nat) : Prop where
  page : queue % 4096 = 0
  apart : ∀ offset < reqSize, Outside queue (req + offset)
  rings : Device.vring bare.regs bare.pageSize = Device.ringsAt queue

/-- The driver of the record, and the driver of the bytes after it has started. -/
structure Refines (world : World) (bare : BareWorld) : Prop where
  started : ∃ blk queue, world.blk = some blk ∧
    bare.blk = some ⟨blk.capacity, blk.req, queue⟩ ∧ Wired bare blk.req queue ∧
    Mirrors queue ⟨blk.vq, world.mem, world.disk⟩ bare.mem bare.disk

section Drivers

variable {world : World} {bare : BareWorld}

theorem Refines.diskOp (refines : Refines world bare) (reply : Reply) (sector : Nat) (op : BlkOp)
    (data : Block) :
    Exec.Lockstep (fun a b => Refines a.1 b.1 ∧ a.2 = b.2) (world.diskOp reply sector op data)
      (bare.diskOp reply sector op data) := by
  rcases refines with ⟨blk, queue, present, barePresent, wired, mirrors⟩
  have given : Refines world bare := ⟨blk, queue, present, barePresent, wired, mirrors⟩
  rw [World.diskOp, BareWorld.diskOp, present, barePresent]
  dsimp only
  apply Exec.Lockstep.ite
  · intro _
    exact .ok ⟨given, rfl⟩
  · intro _
    have filled := mirrors.fillRequest wired.apart sector op data
    have flags := fillRequest_flags world.mem blk.req sector op data
    have bareFlags := fillRequest_flags bare.mem blk.req sector op data
    dsimp only at filled
    generalize fillRequest world.mem blk.req sector op data = request at filled flags ⊢
    generalize fillRequest bare.mem blk.req sector op data = bareRequest at filled bareFlags ⊢
    rw [wired.rings, flags, bareFlags]
    apply (filled.virtioQueue wired.page blk.reqFits wired.apart op).bind
    intro after bareAfter served
    have sizes : dataOffset = 16 ∧ statusOffset = 528 ∧ reqSize = 529 ∧ blockSize = 512 :=
      ⟨rfl, rfl, rfl, rfl⟩
    have status := served.at_outside (wired.apart statusOffset (by omega))
    have read : after.mem.load (blk.req + dataOffset) blockSize =
        bareAfter.1.load (blk.req + dataOffset) blockSize := by
      apply served.load_outside
      intro offset below
      rw [Nat.add_assoc]
      exact wired.apart _ (by omega)
    have left : Refines ⟨some { blk with vq := after.vq }, after.mem, after.disk⟩
        ⟨some ⟨blk.capacity, blk.req, queue⟩, bare.regs, bare.pageSize, bareAfter.1, bareAfter.2⟩ :=
      ⟨{ blk with vq := after.vq }, queue, rfl, rfl, ⟨wired.page, wired.apart, wired.rings⟩,
        served⟩
    rw [status]
    apply Exec.Lockstep.ite
    · intro _
      exact .ok ⟨left, rfl⟩
    · intro _
      cases op with
      | read =>
          refine .ok ⟨left, ?_⟩
          simp only [read]
      | write => exact .ok ⟨left, rfl⟩

theorem Refines.writeBlock (refines : Refines world bare) (reply : Reply) (block : UInt32)
    (buf : Block) :
    Exec.Lockstep (fun a b => Refines a.1 b.1 ∧ a.2 = b.2) (world.writeBlock reply block buf)
      (bare.writeBlock reply block buf) := by
  apply (refines.diskOp reply block.toNat .write buf).bindSame
  intro after bareAfter answer left
  rcases answer with ⟨buffer, result⟩
  exact .ok ⟨left, rfl⟩

theorem Refines.serve (refines : Refines world bare) (request : BlkCall × Reply) :
    Exec.Lockstep (fun a b => Refines a.1 b.1 ∧ a.2 = b.2) (world.serve request)
      (bare.serve request) := by
  rcases request with ⟨call, reply⟩
  cases call with
  | read block buf =>
      apply (refines.diskOp reply block.toNat .read buf).bindSame
      intro after bareAfter answer left
      rcases answer with ⟨buffer, result⟩
      exact .ok ⟨left, rfl⟩
  | write block data =>
      apply (refines.writeBlock reply block data).bindSame
      intro after bareAfter answer left
      rcases answer with ⟨buffer, result⟩
      exact .ok ⟨left, rfl⟩

theorem Refines.run (refines : Refines world bare) (calls : List (BlkCall × Reply)) :
    Runs.Agree Refines (Runs.run World.serve world calls) (Runs.run BareWorld.serve bare calls) :=
  Runs.run_agree World.serve (fun _ _ request related => (related.serve request).agree)
    refines calls

end Drivers

/-- The heap has a page for the queue, above the driver's static, and lies in the memory
of the machine. -/
structure QueueRoom (heap : BumpAllocator) (req : Nat) : Prop where
  above : req + reqSize ≤ heap.next
  room : Rounding.roundUp heap.next 4096 + 12288 ≤ heap.heapEnd
  top : heap.heapEnd < 2 ^ 32

def queuePage (heap : BumpAllocator) : Nat := Rounding.roundUp heap.next 4096

namespace QueueRoom

variable {heap : BumpAllocator} {req : Nat}

theorem bounds (room : QueueRoom heap req) :
    queuePage heap % 4096 = 0 ∧ req + reqSize ≤ queuePage heap ∧
      queuePage heap + 12288 < 2 ^ 32 := by
  have multiple := Rounding.dvd_roundUp heap.next (by decide : 0 < 4096)
  have past := Rounding.le_roundUp heap.next (by decide : 0 < 4096)
  refine ⟨Nat.mod_eq_zero_of_dvd multiple, room.above.trans past, ?_⟩
  exact room.room.trans_lt room.top

theorem alloc (room : QueueRoom heap req) :
    heap.alloc Bare.queueLayout =
      .ok ({ heap with next := queuePage heap + 12288 }, queuePage heap) := by
  have bounds := room.bounds
  have past := Rounding.le_roundUp heap.next (by decide : 0 < 4096)
  have inside : ¬ heap.heapEnd < queuePage heap + 12288 := Nat.not_lt.mpr room.room
  have sums : SumsFit heap (.alloc Bare.queueLayout) := by
    constructor
    · have above : heap.next ≤ queuePage heap := past
      have align : Bare.queueLayout.align = 4096 := rfl
      omega
    · exact bounds.2.2
  exact (BumpAllocator.alloc_ok sums).trans (if_neg inside)

theorem apart (room : QueueRoom heap req) :
    ∀ offset < reqSize, Outside (queuePage heap) (req + offset) := by
  have bounds := room.bounds
  intro offset below inside
  rcases inside with ⟨above, _⟩
  omega

end QueueRoom

theorem vring_ringsAt {regs : Registers} {queue : Nat} (page : queue % 4096 = 0)
    (num : (regs.word virtioRegQueueNum).toNat = 16)
    (align : (regs.word virtioRegQueueAlign).toNat = 4096)
    (pfn : (regs.word virtioRegQueuePfn).toNat = queue) :
    Device.vring regs 1 = Device.ringsAt queue := by
  have used : Rounding.roundUp (queue + 16 * 16 + 4 + 2 * 16) 4096 = queue + 4096 := by
    rw [Rounding.roundUp]
    omega
  rw [Device.vring, num, align, pfn, Nat.mul_one, used]
  rfl

def toldOf (regs : Registers) (queue : Nat) : Registers :=
  { regs with
    word :=
      Function.update (Function.update (Function.update (Function.update regs.word
        virtioRegQueueSel (UInt32.ofNat 0))
        virtioRegQueueNum (UInt32.ofNat virtqEntryNum))
        virtioRegQueueAlign 4096)
        virtioRegQueuePfn (UInt32.ofNat queue) }

structure Initialised (heap : BumpAllocator) (regs : Registers) (mem : Memory)
    (after : Bare.Queued) : Prop where
  queue : after.queue = queuePage heap
  numbers : ∃ numbers, QueueAt (queuePage heap) numbers mem after.mem ∧
    numbers .usedPointer = queuePage heap + 4098 ∧ Ease.virtqInit 0 = queueOf numbers
  sectors : after.regs.doubleWord = regs.doubleWord
  num : (after.regs.word virtioRegQueueNum).toNat = 16
  align : (after.regs.word virtioRegQueueAlign).toNat = 4096
  pfn : (after.regs.word virtioRegQueuePfn).toNat = queuePage heap

theorem virtqInit_initialised {heap : BumpAllocator} {req : Nat} (room : QueueRoom heap req)
    (regs : Registers) (mem : Memory) :
    ∃ after, Bare.virtqInit heap regs mem 0 = .ok after ∧ Initialised heap regs mem after := by
  have bounds := room.bounds
  have taken : (queuePage heap != 0) = true := by
    have positive : reqSize = 529 := rfl
    simp only [bne_iff_ne]
    omega
  have zeroed : QueueAt (queuePage heap) (fun _ => 0) mem
      (mem.store (queuePage heap) (List.replicate 12288 0)) := by
    constructor
    · exact queueFields.read_zeros mem (queuePage heap)
    · apply Memory.SameOn.store_apart
      intro offset below outside
      rw [List.length_replicate] at below
      exact outside ⟨Nat.le_add_right _ _, Nat.add_lt_add_left below _⟩
  have indexed := zeroed.write .queueIndex (by decide : 0 % 2 ^ 16 < 2 ^ 16)
  have pointer : queuePage heap + QueueField.usedIndex.offset < 256 ^ 4 := by
    rw [QueueField.offset]
    omega
  have pointed := indexed.write .usedPointer pointer
  have word : ∀ offset ∈ [virtioRegQueueSel, virtioRegQueueNum, virtioRegQueueAlign,
      virtioRegQueuePfn], (virtioBlkPaddr + offset) % 4 = 0 := by decide
  have checked : ∀ message, assertThat true message = .ok () := fun _ => rfl
  have stored : ∃ after, Bare.virtqInit heap regs mem 0 = .ok after ∧
      after.queue = queuePage heap ∧ after.regs = toldOf regs (queuePage heap) ∧
      after.mem = queueFields.write (queueFields.write (mem.store (queuePage heap)
        (List.replicate 12288 0)) (queuePage heap) .queueIndex (0 % 2 ^ 16)) (queuePage heap)
        .usedPointer (queuePage heap + QueueField.usedIndex.offset) := by
    rw [Bare.virtqInit, room.alloc, Exec.ok_bind]
    dsimp only
    rw [taken, checked, Exec.ok_bind, Registers.write32_ok _ _ (word _ (by simp)), Exec.ok_bind,
      Registers.write32_ok _ _ (word _ (by simp)), Exec.ok_bind,
      Registers.write32_ok _ _ (word _ (by simp)), Exec.ok_bind,
      Registers.write32_ok _ _ (word _ (by simp)), Exec.ok_bind]
    exact ⟨_, rfl, rfl, rfl, rfl⟩
  rcases stored with ⟨after, returned, queue, registers, left⟩
  refine ⟨after, returned, queue, ⟨_, by rw [left]; exact pointed, rfl, rfl⟩, ?_, ?_, ?_, ?_⟩
  · rw [registers]
    rfl
  · rw [registers]
    rfl
  · rw [registers]
    rfl
  · rw [registers, toldOf]
    dsimp only
    rw [Function.update_self, UInt32.toNat_ofNat', Nat.mod_eq_of_lt (by omega)]

structure StartsAlike (heap : BumpAllocator) (mem : Memory) (req : Nat)
    (result : VirtioBlkState × Registers) (start : BareStart) : Prop where
  blk : start.blk = ⟨result.1.capacity, req, queuePage heap⟩
  req : result.1.req = req
  rings : Device.vring start.regs 1 = Device.ringsAt (queuePage heap)
  numbers : ∃ numbers, QueueAt (queuePage heap) numbers mem start.mem ∧
    numbers .usedPointer = queuePage heap + 4098 ∧ result.1.vq = queueOf numbers

theorem new_lockstep {heap : BumpAllocator} {req : Nat} (room : QueueRoom heap req)
    (regs : Registers) (mem : Memory) (reqFits : req + reqSize ≤ 2 ^ 32) :
    Exec.Lockstep (StartsAlike heap mem req) (VirtioBlkState.new regs req reqFits)
      (BareBlk.new heap regs mem req) := by
  have aligned : (virtioBlkPaddr + virtioRegDeviceStatus) % 4 = 0 := by decide
  have config : (virtioBlkPaddr + (virtioRegDeviceConfig + 0)) % 8 = 0 := by decide
  rw [VirtioBlkState.new, BareBlk.new]
  apply Exec.Lockstep.same
  intro magic _
  apply Exec.Lockstep.same
  intro _ _
  apply Exec.Lockstep.same
  intro version _
  apply Exec.Lockstep.same
  intro _ _
  apply Exec.Lockstep.same
  intro deviceId _
  apply Exec.Lockstep.same
  intro _ _
  apply Exec.Lockstep.same
  intro reset _
  apply Exec.Lockstep.same
  intro acknowledged _
  apply Exec.Lockstep.same
  intro driver _
  apply Exec.Lockstep.same
  intro features _
  obtain ⟨after, returned, initialised⟩ := virtqInit_initialised room features mem
  dsimp only
  rw [returned, Exec.ok_bind, Registers.write32_ok _ _ aligned, Registers.write32_ok _ _ aligned,
    Exec.ok_bind, Exec.ok_bind, Registers.read64_ok _ config, Registers.read64_ok _ config,
    Exec.ok_bind, Exec.ok_bind]
  dsimp only
  rw [initialised.sectors]
  apply Exec.Lockstep.same
  intro capacity _
  refine .ok ⟨?_, rfl, ?_, initialised.numbers⟩
  · rw [initialised.queue]
  · apply vring_ringsAt room.bounds.1
    · exact initialised.num
    · exact initialised.align
    · exact initialised.pfn

theorem virtioBlkInit_lockstep {heap : BumpAllocator} {req : Nat} (room : QueueRoom heap req)
    (world : World) (regs : Registers) (reqFits : req + reqSize ≤ 2 ^ 32) :
    Exec.Lockstep (fun a b => Refines a.1 b.1) (world.virtioBlkInit regs req reqFits)
      (BareWorld.virtioBlkInit ⟨none, regs, 1, world.mem, world.disk⟩ heap req) := by
  apply (new_lockstep room regs world.mem reqFits).bind
  intro result start alike
  rcases result with ⟨blk, left⟩
  have mirrors : Mirrors (queuePage heap) ⟨blk.vq, world.mem, world.disk⟩ start.mem world.disk :=
    ⟨alike.numbers, rfl⟩
  have cleared := @mirrors.store _ _ _ _ req (List.replicate reqSize 0) (by
    rw [List.length_replicate]
    exact room.apart)
  refine .ok ⟨blk, queuePage heap, rfl, ?_, ?_, cleared⟩
  · dsimp only
    rw [alike.blk, alike.req]
  · rw [alike.req]
    exact ⟨room.bounds.1, room.apart, alike.rings⟩

def arrayStep (blocks : Nat) (contents : Nat → Block) (request : BlkCall × Reply) :
    Exec ((Nat → Block) × Served) :=
  let served := arrayServe blocks contents request.2.status request.1
  .ok (arrayAfter contents served, served)

theorem run_serve_array {world : World} {blocks count : Nat} {contents : Nat → Block}
    (holds : Holds world blocks count contents) (calls : List (BlkCall × Reply))
    (few : count + calls.length < 2 ^ 16) :
    ∃ after left history, Runs.run World.serve world calls = .ok (after, history) ∧
      Runs.run (arrayStep blocks) contents calls = .ok (left, history) ∧
      Holds after blocks (count + calls.length) left := by
  induction calls generalizing world contents count with
  | nil => exact ⟨world, contents, [], rfl, rfl, holds⟩
  | cons request calls ih =>
      rcases request with ⟨call, reply⟩
      rw [List.length_cons] at few ⊢
      rcases serve_ok holds (by omega) call reply with ⟨next, served, kept, _⟩
      obtain ⟨after, left, history, ran, arrayRan, final⟩ := ih kept (by omega)
      refine ⟨after, left, _ :: history, (Runs.run_cons_eq_ok _).mpr ⟨next, _, history, served, ran,
        rfl⟩, (Runs.run_cons_eq_ok _).mpr ⟨_, _, history, rfl, arrayRan, rfl⟩, ?_⟩
      rwa [← Nat.add_assoc, Nat.add_right_comm]

theorem Refines.disk {world : World} {bare : BareWorld} (refines : Refines world bare) :
    bare.disk = world.disk := by
  rcases refines with ⟨_, _, _, _, _, mirrors⟩
  exact mirrors.disk.symm

/-- The driver on the bytes of its queue, from the allocation of the queue on: whatever
the registers say, and over every run of calls, it does what the driver of the record does,
up to the fault at which both stop. On a block device it is an array of blocks over fewer
than 65536 calls, and its disk holds that array. -/
theorem bare_disk_refines {heap : BumpAllocator} {req : Nat} (room : QueueRoom heap req)
    (world : World) (regs : Registers) (reqFits : req + reqSize ≤ 2 ^ 32)
    (calls : List (BlkCall × Reply)) :
    Runs.Agree Refines
      (world.virtioBlkInit regs req reqFits >>= fun started => Runs.run World.serve started.1 calls)
      (BareWorld.virtioBlkInit ⟨none, regs, 1, world.mem, world.disk⟩ heap req >>=
        fun started => Runs.run BareWorld.serve started.1 calls) ∧
    (regs.IsBlockDevice → regs.sectors.toNat * blockSize < 2 ^ 64 → calls.length < 2 ^ 16 →
      ∃ started left after history,
        BareWorld.virtioBlkInit ⟨none, regs, 1, world.mem, world.disk⟩ heap req =
          .ok (started, left) ∧
        Runs.run BareWorld.serve started calls = .ok (after, history) ∧
        Runs.run (arrayStep regs.sectors.toNat) (diskBlock world.disk) calls =
          .ok (diskBlock after.disk, history)) := by
  have start := virtioBlkInit_lockstep room world regs reqFits
  constructor
  · apply start.bindAgree
    intro first second related
    exact related.run calls
  · intro device fits few
    obtain ⟨first, registers, initialised, holds⟩ := virtioBlkInit_holds device world reqFits fits
    rw [initialised] at start
    obtain ⟨⟨started, left⟩, bareStarted, refines⟩ := start.of_ok
    obtain ⟨last, array, history, ran, arrayRan, kept⟩ := run_serve_array holds calls (by omega)
    have agree := refines.run calls
    rw [ran] at agree
    rcases agree.of_ok with ⟨after, bareRan, final⟩
    refine ⟨started, left, after, history, bareStarted, bareRan, ?_⟩
    have contents : diskBlock after.disk = array := by
      funext block
      rw [final.disk, kept.stored]
    rw [contents, arrayRan]

def firstHeap : BumpAllocator := BumpAllocator.new.init 0x80020010 0x80030010

theorem firstHeap_room : QueueRoom firstHeap 0x80010000 :=
  ⟨by decide, by decide, by decide⟩

theorem bare_disk_reads_back :
    ∃ started left after history,
      BareWorld.virtioBlkInit ⟨none, blockDevice 2, 1, emptyWorld.mem, emptyWorld.disk⟩ firstHeap
        0x80010000 = .ok (started, left) ∧
      Runs.run BareWorld.serve started writeAndReadBack = .ok (after, history) ∧
      Runs.run (arrayStep (blockDevice 2).sectors.toNat) (diskBlock emptyWorld.disk)
        writeAndReadBack = .ok (diskBlock after.disk, history) :=
  (bare_disk_refines firstHeap_room emptyWorld (blockDevice 2) (by decide) writeAndReadBack).2
    (blockDevice_isBlockDevice 2) (by decide) (by exact (by decide : 3 < 2 ^ 16))

end Ease
