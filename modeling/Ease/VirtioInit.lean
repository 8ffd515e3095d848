import Ease.BlockStore

/-! The start of the block device driver, and the block count that it reports. -/

namespace Ease

def virtioDeviceBlk : UInt32 := 2

def virtioRegMagic : Nat := 0x00

def virtioRegVersion : Nat := 0x04

def virtioRegDeviceId : Nat := 0x08

def virtioRegDeviceStatus : Nat := 0x70

def virtioRegDeviceConfig : Nat := 0x100

def virtioStatusAck : UInt32 := 1

def virtioStatusDriver : UInt32 := 2

def virtioStatusDriverOk : UInt32 := 4

def virtioStatusFeatOk : UInt32 := 8

structure Registers where
  word : Nat → UInt32
  doubleWord : Nat → UInt64

namespace Registers

def read32 (regs : Registers) (offset : Nat) : Exec UInt32 := do
  assertThat (decide ((virtioBlkPaddr + offset) % 4 = 0)) "assertion `left == right` failed"
  .ok (regs.word offset)

def read64 (regs : Registers) (offset : Nat) : Exec UInt64 := do
  assertThat (decide ((virtioBlkPaddr + offset) % 8 = 0)) "assertion `left == right` failed"
  .ok (regs.doubleWord offset)

def write32 (regs : Registers) (offset : Nat) (value : UInt32) : Exec Registers := do
  virtioRegWrite32 offset value.toNat
  .ok { regs with word := Function.update regs.word offset value }

def fetchAndOr32 (regs : Registers) (offset : Nat) (value : UInt32) : Exec Registers := do
  let old ← regs.read32 offset
  regs.write32 offset (old ||| value)

end Registers

/-- The driver's state, with its request at `req`, and the registers as it leaves them.
What `virtq_init` writes to registers of the queue is left to the device. -/
def VirtioBlkState.new (regs : Registers) (req : Nat) (reqFits : req + reqSize ≤ 2 ^ 32) :
    Exec (VirtioBlkState × Registers) := do
  let magic ← regs.read32 virtioRegMagic
  assertThat (magic == 0x74726976) "virtio: invalid magic value"
  let version ← regs.read32 virtioRegVersion
  assertThat (version == 1) "virtio: invalid version"
  let deviceId ← regs.read32 virtioRegDeviceId
  assertThat (deviceId == virtioDeviceBlk) "virtio: invalid version"
  let regs ← regs.write32 virtioRegDeviceStatus 0
  let regs ← regs.fetchAndOr32 virtioRegDeviceStatus virtioStatusAck
  let regs ← regs.fetchAndOr32 virtioRegDeviceStatus virtioStatusDriver
  let regs ← regs.fetchAndOr32 virtioRegDeviceStatus virtioStatusFeatOk
  let vq := virtqInit 0
  let regs ← regs.write32 virtioRegDeviceStatus virtioStatusDriverOk
  let sectors ← regs.read64 (virtioRegDeviceConfig + 0)
  let capacity ← mulWithin 64 sectors.toNat blockSize
  .ok (⟨capacity, req, vq, reqFits⟩, regs)

def World.virtioBlkInit (world : World) (regs : Registers) (req : Nat)
    (reqFits : req + reqSize ≤ 2 ^ 32) : Exec (World × Registers) := do
  let (blk, regs) ← VirtioBlkState.new regs req reqFits
  .ok ({ world with blk := some blk, mem := world.mem.store req (List.replicate reqSize 0) }, regs)

namespace Registers

structure IsBlockDevice (regs : Registers) : Prop where
  magic : regs.word virtioRegMagic = 0x74726976
  version : regs.word virtioRegVersion = 1
  deviceId : regs.word virtioRegDeviceId = virtioDeviceBlk

def sectors (regs : Registers) : UInt64 := regs.doubleWord virtioRegDeviceConfig

variable {regs : Registers} {offset : Nat}

theorem read32_ok (regs : Registers) (aligned : (virtioBlkPaddr + offset) % 4 = 0) :
    regs.read32 offset = .ok (regs.word offset) := by
  rw [read32, decide_eq_true aligned]
  rfl

theorem write32_ok (regs : Registers) (value : UInt32)
    (aligned : (virtioBlkPaddr + offset) % 4 = 0) :
    regs.write32 offset value =
      .ok { regs with word := Function.update regs.word offset value } := by
  rw [write32, virtioRegWrite32, decide_eq_true aligned]
  rfl

theorem fetchAndOr32_ok (regs : Registers) (value : UInt32)
    (aligned : (virtioBlkPaddr + offset) % 4 = 0) :
    regs.fetchAndOr32 offset value =
      .ok { regs with word := Function.update regs.word offset (regs.word offset ||| value) } := by
  rw [fetchAndOr32, read32_ok regs aligned, Exec.ok_bind, write32_ok regs _ aligned]

theorem read64_ok (regs : Registers) (aligned : (virtioBlkPaddr + offset) % 8 = 0) :
    regs.read64 offset = .ok (regs.doubleWord offset) := by
  rw [read64, decide_eq_true aligned]
  rfl

end Registers

/-- A block device is started with the status DRIVER_OK alone, if its capacity in bytes
fits in 64 bits. -/
theorem VirtioBlkState.new_ok {regs : Registers} (device : regs.IsBlockDevice) {req : Nat}
    (reqFits : req + reqSize ≤ 2 ^ 32) :
    VirtioBlkState.new regs req reqFits =
      (mulWithin 64 regs.sectors.toNat blockSize >>= fun capacity =>
        .ok (⟨capacity, req, virtqInit 0, reqFits⟩,
          { regs with
            word := Function.update regs.word virtioRegDeviceStatus virtioStatusDriverOk })) := by
  have word : ∀ offset ∈ [virtioRegMagic, virtioRegVersion, virtioRegDeviceId,
      virtioRegDeviceStatus], (virtioBlkPaddr + offset) % 4 = 0 := by decide
  have checked : ∀ message, assertThat true message = .ok () := fun _ => rfl
  rw [VirtioBlkState.new, regs.read32_ok (word _ (by simp)), Exec.ok_bind, device.magic,
    beq_self_eq_true, checked, Exec.ok_bind, regs.read32_ok (word _ (by simp)), Exec.ok_bind,
    device.version, beq_self_eq_true, checked, Exec.ok_bind, regs.read32_ok (word _ (by simp)),
    Exec.ok_bind, device.deviceId, beq_self_eq_true, checked, Exec.ok_bind,
    regs.write32_ok _ (word _ (by simp)), Exec.ok_bind,
    Registers.fetchAndOr32_ok _ _ (word _ (by simp)), Exec.ok_bind,
    Registers.fetchAndOr32_ok _ _ (word _ (by simp)), Exec.ok_bind,
    Registers.fetchAndOr32_ok _ _ (word _ (by simp)), Exec.ok_bind]
  dsimp only
  rw [Registers.write32_ok _ _ (word _ (by simp)), Exec.ok_bind,
    Registers.read64_ok _ (by decide), Exec.ok_bind]
  simp only [Function.update_idem]
  rfl

/-- `block_count` gives a count up to which both calls take every block, and beyond which
they take none; only the largest count may stand for more. -/
def World.CountAgrees (world : World) : Prop :=
  ∃ n, world.blockCount = some n ∧
    (∀ call reply, BlkCall.block call < n →
      ∃ after served, world.serve (call, reply) = .ok (after, served) ∧
        served.result ≠ .error .sectorOutOfRange) ∧
    (n ≠ 2 ^ 32 - 1 → ∀ call reply, n ≤ BlkCall.block call →
      ∃ after served, world.serve (call, reply) = .ok (after, served) ∧
        served.result = .error .sectorOutOfRange)

def World.CountsBlocks (world : World) (regs : Registers) (req : Nat)
    (reqFits : req + reqSize ≤ 2 ^ 32) : Prop :=
  ∃ started left, world.virtioBlkInit regs req reqFits = .ok (started, left) ∧
    ∀ calls after history, calls.length + 1 < 2 ^ 16 →
      Runs.run World.serve started calls = .ok (after, history) → after.CountAgrees

section Count

variable {world : World} {blocks count : Nat} {contents : Nat → Block}

theorem Holds.blockCount (holds : Holds world blocks count contents) :
    world.blockCount = some (blocks % 2 ^ 32) := by
  rcases holds with ⟨⟨blk, present, rfl, _⟩, _⟩
  rw [World.blockCount, present]
  rfl

theorem answered_ne_outOfRange (status : UInt8) : answered status ≠ .error .sectorOutOfRange := by
  unfold answered
  split
  · exact nofun
  · exact nofun

theorem Holds.accepts (holds : Holds world blocks count contents) (few : count + 1 < 2 ^ 16)
    {call : BlkCall} (inside : call.block < blocks) (reply : Reply) :
    ∃ after served, world.serve (call, reply) = .ok (after, served) ∧
      served.result ≠ .error .sectorOutOfRange := by
  rcases serve_inside holds few inside reply with ⟨after, served, _⟩
  refine ⟨after, _, served, ?_⟩
  rw [arrayServe_result, arrayResult_inside blocks reply.status inside]
  exact answered_ne_outOfRange reply.status

theorem Holds.refuses (holds : Holds world blocks count contents) {call : BlkCall}
    (outside : blocks ≤ call.block) (reply : Reply) :
    ∃ after served, world.serve (call, reply) = .ok (after, served) ∧
      served.result = .error .sectorOutOfRange :=
  ⟨world, _, serve_outside holds outside reply,
    (arrayServe_result ..).trans (arrayResult_outside blocks reply.status outside)⟩

theorem Holds.countAgrees_iff (holds : Holds world blocks count contents)
    (few : count + 1 < 2 ^ 16) :
    world.CountAgrees ↔ blocks < 2 ^ 32 ∨ blocks % 2 ^ 32 = 2 ^ 32 - 1 := by
  constructor
  · intro agrees
    rcases agrees with ⟨n, counted, _, refused⟩
    rw [holds.blockCount] at counted
    cases counted
    by_contra wrong
    rw [not_or, Nat.not_lt] at wrong
    have small : blocks % 2 ^ 32 < 2 ^ 32 := Nat.mod_lt _ (by decide)
    have block : (BlkCall.read 0xFFFFFFFF (filledBlock 0)).block = 2 ^ 32 - 1 := rfl
    have past : blocks % 2 ^ 32 ≤ (BlkCall.read 0xFFFFFFFF (filledBlock 0)).block := by omega
    have inside : (BlkCall.read 0xFFFFFFFF (filledBlock 0)).block < blocks := by omega
    rcases refused wrong.2 _ ⟨0, 0, []⟩ past with ⟨_, _, ended, refusal⟩
    rcases holds.accepts few inside ⟨0, 0, []⟩ with ⟨_, _, served, accepted⟩
    rw [ended] at served
    cases served
    exact accepted refusal
  · intro condition
    refine ⟨_, holds.blockCount, ?_, ?_⟩
    · intro call reply inside
      exact holds.accepts few (Nat.lt_of_lt_of_le inside (Nat.mod_le _ _)) reply
    · intro notLast call reply outside
      have exact := condition.resolve_right notLast
      rw [Nat.mod_eq_of_lt exact] at outside
      exact holds.refuses outside reply

theorem virtioBlkInit_overflow {regs : Registers} (device : regs.IsBlockDevice) (world : World)
    {req : Nat} (reqFits : req + reqSize ≤ 2 ^ 32)
    (wraps : 2 ^ 64 ≤ regs.sectors.toNat * blockSize) :
    world.virtioBlkInit regs req reqFits = .error .overflow := by
  rw [World.virtioBlkInit, VirtioBlkState.new_ok device, mulWithin_overflow wraps]
  rfl

theorem virtioBlkInit_holds {regs : Registers} (device : regs.IsBlockDevice) (world : World)
    {req : Nat} (reqFits : req + reqSize ≤ 2 ^ 32)
    (fits : regs.sectors.toNat * blockSize < 2 ^ 64) :
    ∃ started left, world.virtioBlkInit regs req reqFits = .ok (started, left) ∧
      Holds started regs.sectors.toNat 0 (diskBlock world.disk) := by
  refine ⟨⟨some ⟨regs.sectors.toNat * blockSize, req, virtqInit 0, reqFits⟩,
    world.mem.store req (List.replicate reqSize 0), world.disk⟩,
    { regs with word := Function.update regs.word virtioRegDeviceStatus virtioStatusDriverOk },
    ?_, ?_⟩
  · rw [World.virtioBlkInit, VirtioBlkState.new_ok device, mulWithin_ok fits]
    rfl
  · exact ⟨⟨_, rfl, Nat.mul_div_cancel _ (by decide), 0, Nat.le_refl 0, rfl, rfl, rfl⟩,
      fun _ => rfl⟩

/-- Block count and range check agree exactly on the devices whose capacity in bytes fits
in 64 bits and whose blocks fit in 32; or the cut count happens to be the largest one. -/
theorem block_count_agrees_iff {regs : Registers} (device : regs.IsBlockDevice) (world : World)
    {req : Nat} (reqFits : req + reqSize ≤ 2 ^ 32) :
    world.CountsBlocks regs req reqFits ↔
      regs.sectors.toNat * 512 < 2 ^ 64 ∧
        (regs.sectors.toNat < 2 ^ 32 ∨ regs.sectors.toNat % 2 ^ 32 = 2 ^ 32 - 1) := by
  constructor
  · intro counts
    rcases counts with ⟨started, left, initialised, agrees⟩
    have fits : regs.sectors.toNat * 512 < 2 ^ 64 := by
      by_contra wraps
      rw [virtioBlkInit_overflow device world reqFits (Nat.not_lt.mp wraps)] at initialised
      cases initialised
    rcases virtioBlkInit_holds device world reqFits fits with ⟨other, _, same, holds⟩
    rw [initialised] at same
    cases same
    exact ⟨fits, (holds.countAgrees_iff (by decide)).mp (agrees [] started [] (by decide) rfl)⟩
  · intro condition
    rcases condition with ⟨fits, counted⟩
    rcases virtioBlkInit_holds device world reqFits fits with ⟨started, left, initialised, holds⟩
    refine ⟨started, left, initialised, ?_⟩
    intro calls after history few finished
    rcases run_serve_ok holds calls (Nat.lt_of_succ_lt few) with ⟨last, _, reached, holds⟩
    rw [finished] at reached
    cases reached
    exact (holds.countAgrees_iff few).mpr counted

end Count

def blockDevice (sectors : UInt64) : Registers where
  word offset := if offset = 0 then 0x74726976 else if offset = 4 then 1 else 2
  doubleWord _ := sectors

theorem blockDevice_isBlockDevice (sectors : UInt64) : (blockDevice sectors).IsBlockDevice :=
  ⟨rfl, rfl, rfl⟩

theorem block_count_agrees_disk_image :
    emptyWorld.CountsBlocks (blockDevice 32768) 4096 (by decide) :=
  (block_count_agrees_iff (blockDevice_isBlockDevice 32768) emptyWorld (by decide)).mpr
    (by decide)

/-- A device of two terabytes: the count is 0, and every block is served. -/
theorem block_count_of_two_terabytes :
    (∃ started left, emptyWorld.virtioBlkInit (blockDevice 0x100000000) 4096 (by decide) =
      .ok (started, left) ∧ started.blockCount = some 0) ∧
      ¬ emptyWorld.CountsBlocks (blockDevice 0x100000000) 4096 (by decide) := by
  have device := blockDevice_isBlockDevice 0x100000000
  obtain ⟨started, left, initialised, holds⟩ :=
    virtioBlkInit_holds device emptyWorld (by decide : 4096 + reqSize ≤ 2 ^ 32) (by decide)
  refine ⟨⟨started, left, initialised, holds.blockCount⟩, ?_⟩
  intro counts
  rcases counts with ⟨other, _, same, agrees⟩
  rw [initialised] at same
  cases same
  exact absurd ((holds.countAgrees_iff (by decide)).mp (agrees [] started [] (by decide) rfl))
    (by decide)

end Ease
