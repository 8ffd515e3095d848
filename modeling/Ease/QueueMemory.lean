import Ease.Fields
import Ease.VirtioInit
import Ease.BumpAllocator

/-! The virtqueue as the bytes that the driver and the device share: the layout of
`VirtioVirtq`, the driver's functions on it, and where the device looks for it. -/

namespace Ease

inductive QueueField where
  | descAddr (i : Fin 16)
  | descLen (i : Fin 16)
  | descFlags (i : Fin 16)
  | descNext (i : Fin 16)
  | availFlags
  | availIndex
  | availRing (i : Fin 16)
  | usedFlags
  | usedIndex
  | usedId (i : Fin 16)
  | usedLen (i : Fin 16)
  | queueIndex
  | usedPointer
  | lastUsedIndex
  deriving DecidableEq

namespace QueueField

/-- The parts are packed, and the used ring begins on a page of its own. -/
def offset : QueueField → Nat
  | descAddr i => 16 * i
  | descLen i => 16 * i + 8
  | descFlags i => 16 * i + 12
  | descNext i => 16 * i + 14
  | availFlags => 256
  | availIndex => 258
  | availRing i => 260 + 2 * i
  | usedFlags => 4096
  | usedIndex => 4098
  | usedId i => 4100 + 8 * i
  | usedLen i => 4104 + 8 * i
  | queueIndex => 8192
  | usedPointer => 8196
  | lastUsedIndex => 8200

def width : QueueField → Nat
  | descAddr _ => 8
  | descLen _ | usedId _ | usedLen _ | usedPointer => 4
  | descFlags _ | descNext _ | availFlags | availIndex | availRing _ | usedFlags | usedIndex
  | queueIndex | lastUsedIndex => 2

theorem inside (field : QueueField) : field.offset + field.width ≤ 12288 := by
  cases field <;> simp only [offset, width] <;> omega

theorem apart (field other : QueueField) (different : field ≠ other) :
    field.offset + field.width ≤ other.offset ∨ other.offset + other.width ≤ field.offset := by
  cases field <;> cases other <;> simp only [ne_eq, descAddr.injEq, descLen.injEq, descFlags.injEq,
    descNext.injEq, availRing.injEq, usedId.injEq, usedLen.injEq, not_true_eq_false, Fin.ext_iff,
    offset, width] at different ⊢ <;> omega

end QueueField

def queueFields : Fields QueueField where
  offset := QueueField.offset
  width := QueueField.width
  size := 12288
  inside := QueueField.inside
  apart := QueueField.apart

def queueOf (numbers : QueueField → Nat) : VirtioVirtq where
  descs i := ⟨numbers (.descAddr i), numbers (.descLen i), numbers (.descFlags i),
    numbers (.descNext i)⟩
  avail := ⟨numbers .availIndex, fun i => numbers (.availRing i)⟩
  used := ⟨numbers .usedIndex⟩
  queueIndex := numbers .queueIndex
  lastUsedIndex := numbers .lastUsedIndex

def virtioRegQueueSel : Nat := 0x30

def virtioRegQueueNum : Nat := 0x38

def virtioRegQueueAlign : Nat := 0x3c

def virtioRegQueuePfn : Nat := 0x40

namespace Bare

theorem page_isPowerOfTwo : Nat.isPowerOfTwo 4096 := ⟨12, rfl⟩

def queueLayout : Layout := ⟨12288, 4096, page_isPowerOfTwo⟩

structure Queued where
  heap : BumpAllocator
  regs : Registers
  mem : Memory
  queue : Nat

def virtqInit (heap : BumpAllocator) (regs : Registers) (mem : Memory) (index : Nat) :
    Exec Queued := do
  let (heap, queue) ← heap.alloc queueLayout
  assertThat (queue != 0) "memory allocation of 12288 bytes failed"
  let mem := mem.store queue (List.replicate 12288 0)
  let mem := queueFields.write mem queue .queueIndex (index % 2 ^ 16)
  let mem := queueFields.write mem queue .usedPointer (queue + QueueField.usedIndex.offset)
  let regs ← regs.write32 virtioRegQueueSel (UInt32.ofNat index)
  let regs ← regs.write32 virtioRegQueueNum (UInt32.ofNat virtqEntryNum)
  let regs ← regs.write32 virtioRegQueueAlign 4096
  let regs ← regs.write32 virtioRegQueuePfn (UInt32.ofNat queue)
  .ok ⟨heap, regs, mem, queue⟩

section Driver

variable (mem : Memory) (queue : Nat)

def writeDesc (index : Nat) (desc : VirtqDesc) : Exec Memory :=
  if inside : index < virtqEntryNum then
    let mem := queueFields.write mem queue (.descAddr ⟨index, inside⟩) desc.addr
    let mem := queueFields.write mem queue (.descLen ⟨index, inside⟩) desc.len
    let mem := queueFields.write mem queue (.descFlags ⟨index, inside⟩) desc.flags
    .ok (queueFields.write mem queue (.descNext ⟨index, inside⟩) desc.next)
  else .error .outOfBounds

def writeRing (index : Nat) (head : Nat) : Exec Memory :=
  if inside : index < virtqEntryNum then
    .ok (queueFields.write mem queue (.availRing ⟨index, inside⟩) head)
  else .error .outOfBounds

def virtqKick (descIndex : Nat) : Exec Memory := do
  let index := queueFields.read mem queue .availIndex % virtqEntryNum
  let mem ← writeRing mem queue index descIndex
  let availIndex ← addWithin 16 (queueFields.read mem queue .availIndex) 1
  let mem := queueFields.write mem queue .availIndex availIndex
  virtioRegWrite32 virtioRegQueueNotify (queueFields.read mem queue .queueIndex)
  let lastUsedIndex ← addWithin 16 (queueFields.read mem queue .lastUsedIndex) 1
  .ok (queueFields.write mem queue .lastUsedIndex lastUsedIndex)

/-- The device's counter is read through the pointer that `virtq_init` stored. -/
def virtqIsBusy : Exec Bool := do
  let usedIndex := queueFields.read mem queue .usedPointer
  assertThat (decide (usedIndex % 2 = 0)) "assertion `left == right` failed"
  .ok (queueFields.read mem queue .lastUsedIndex != decodeLE (mem.load usedIndex 2))

end Driver

end Bare

namespace Device

structure Vring where
  num : Nat
  desc : Nat
  avail : Nat
  used : Nat
  deriving DecidableEq

/-- A queue of the legacy interface lies in one piece from its page on: the descriptors,
the available ring, and the used ring at the next multiple of the alignment. -/
def vring (regs : Registers) (pageSize : Nat) : Vring :=
  let num := (regs.word virtioRegQueueNum).toNat
  let desc := (regs.word virtioRegQueuePfn).toNat * pageSize
  let avail := desc + 16 * num
  let used := Rounding.roundUp (avail + 4 + 2 * num) (regs.word virtioRegQueueAlign).toNat
  ⟨num, desc, avail, used⟩

section Bytes

variable (mem : Memory) (vring : Vring)

def fetchDesc (index : Nat) : VirtqDesc :=
  let addr := vring.desc + 16 * index
  ⟨decodeLE (mem.load addr 8), decodeLE (mem.load (addr + 8) 4), decodeLE (mem.load (addr + 12) 2),
    decodeLE (mem.load (addr + 14) 2)⟩

def fetchChain : Nat → Nat → Option (List VirtqDesc)
  | 0, _ => none
  | fuel + 1, index =>
      if index < vring.num then
        let desc := fetchDesc mem vring index
        if desc.flags &&& virtqDescFNext ≠ 0 then (fetchChain fuel desc.next).map (desc :: ·)
        else some [desc]
      else none

def writableBytes (descs : List VirtqDesc) : Nat :=
  ((descs.filter writable).map VirtqDesc.len).sum

def serveQueue (disk : Memory) (reply : Reply) : Exec (Memory × Memory) := do
  let slot := (decodeLE (mem.load (vring.avail + 2) 2) + (vring.num - 1)) % vring.num
  let head := decodeLE (mem.load (vring.avail + 4 + 2 * slot) 2)
  match fetchChain mem vring vring.num head with
  | none => .error .unmodelled
  | some descs => do
      let served ← perform ⟨.zeroed, mem, disk⟩ reply descs
      let count := decodeLE (served.mem.load (vring.used + 2) 2)
      let place := vring.used + 4 + 8 * (count % vring.num)
      let mem := served.mem.store place (encodeLE 4 head)
      let mem := mem.store (place + 4) (encodeLE 4 (writableBytes descs))
      .ok (mem.store (vring.used + 2) (encodeLE 2 ((count + 1) % 2 ^ 16)), served.disk)

end Bytes

end Device

end Ease
