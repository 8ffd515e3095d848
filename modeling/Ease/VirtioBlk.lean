import Ease.ByteMemory
import Ease.VirtQueue

/-! The block device driver, the device that it talks to, and the memory between
them. -/

namespace Ease

def blockSize : Nat := 512

abbrev Block := { bytes : List UInt8 // bytes.length = blockSize }

def virtioBlkTIn : Nat := 0

def virtioBlkTOut : Nat := 1

def sectorOffset : Nat := 8

def dataOffset : Nat := 16

def statusOffset : Nat := 528

def reqSize : Nat := 529

/-- The request lies in memory at `req`; `capacity` is in bytes. -/
structure VirtioBlkState where
  capacity : Nat
  req : Nat
  vq : VirtioVirtq
  reqFits : req + reqSize ≤ 2 ^ 32

inductive VirtioBlkError where
  | notInitialized
  | sectorOutOfRange
  | deviceError (status : UInt8)
  deriving DecidableEq, Repr

inductive BlkOp where
  | read
  | write
  deriving DecidableEq, Repr

/-- How the device answers a request: how often the driver polls before the answer is
there, the status, and what a failed read leaves in the data buffer. -/
structure Reply where
  polls : Nat
  status : UInt8
  leftover : List UInt8

/-- The queue, the memory that both sides see, and the disk as one row of bytes. -/
structure Machine where
  vq : VirtioVirtq
  mem : Memory
  disk : Memory

namespace Device

def chain (descs : Slots VirtqDesc 16) : Nat → Nat → Option (List VirtqDesc)
  | 0, _ => none
  | fuel + 1, index =>
      if inside : index < 16 then
        let desc := descs ⟨index, inside⟩
        if desc.flags &&& virtqDescFNext ≠ 0 then (chain descs fuel desc.next).map (desc :: ·)
        else some [desc]
      else none

def writable (desc : VirtqDesc) : Bool := desc.flags &&& virtqDescFWrite != 0

def transferOut (machine : Machine) (reply : Reply) (sector : Nat) (data status : VirtqDesc) :
    Machine :=
  { machine with
    mem := machine.mem.store status.addr [reply.status]
    disk :=
      if reply.status = 0 then
        machine.disk.store (sector * blockSize) (machine.mem.load data.addr data.len)
      else machine.disk }

def transferIn (machine : Machine) (reply : Reply) (sector : Nat) (data status : VirtqDesc) :
    Machine :=
  let bytes :=
    if reply.status = 0 then machine.disk.load (sector * blockSize) data.len
    else reply.leftover.take data.len
  { machine with mem := (machine.mem.store data.addr bytes).store status.addr [reply.status] }

/-- The request of a chain of header, data and status, with the directions that its
type asks for. Nothing is assumed about a device that gets anything else. -/
def perform (machine : Machine) (reply : Reply) : List VirtqDesc → Exec Machine
  | [header, data, status] =>
      let type := decodeLE (machine.mem.load header.addr 4)
      let sector := decodeLE (machine.mem.load (header.addr + sectorOffset) 8)
      if !writable header && header.len == 16 && writable status && status.len == 1 then
        if type = virtioBlkTOut ∧ !writable data then
          .ok (transferOut machine reply sector data status)
        else if type = virtioBlkTIn ∧ writable data then
          .ok (transferIn machine reply sector data status)
        else .error .unmodelled
      else .error .unmodelled
  | _ => .error .unmodelled

/-- What a notification sets off: the head is in slot `avail.index - 1` modulo 16, and
`used.index` counts the request when it is done. -/
def complete (machine : Machine) (reply : Reply) : Exec Machine :=
  let slot : Fin 16 := ⟨(machine.vq.avail.index + 15) % 16, Nat.mod_lt _ (by decide)⟩
  match chain machine.vq.descs 16 (machine.vq.avail.ring slot) with
  | none => .error .unmodelled
  | some descs => do
      let machine ← perform machine reply descs
      .ok { machine with vq.used.index := (machine.vq.used.index + 1) % 2 ^ 16 }

end Device

/-- The wait for a request under way. The polls before the answer see the counter as it
was; a driver that went on before the answer, or waits after it, is not served. -/
def waitIdle (machine : Machine) (reply : Reply) : Nat → Exec Machine
  | 0 => do
      let machine ← Device.complete machine reply
      if virtqIsBusy machine.vq then .error .diverges else .ok machine
  | polls + 1 =>
      if virtqIsBusy machine.vq then waitIdle machine reply polls else .error .unmodelled

def virtioQueue (machine : Machine) (reply : Reply) (blkReqAddr flags : Nat) : Exec Machine := do
  let descs ← machine.vq.descs.write 0 ⟨blkReqAddr, 16, virtqDescFNext, 1⟩
  let dataAddr ← usizeAdd blkReqAddr dataOffset
  let descs ← descs.write 1 ⟨dataAddr, blockSize, (virtqDescFNext ||| flags) % 2 ^ 16, 2⟩
  let statusAddr ← usizeAdd blkReqAddr statusOffset
  let descs ← descs.write 2 ⟨statusAddr, 1, virtqDescFWrite, 0⟩
  let vq ← virtqKick { machine.vq with descs } 0
  waitIdle { machine with vq } reply reply.polls

structure World where
  blk : Option VirtioBlkState
  mem : Memory
  disk : Memory

def fillRequest (mem : Memory) (req sector : Nat) (op : BlkOp) (data : Block) : Memory × Nat :=
  let mem := mem.store (req + sectorOffset) (encodeLE 8 sector)
  match op with
  | .write =>
      ((mem.store req (encodeLE 4 virtioBlkTOut)).store (req + dataOffset) data.val, 0)
  | .read => (mem.store req (encodeLE 4 virtioBlkTIn), virtqDescFWrite)

namespace World

abbrev Outcome := World × Block × Except VirtioBlkError Unit

def diskOp (world : World) (reply : Reply) (sector : Nat) (op : BlkOp) (data : Block) :
    Exec Outcome :=
  match world.blk with
  | none => .ok (world, data, .error .notInitialized)
  | some blk =>
      if blk.capacity / blockSize ≤ sector then .ok (world, data, .error .sectorOutOfRange)
      else do
        let (mem, flags) := fillRequest world.mem blk.req sector op data
        let machine ← virtioQueue ⟨blk.vq, mem, world.disk⟩ reply blk.req flags
        let world : World := ⟨some { blk with vq := machine.vq }, machine.mem, machine.disk⟩
        let status := machine.mem (blk.req + statusOffset)
        if status ≠ 0 then .ok (world, data, .error (.deviceError status))
        else
          match op with
          | .read =>
              .ok (world, ⟨machine.mem.load (blk.req + dataOffset) blockSize,
                Memory.load_length _ _ _⟩, .ok ())
          | .write => .ok (world, data, .ok ())

def readBlock (world : World) (reply : Reply) (block : UInt32) (buf : Block) : Exec Outcome :=
  world.diskOp reply block.toNat .read buf

def writeBlock (world : World) (reply : Reply) (block : UInt32) (buf : Block) : Exec Outcome := do
  let (world, _, result) ← world.diskOp reply block.toNat .write buf
  .ok (world, buf, result)

def blockCount (world : World) : Option Nat :=
  world.blk.map fun blk => blk.capacity / blockSize % 2 ^ 32

end World

end Ease
