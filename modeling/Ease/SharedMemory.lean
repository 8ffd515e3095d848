import Ease.BareRefinement
import Ease.HeapBounds
import Ease.Ramfb

/-! The block device and the frame buffer in one memory, from the start of the kernel on:
whatever the order of their calls, each does what it would do alone. -/

namespace Ease

open Exec (Lockstep)

def InRequest (req a : Nat) : Prop := Memory.Within req reqSize a

section Frame

variable {req : Nat} {machine after : Machine} {reply : Reply} {op : BlkOp}

theorem virtqKick_kicked {vq vq' : VirtioVirtq} {head : Nat} (kick : virtqKick vq head = .ok vq') :
    vq' = kicked vq head := by
  have inside : vq.avail.index % virtqEntryNum < 16 := Nat.mod_lt _ (by decide)
  have notified : virtioRegWrite32 virtioRegQueueNotify vq.queueIndex = .ok () := rfl
  rw [virtqKick, Slots.write_ok _ _ inside, Exec.ok_bind] at kick
  rcases Exec.bind_eq_ok.mp kick with ⟨availIndex, added, kick⟩
  rw [notified, Exec.ok_bind] at kick
  rcases Exec.bind_eq_ok.mp kick with ⟨lastUsedIndex, increased, kick⟩
  cases kick
  rw [addWithin_eq added, addWithin_eq increased]
  rfl

theorem requestDescs_inside (req : Nat) (op : BlkOp) :
    ∀ desc ∈ requestDescs req (flagsOf op), ∀ offset < desc.len,
      InRequest req (desc.addr + offset) := by
  have sizes : dataOffset = 16 ∧ statusOffset = 528 ∧ reqSize = 529 ∧ blockSize = 512 :=
    ⟨rfl, rfl, rfl, rfl⟩
  intro desc member offset below
  simp only [requestDescs, List.mem_cons, List.not_mem_nil, or_false] at member
  rcases member with rfl | rfl | rfl
  all_goals
    dsimp only at below ⊢
    exact ⟨by omega, by omega⟩

theorem complete_frame (found : pending machine.vq = some (requestDescs req (flagsOf op)))
    (ran : Device.complete machine reply = .ok after) :
    Memory.SameOn (fun a => ¬ InRequest req a) machine.mem after.mem := by
  have chained : Device.chain machine.vq.descs 16 (machine.vq.avail.ring
      ⟨(machine.vq.avail.index + 15) % 16, Nat.mod_lt _ (by decide)⟩) = pending machine.vq := rfl
  rw [Device.complete, chained, found] at ran
  rcases Exec.bind_eq_ok.mp ran with ⟨middle, performed, done⟩
  cases done
  have lockstep := @Device.perform_lockstep (InRequest req) machine machine.mem machine.vq reply
    (Memory.SameOn.refl _ _) _ (requestDescs_inside req op)
  rw [performed] at lockstep
  rcases lockstep.of_ok with ⟨bare, same, served⟩
  cases same
  exact served.kept

theorem waitIdle_frame (found : pending machine.vq = some (requestDescs req (flagsOf op)))
    {polls : Nat} (ran : waitIdle machine reply polls = .ok after) :
    Memory.SameOn (fun a => ¬ InRequest req a) machine.mem after.mem := by
  induction polls with
  | zero =>
      rw [waitIdle] at ran
      rcases Exec.bind_eq_ok.mp ran with ⟨middle, completed, ended⟩
      split at ended
      · cases ended
      · cases ended
        exact complete_frame found completed
  | succ polls ih =>
      rw [waitIdle] at ran
      split at ran
      · exact ih ran
      · cases ran

theorem virtioQueue_frame (ran : virtioQueue machine reply req (flagsOf op) = .ok after) :
    Memory.SameOn (fun a => ¬ InRequest req a) machine.mem after.mem := by
  rw [virtioQueue, Slots.write_ok _ _ (by decide), Exec.ok_bind] at ran
  rcases Exec.bind_eq_ok.mp ran with ⟨dataAddr, dataSum, ran⟩
  obtain rfl := addWithin_eq dataSum
  rw [Slots.write_ok _ _ (by decide), Exec.ok_bind] at ran
  rcases Exec.bind_eq_ok.mp ran with ⟨statusAddr, statusSum, ran⟩
  obtain rfl := addWithin_eq statusSum
  rw [Slots.write_ok _ _ (by decide), Exec.ok_bind] at ran
  rcases Exec.bind_eq_ok.mp ran with ⟨vq, kick, ran⟩
  obtain rfl := virtqKick_kicked kick
  apply @waitIdle_frame req _ after reply op _ _ ran
  exact pending_kicked machine.vq req op

theorem fillRequest_frame (mem : Memory) (req sector : Nat) (op : BlkOp) (data : Block) :
    Memory.SameOn (fun a => ¬ InRequest req a) mem (fillRequest mem req sector op data).1 := by
  have sizes : sectorOffset = 8 ∧ dataOffset = 16 ∧ reqSize = 529 ∧ blockSize = 512 :=
    ⟨rfl, rfl, rfl, rfl⟩
  have apart : ∀ (mem : Memory) offset (bytes : List UInt8), offset + bytes.length ≤ 529 →
      Memory.SameOn (fun a => ¬ InRequest req a) mem (mem.store (req + offset) bytes) := by
    intro mem offset bytes short
    apply Memory.SameOn.store_apart
    intro other below outside
    exact outside ⟨by omega, by omega⟩
  have typed := apart (mem.store (req + sectorOffset) (encodeLE 8 sector)) 0
  cases op with
  | read =>
      apply (apart mem sectorOffset (encodeLE 8 sector) (by rw [encodeLE_length]; omega)).trans
      exact typed (encodeLE 4 virtioBlkTIn) (by rw [encodeLE_length]; omega)
  | write =>
      apply (apart mem sectorOffset (encodeLE 8 sector) (by rw [encodeLE_length]; omega)).trans
      apply (typed (encodeLE 4 virtioBlkTOut) (by rw [encodeLE_length]; omega)).trans
      exact apart _ dataOffset data.val (by rw [data.property]; omega)

theorem diskOp_frame {world after : World} {blk : VirtioBlkState} {sector : Nat} {data : Block}
    {answer : Block × Except VirtioBlkError Unit} (present : world.blk = some blk)
    (ran : world.diskOp reply sector op data = .ok (after, answer)) :
    Memory.SameOn (fun a => ¬ InRequest blk.req a) world.mem after.mem := by
  rw [World.diskOp, present] at ran
  dsimp only at ran
  split at ran
  · cases ran
    exact Memory.SameOn.refl _ _
  · rcases Exec.bind_eq_ok.mp ran with ⟨machine, queued, ended⟩
    rw [fillRequest_flags] at queued
    have kept := (fillRequest_frame world.mem blk.req sector op data).trans
      (virtioQueue_frame queued)
    split at ended
    · cases ended
      exact kept
    · cases op with
      | read =>
          cases ended
          exact kept
      | write =>
          cases ended
          exact kept

theorem serve_frame {world after : World} {blk : VirtioBlkState} {served : Served}
    {request : BlkCall × Reply} (present : world.blk = some blk)
    (ran : world.serve request = .ok (after, served)) :
    Memory.SameOn (fun a => ¬ InRequest blk.req a) world.mem after.mem := by
  rcases request with ⟨call, reply⟩
  cases call with
  | read block buf =>
      rcases Exec.bind_eq_ok.mp ran with ⟨⟨next, answer⟩, done, ended⟩
      cases ended
      exact diskOp_frame present done
  | write block data =>
      rcases Exec.bind_eq_ok.mp ran with ⟨⟨next, answer⟩, done, ended⟩
      cases ended
      rcases Exec.bind_eq_ok.mp done with ⟨⟨other, reading⟩, written, same⟩
      cases same
      exact diskOp_frame present written

end Frame

namespace BareWorld

variable {world after : BareWorld} {reply : Reply}

theorem diskOp_blk {sector : Nat} {op : BlkOp} {data : Block}
    {answer : Block × Except VirtioBlkError Unit}
    (ran : world.diskOp reply sector op data = .ok (after, answer)) : after.blk = world.blk := by
  rw [diskOp] at ran
  split at ran
  · cases ran
    rfl
  · split at ran
    · cases ran
      rfl
    · rcases Exec.bind_eq_ok.mp ran with ⟨⟨mem, disk⟩, queued, ended⟩
      dsimp only at ended
      split at ended
      · cases ended
        rfl
      · cases op with
        | read =>
            cases ended
            rfl
        | write =>
            cases ended
            rfl

theorem serve_blk {request : BlkCall × Reply} {served : Served}
    (ran : world.serve request = .ok (after, served)) : after.blk = world.blk := by
  rcases request with ⟨call, reply⟩
  cases call with
  | read block buf =>
      rcases Exec.bind_eq_ok.mp ran with ⟨⟨next, answer⟩, done, ended⟩
      cases ended
      exact diskOp_blk done
  | write block data =>
      rcases Exec.bind_eq_ok.mp ran with ⟨⟨next, answer⟩, done, ended⟩
      cases ended
      rcases Exec.bind_eq_ok.mp done with ⟨⟨other, reading⟩, written, same⟩
      cases same
      exact diskOp_blk written

end BareWorld

/-- What the kernel does to the memory that it shares with its devices: a request to the
disk, a call that draws, or a store of other code. -/
inductive SharedCall where
  | disk (call : BlkCall) (reply : Reply)
  | screen (op : ScreenOp)
  | other (addr : Nat) (bytes : List UInt8)

namespace SharedCall

def requests : SharedCall → Nat
  | disk _ _ => 1
  | screen _ | other _ _ => 0

/-- Other code stores neither in the queue nor in the frame buffer. -/
def Apart (queue : Nat) : SharedCall → Prop
  | disk _ _ | screen _ => True
  | other addr bytes =>
      ∀ offset < bytes.length, Outside queue (addr + offset) ∧ ¬ Bare.buffer.InArray (addr + offset)

end SharedCall

def BareWorld.share (world : BareWorld) : SharedCall → Exec (BareWorld × Option Served)
  | .disk call reply => do
      let (world, served) ← world.serve (call, reply)
      .ok (world, some served)
  | .screen op => do
      let mem ← op.store world.mem
      .ok ({ world with mem }, none)
  | .other addr bytes => .ok ({ world with mem := world.mem.store addr bytes }, none)

/-- An array of blocks beside a frame buffer, with nothing in common. -/
structure DiskAndScreen where
  contents : Nat → Block
  fb : FrameBuffer

def DiskAndScreen.share (blocks : Nat) (devices : DiskAndScreen) :
    SharedCall → Exec (DiskAndScreen × Option Served)
  | .disk call reply =>
      let served := arrayServe blocks devices.contents reply.status call
      .ok ({ devices with contents := arrayAfter devices.contents served }, some served)
  | .screen op => do
      let fb ← op.draw devices.fb
      .ok ({ devices with fb }, none)
  | .other _ _ => .ok (devices, none)

/-- The memory holds the queue of a driver at rest over these blocks, after at most `count`
requests, and the pixels. -/
structure Shares (blocks queue req count : Nat) (bare : BareWorld) (devices : DiskAndScreen) :
    Prop where
  disk : ∃ world, Refines world bare ∧ Holds world blocks count devices.contents
  placed : ∃ capacity, bare.blk = some ⟨capacity, req, queue⟩
  fb : Bare.buffer.view bare.mem = devices.fb.pixels

structure BufferApart (queue req : Nat) : Prop where
  queue : ∀ a, Bare.buffer.InArray a → Outside queue a
  request : ∀ a, Bare.buffer.InArray a → ¬ InRequest req a

section Sharing

open Exec (Lockstep)

variable {blocks queue req count : Nat} {bare : BareWorld} {devices : DiskAndScreen}

/-- A driver at rest does not see what happens outside of its queue. -/
theorem Refines.elsewhere {world : World} {capacity : Nat} {mem : Memory}
    (refines : Refines world bare)
    (placed : bare.blk = some ⟨capacity, req, queue⟩)
    (kept : Memory.SameOn (InQueue queue) bare.mem mem) :
    Refines { world with mem := mem } { bare with mem := mem } := by
  rcases refines with ⟨blk, other, present, barePresent, wired,
    ⟨⟨numbers, at_queue, pointer, vq⟩, disk⟩⟩
  obtain rfl : other = queue := by
    rw [placed] at barePresent
    cases barePresent
    rfl
  refine ⟨blk, other, present, barePresent, ⟨wired.page, wired.apart, wired.rings⟩,
    ⟨⟨numbers, ⟨?_, Memory.SameOn.refl _ _⟩, pointer, vq⟩, disk⟩⟩
  rw [← at_queue.read]
  exact (queueFields.read_congr kept).symm

theorem Refines.memory {world : World} {capacity : Nat} (refines : Refines world bare)
    (placed : bare.blk = some ⟨capacity, req, queue⟩) :
    ∃ blk, world.blk = some blk ∧ blk.req = req ∧
      Memory.SameOn (Outside queue) world.mem bare.mem := by
  rcases refines with ⟨blk, other, present, barePresent, _, ⟨⟨numbers, at_queue, _⟩, _⟩⟩
  rw [placed] at barePresent
  cases barePresent
  exact ⟨blk, present, rfl, at_queue.same⟩

theorem Shares.elsewhere (shares : Shares blocks queue req count bare devices) {mem : Memory}
    {fb : FrameBuffer} (kept : Memory.SameOn (InQueue queue) bare.mem mem)
    (drawn : Bare.buffer.view mem = fb.pixels) :
    Shares blocks queue req count { bare with mem := mem } { devices with fb := fb } := by
  rcases shares with ⟨⟨world, refines, holds⟩, ⟨capacity, placed⟩, _⟩
  exact ⟨⟨_, refines.elsewhere placed kept, ⟨holds.present, holds.stored⟩⟩,
    ⟨capacity, placed⟩, drawn⟩

theorem Shares.contents (shares : Shares blocks queue req count bare devices) :
    diskBlock bare.disk = devices.contents := by
  rcases shares.disk with ⟨world, refines, holds⟩
  funext block
  rw [refines.disk, holds.stored]

theorem Shares.shown (shares : Shares blocks queue req count bare devices) {screen : FwCfg}
    (configured : screen.config = some FrameBuffer.config) :
    devices.fb.ShownBy screen bare.mem := by
  have framed : Framed bare.mem bare.mem devices.fb := ⟨shares.fb, Memory.SameOn.refl _ _⟩
  exact framed.shown configured

theorem Shares.diskCall (shares : Shares blocks queue req count bare devices)
    (apart : BufferApart queue req) (few : count + 1 < 2 ^ 16) (call : BlkCall) (reply : Reply) :
    Runs.Agree (Shares blocks queue req (count + 1)) (bare.share (.disk call reply))
      (devices.share blocks (.disk call reply)) := by
  rcases shares with ⟨⟨world, refines, holds⟩, ⟨capacity, placed⟩, fb⟩
  rcases serve_ok holds few call reply with ⟨after, ran, left, _⟩
  have lockstep := refines.serve (call, reply)
  rw [ran] at lockstep
  rcases lockstep.of_ok with ⟨⟨bareAfter, served⟩, bareRan, refinesAfter, answer⟩
  obtain rfl : _ = served := answer
  have stays := BareWorld.serve_blk bareRan
  rw [BareWorld.share, bareRan]
  refine .ok _ ⟨⟨after, refinesAfter, left⟩, ⟨capacity, stays.trans placed⟩, ?_⟩
  rw [← fb]
  apply RawArray.view_congr
  intro a pixel
  have outside := apart.queue a pixel
  rcases refines.memory placed with ⟨blk, present, rfl, before⟩
  rcases refinesAfter.memory (stays.trans placed) with ⟨_, _, _, behind⟩
  calc bareAfter.mem a = after.mem a := (behind a outside).symm
    _ = world.mem a := (serve_frame present ran a (apart.request a pixel)).symm
    _ = bare.mem a := before a outside

theorem Shares.screenCall (shares : Shares blocks queue req count bare devices)
    (apart : BufferApart queue req) (op : ScreenOp) :
    Runs.Agree (Shares blocks queue req count) (bare.share (.screen op))
      (devices.share blocks (.screen op)) := by
  have framed : Framed bare.mem bare.mem devices.fb := ⟨shares.fb, Memory.SameOn.refl _ _⟩
  have lockstep := framed.store op
  rw [BareWorld.share, DiskAndScreen.share]
  revert lockstep
  generalize op.store bare.mem = stored
  generalize op.draw devices.fb = drawn
  intro lockstep
  cases lockstep with
  | error fault => exact .error fault
  | @ok mem fb painted =>
      refine .ok none (shares.elsewhere ?_ painted.view)
      intro a inside
      exact painted.same a fun pixel => apart.queue a pixel inside

theorem Shares.otherStore (shares : Shares blocks queue req count bare devices) {addr : Nat}
    {bytes : List UInt8} (allowed : (SharedCall.other addr bytes).Apart queue) :
    Runs.Agree (Shares blocks queue req count) (bare.share (.other addr bytes))
      (devices.share blocks (.other addr bytes)) := by
  have keepsQueue := Memory.SameOn.store_apart (InQueue queue) bare.mem
    fun offset below => (allowed offset below).1
  have keepsPixels := Memory.SameOn.store_apart Bare.buffer.InArray bare.mem
    fun offset below => (allowed offset below).2
  refine .ok none (shares.elsewhere keepsQueue ?_)
  rw [← shares.fb]
  exact RawArray.view_congr keepsPixels.symm

theorem Shares.call (shares : Shares blocks queue req count bare devices)
    (apart : BufferApart queue req) {call : SharedCall} (allowed : call.Apart queue)
    (few : count + call.requests < 2 ^ 16) :
    Runs.Agree (Shares blocks queue req (count + call.requests)) (bare.share call)
      (devices.share blocks call) := by
  cases call with
  | disk call reply => exact shares.diskCall apart few call reply
  | screen op => exact shares.screenCall apart op
  | other addr bytes => exact shares.otherStore allowed

theorem Shares.run (shares : Shares blocks queue req count bare devices)
    (apart : BufferApart queue req) {calls : List SharedCall}
    (allowed : ∀ call ∈ calls, call.Apart queue)
    (few : count + Runs.total SharedCall.requests calls < 2 ^ 16) :
    Runs.Agree (Shares blocks queue req (count + Runs.total SharedCall.requests calls))
      (Runs.run BareWorld.share bare calls) (Runs.run (DiskAndScreen.share blocks) devices calls) :=
  Runs.run_agree_below BareWorld.share
    (fun _ _ _ _ shares allowed few => shares.call apart allowed few) shares allowed few

end Sharing

/-- Where the linker script has heap and statics, and the stack the local variables of
`FrameBuffer::init`. -/
structure KernelPlaced (heapStart heapEnd req : Nat) (locals : FrameBuffer.Locals) : Prop where
  heap : HeapPlaced heapStart heapEnd
  request : req + reqSize ≤ heapStart
  config : heapEnd ≤ locals.config ∧ locals.config + configFields.size ≤ 0x80100000
  dma : heapEnd ≤ locals.dma ∧ locals.dma + dmaFields.size ≤ 0x80100000

/-- The queue is what the kernel allocates first. -/
def kernelQueue (heapStart heapEnd : Nat) : Nat :=
  queuePage (BumpAllocator.new.init heapStart heapEnd)

/-- What `kernel_init` does to the memory before it attaches the console. -/
def BareWorld.kernelInit (world : BareWorld) (device : FwCfg) (heapStart heapEnd req : Nat)
    (locals : FrameBuffer.Locals) (polls : Nat) : Exec (BareWorld × FwCfg) := do
  let (world, _) ← world.virtioBlkInit (BumpAllocator.new.init heapStart heapEnd) req
  let (device, mem) ← FrameBuffer.init device world.mem FrameBuffer.fbAddr locals polls
  .ok ({ world with mem }, device)

section Kernel

variable {heapStart heapEnd req : Nat} {locals : FrameBuffer.Locals}

theorem KernelPlaced.room (placed : KernelPlaced heapStart heapEnd req locals) :
    QueueRoom (BumpAllocator.new.init heapStart heapEnd) req := by
  have size := placed.heap.size
  have top := placed.heap.top
  constructor
  · exact placed.request
  · have near := Rounding.roundUp_lt heapStart (by decide : 0 < 4096)
    have started : (BumpAllocator.new.init heapStart heapEnd).next = heapStart := rfl
    have ended : (BumpAllocator.new.init heapStart heapEnd).heapEnd = heapEnd := rfl
    rw [started, ended]
    omega
  · exact top.trans_lt (by decide)

theorem KernelPlaced.queue_below (placed : KernelPlaced heapStart heapEnd req locals) :
    kernelQueue heapStart heapEnd + 12288 ≤ heapEnd := placed.room.room

theorem KernelPlaced.bufferApart (placed : KernelPlaced heapStart heapEnd req locals) :
    BufferApart (kernelQueue heapStart heapEnd) req := by
  have below := placed.queue_below
  have size := placed.heap.size
  have top := placed.heap.top
  have request := placed.request
  have start : ∀ a, Bare.buffer.InArray a → 0x80200000 ≤ a := fun a pixel => pixel.1
  constructor
  · intro a pixel inside
    have above := start a pixel
    have limit := inside.2
    omega
  · intro a pixel inside
    have above := start a pixel
    have limit := inside.2
    omega

theorem KernelPlaced.locals_apart (placed : KernelPlaced heapStart heapEnd req locals) {a : Nat}
    (apart : a < heapEnd ∨ 0x80100000 ≤ a) : locals.Elsewhere a := by
  have config := placed.config
  have dma := placed.dma
  constructor
  · intro inside
    rcases inside with ⟨above, below⟩
    omega
  · intro inside
    rcases inside with ⟨above, below⟩
    omega

theorem KernelPlaced.diskStart (placed : KernelPlaced heapStart heapEnd req locals)
    {regs : Registers} (device : regs.IsBlockDevice)
    (fits : regs.sectors.toNat * blockSize < 2 ^ 64) (mem disk : Memory) :
    ∃ started, BareWorld.virtioBlkInit ⟨none, regs, 1, mem, disk⟩
        (BumpAllocator.new.init heapStart heapEnd) req = .ok started ∧
      Shares regs.sectors.toNat (kernelQueue heapStart heapEnd) req 0 started.1
        ⟨diskBlock disk, ⟨Bare.buffer.view mem⟩⟩ := by
  have size := placed.heap.size
  have top := placed.heap.top
  have request := placed.request
  have reqFits : req + reqSize ≤ 2 ^ 32 := by omega
  obtain ⟨first, left, initialised, holds⟩ :=
    virtioBlkInit_holds device ⟨none, mem, disk⟩ reqFits fits
  have lockstep := virtioBlkInit_lockstep placed.room ⟨none, mem, disk⟩ regs reqFits
  rw [initialised] at lockstep
  obtain ⟨started, bareStarted, refines⟩ := lockstep.of_ok
  have blk : ∃ capacity, started.1.blk = some ⟨capacity, req, kernelQueue heapStart heapEnd⟩ := by
    rcases Exec.bind_eq_ok.mp bareStarted with ⟨start, created, ended⟩
    cases ended
    have alike := new_lockstep placed.room regs mem reqFits
    rw [created] at alike
    revert alike
    generalize VirtioBlkState.new regs req reqFits = record
    intro alike
    cases alike with
    | ok related => exact ⟨_, congrArg some related.blk⟩
  have cleared : Memory.SameOn Bare.buffer.InArray mem first.mem := by
    rcases Exec.bind_eq_ok.mp initialised with ⟨⟨state, registers⟩, _, ended⟩
    cases ended
    apply Memory.SameOn.store_apart
    intro offset below pixel
    rw [List.length_replicate] at below
    exact placed.bufferApart.request _ pixel ⟨Nat.le_add_right _ _, Nat.add_lt_add_left below _⟩
  refine ⟨started, bareStarted, ⟨first, refines, holds⟩, blk, ?_⟩
  rcases blk with ⟨capacity, at_queue⟩
  rcases refines.memory at_queue with ⟨_, _, _, outside⟩
  have untouched := cleared.trans (outside.mono placed.bufferApart.queue)
  exact (RawArray.view_congr untouched).symm

theorem KernelPlaced.kernelInit (placed : KernelPlaced heapStart heapEnd req locals)
    {regs : Registers} (device : regs.IsBlockDevice)
    (fits : regs.sectors.toNat * blockSize < 2 ^ 64) {fwCfg : FwCfg}
    (selected : fwCfg.ramfb = FrameBuffer.ramfbSelector) (mem disk : Memory) (polls : Nat) :
    ∃ started screen,
      BareWorld.kernelInit ⟨none, regs, 1, mem, disk⟩ fwCfg heapStart heapEnd req locals polls =
        .ok (started, screen) ∧ screen.config = some FrameBuffer.config ∧
      Shares regs.sectors.toNat (kernelQueue heapStart heapEnd) req 0 started
        ⟨diskBlock disk, ⟨Bare.buffer.view mem⟩⟩ := by
  obtain ⟨⟨ready, heap⟩, diskStarted, shares⟩ := placed.diskStart device fits mem disk
  obtain ⟨screen, stored, configured, elsewhere, screenStarted⟩ :=
    init_eq fwCfg ready.mem locals polls
  rw [if_pos selected] at screenStarted
  have below := placed.queue_below
  have keepsQueue : Memory.SameOn (InQueue (kernelQueue heapStart heapEnd)) ready.mem stored := by
    apply elsewhere.mono
    intro a inside
    exact placed.locals_apart (.inl (inside.2.trans_le below))
  have keepsPixels : Memory.SameOn Bare.buffer.InArray ready.mem stored := by
    apply elsewhere.mono
    intro a pixel
    exact placed.locals_apart (.inr (Nat.le_trans (by decide) pixel.1))
  refine ⟨{ ready with mem := stored }, screen, ?_, configured, ?_⟩
  · rw [BareWorld.kernelInit, diskStarted, Exec.ok_bind]
    dsimp only
    rw [screenStarted]
    rfl
  · exact shares.elsewhere keepsQueue ((RawArray.view_congr keepsPixels.symm).trans shares.fb)

/-- From the start of the kernel on, over fewer than 65536 requests to the disk and any
calls that draw, in any order and among stores of other code: the disk is an array of
blocks and the screen shows the frame buffer, each as if it had the memory for itself. -/
theorem devices_share_memory (placed : KernelPlaced heapStart heapEnd req locals)
    {regs : Registers} (device : regs.IsBlockDevice)
    (fits : regs.sectors.toNat * blockSize < 2 ^ 64) {fwCfg : FwCfg}
    (selected : fwCfg.ramfb = FrameBuffer.ramfbSelector) (mem disk : Memory) (polls : Nat) :
    ∃ started screen,
      BareWorld.kernelInit ⟨none, regs, 1, mem, disk⟩ fwCfg heapStart heapEnd req locals polls =
        .ok (started, screen) ∧
      ∀ calls : List SharedCall,
        (∀ call ∈ calls, call.Apart (kernelQueue heapStart heapEnd)) →
        Runs.total SharedCall.requests calls < 2 ^ 16 →
        Runs.Agree
          (fun bare devices => diskBlock bare.disk = devices.contents ∧
            devices.fb.ShownBy screen bare.mem)
          (Runs.run BareWorld.share started calls)
          (Runs.run (DiskAndScreen.share regs.sectors.toNat)
            ⟨diskBlock disk, ⟨Bare.buffer.view mem⟩⟩ calls) := by
  obtain ⟨started, screen, initialised, configured, shares⟩ :=
    placed.kernelInit device fits selected mem disk polls
  refine ⟨started, screen, initialised, ?_⟩
  intro calls allowed few
  have run := shares.run placed.bufferApart allowed (by rwa [Nat.zero_add])
  apply run.mono
  intro bare devices final
  exact ⟨final.contents, final.shown configured⟩

end Kernel

def firstLocals : FrameBuffer.Locals where
  config := 0x800ff000
  dma := 0x800ff020
  apart := by decide
  configFits := by decide
  dmaFits := by decide

theorem kernelPlaced_first : KernelPlaced 0x80020010 0x80030010 0x80010000 firstLocals :=
  ⟨⟨by decide, by decide, by decide⟩, by decide, by decide, by decide⟩

theorem devices_share_memory_first :
    ∃ started screen,
      BareWorld.kernelInit ⟨none, blockDevice 2, 1, emptyWorld.mem, emptyWorld.disk⟩ ⟨0x25, 0, none⟩
        0x80020010 0x80030010 0x80010000 firstLocals 3 = .ok (started, screen) ∧
      ∀ calls : List SharedCall,
        (∀ call ∈ calls, call.Apart (kernelQueue 0x80020010 0x80030010)) →
        Runs.total SharedCall.requests calls < 2 ^ 16 →
        Runs.Agree
          (fun bare devices => diskBlock bare.disk = devices.contents ∧
            devices.fb.ShownBy screen bare.mem)
          (Runs.run BareWorld.share started calls)
          (Runs.run (DiskAndScreen.share (blockDevice 2).sectors.toNat)
            ⟨diskBlock emptyWorld.disk, ⟨Bare.buffer.view emptyWorld.mem⟩⟩ calls) :=
  devices_share_memory kernelPlaced_first (blockDevice_isBlockDevice 2) (by decide) rfl
    emptyWorld.mem emptyWorld.disk 3

end Ease
