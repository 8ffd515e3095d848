import Ease.BareConsole
import Ease.ConsoleRuns
import Ease.SharedMemory
import Ease.ShellSimulation

/-! The kernel on the bytes of its memory, from `kernel_init` through the loops of the
shell. -/

namespace Ease

open Console (Stored)

theorem Console.stored_blank (outer : Memory) :
    Stored outer false (blank Memory) (blank FrameBuffer) :=
  ⟨rfl, .none, rfl, rfl, rfl, rfl⟩

theorem Console.Stored.attachFb {outer : Memory} {bare : Console Memory} {console : Console}
    (stored : Stored outer false bare console) :
    Stored outer true (bare.attachFb outer) (console.attachFb ⟨Bare.buffer.view outer⟩) :=
  ⟨rfl, .some (RawArray.holds_view _ outer), stored.buffer, stored.cursor, stored.fg, stored.bg⟩

theorem Shell.session_in_memory (font : Font) (mem : Memory) (earlier later : List (List UInt8))
    (readings : List Reading) (ticks : List UInt32) :
    Runs.Agree (SameMachine (Stored mem true)) (session font mem earlier later readings ticks)
      (session font (FrameBuffer.mk (Bare.buffer.view mem)) earlier later readings ticks) := by
  apply session_agrees (Console.stored_simulation font mem false)
  · exact Console.stored_simulation font mem true
  · exact fun _ _ stored => stored.attachFb
  · exact Console.stored_blank mem

/-- The shell on bytes has come to what the shell on pixels has: the device shows its frame
buffer, and the disk's driver is at rest as it was started. -/
structure OnDevices (blocks queue req : Nat) (contents : Nat → Block) (started : BareWorld)
    (screen : FwCfg) (bare : Shell.Machine Memory) (machine : Shell.Machine) : Prop where
  keyboard : bare.keyboard = machine.keyboard
  editor : bare.state.editor = machine.state.editor
  text : bare.state.console.buffer = machine.state.console.buffer
  cursor : bare.state.console.cursor = machine.state.console.cursor
  devices : ∃ mem fb, bare.state.console.fb = some mem ∧ machine.state.console.fb = some fb ∧
    fb.ShownBy screen mem ∧ Shares blocks queue req 0 { started with mem := mem } ⟨contents, fb⟩

theorem Console.Stored.framed {outer : Memory} {bare : Console Memory} {console : Console}
    (stored : Stored outer true bare console) :
    ∃ mem fb, bare.fb = some mem ∧ console.fb = some fb ∧ Framed outer mem fb := by
  rcases bare with ⟨memory, _, _, _, _⟩
  rcases console with ⟨fb, _, _, _, _⟩
  rcases stored with ⟨kept, screen, _, _, _, _⟩
  cases screen with
  | none => cases kept
  | some framed => exact ⟨_, _, rfl, rfl, framed⟩

theorem Shell.SameMachine.onDevices {blocks queue req : Nat} {started : BareWorld}
    {devices : DiskAndScreen} {screen : FwCfg} {bare : Shell.Machine Memory}
    {machine : Shell.Machine} (same : SameMachine (Stored started.mem true) bare machine)
    (shares : Shares blocks queue req 0 started devices) (apart : BufferApart queue req)
    (configured : screen.config = some FrameBuffer.config) :
    OnDevices blocks queue req devices.contents started screen bare machine := by
  have stored := same.state.console
  refine ⟨same.keyboard, same.state.editor, stored.buffer, stored.cursor, ?_⟩
  rcases stored.framed with ⟨mem, fb, drawn, present, framed⟩
  have keepsQueue : Memory.SameOn (InQueue queue) started.mem mem := by
    apply framed.same.mono
    intro a inside pixel
    exact apart.queue a pixel inside
  exact ⟨mem, fb, drawn, present, framed.shown configured,
    shares.elsewhere keepsQueue framed.view⟩

/-- From `kernel_init` on, with any messages, and any bytes on the serial line at any time:
the kernel on its memory goes the way of the shell and the console as values, up to a
fault of theirs. Then the device shows the console's frame buffer, and the disk waits with
its blocks for the next request. -/
theorem kernel_runs_in_memory {heapStart heapEnd req : Nat} {locals : FrameBuffer.Locals}
    (placed : KernelPlaced heapStart heapEnd req locals) {regs : Registers}
    (device : regs.IsBlockDevice) (fits : regs.sectors.toNat * blockSize < 2 ^ 64)
    {fwCfg : FwCfg} (selected : fwCfg.ramfb = FrameBuffer.ramfbSelector) (mem disk : Memory)
    (polls : Nat) (font : Font) :
    ∃ started screen,
      BareWorld.kernelInit ⟨none, regs, 1, mem, disk⟩ fwCfg heapStart heapEnd req locals polls =
        .ok (started, screen) ∧
      ∀ (earlier later : List (List UInt8)) (readings : List Reading) (ticks : List UInt32),
        Runs.Agree
          (OnDevices regs.sectors.toNat (kernelQueue heapStart heapEnd) req (diskBlock disk)
            started screen)
          (Shell.session font started.mem earlier later readings ticks)
          (Shell.session font (FrameBuffer.mk (Bare.buffer.view mem))
            earlier later readings ticks) := by
  obtain ⟨started, screen, initialised, configured, shares⟩ :=
    placed.kernelInit device fits selected mem disk polls
  refine ⟨started, screen, initialised, ?_⟩
  intro earlier later readings ticks
  have pixels : Bare.buffer.view started.mem = Bare.buffer.view mem := shares.fb
  have agrees := Shell.session_in_memory font started.mem earlier later readings ticks
  rw [pixels] at agrees
  apply agrees.mono
  intro bare machine same
  have apart := placed.bufferApart
  have on := same.onDevices shares apart configured
  exact on

theorem kernel_runs_in_memory_first :
    ∃ started screen,
      BareWorld.kernelInit ⟨none, blockDevice 2, 1, emptyWorld.mem, emptyWorld.disk⟩ ⟨0x25, 0, none⟩
        0x80020010 0x80030010 0x80010000 firstLocals 3 = .ok (started, screen) ∧
      ∀ (earlier later : List (List UInt8)) (readings : List Reading) (ticks : List UInt32),
        Runs.Agree
          (OnDevices (blockDevice 2).sectors.toNat (kernelQueue 0x80020010 0x80030010) 0x80010000
            (diskBlock emptyWorld.disk) started screen)
          (Shell.session sampleFont started.mem earlier later readings ticks)
          (Shell.session sampleFont (FrameBuffer.mk (Bare.buffer.view emptyWorld.mem)) earlier
            later readings ticks) :=
  kernel_runs_in_memory kernelPlaced_first (blockDevice_isBlockDevice 2) (by decide) rfl
    emptyWorld.mem emptyWorld.disk 3 sampleFont

end Ease
