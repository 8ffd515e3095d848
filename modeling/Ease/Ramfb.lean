import Ease.BareScreen

/-! The start of the frame buffer: the configuration that the driver sends to the device by
DMA, and the picture that the device then shows out of the memory. -/

namespace Ease

inductive ConfigField where
  | addr
  | fourcc
  | flags
  | width
  | height
  | stride
  deriving DecidableEq

namespace ConfigField

def offset : ConfigField → Nat
  | addr => 0
  | fourcc => 8
  | flags => 12
  | width => 16
  | height => 20
  | stride => 24

def bytes : ConfigField → Nat
  | addr => 8
  | fourcc | flags | width | height | stride => 4

theorem inside (field : ConfigField) : field.offset + field.bytes ≤ 28 := by
  cases field <;> decide

theorem apart (field other : ConfigField) (different : field ≠ other) :
    field.offset + field.bytes ≤ other.offset ∨ other.offset + other.bytes ≤ field.offset := by
  revert different
  cases field <;> cases other <;> decide

end ConfigField

def configFields : Fields ConfigField where
  offset := ConfigField.offset
  width := ConfigField.bytes
  size := 28
  inside := ConfigField.inside
  apart := ConfigField.apart

inductive DmaField where
  | control
  | length
  | address
  deriving DecidableEq

namespace DmaField

def offset : DmaField → Nat
  | control => 0
  | length => 4
  | address => 8

def bytes : DmaField → Nat
  | control | length => 4
  | address => 8

theorem inside (field : DmaField) : field.offset + field.bytes ≤ 16 := by
  cases field <;> decide

theorem apart (field other : DmaField) (different : field ≠ other) :
    field.offset + field.bytes ≤ other.offset ∨ other.offset + other.bytes ≤ field.offset := by
  revert different
  cases field <;> cases other <;> decide

end DmaField

def dmaFields : Fields DmaField where
  offset := DmaField.offset
  width := DmaField.bytes
  size := 16
  inside := DmaField.inside
  apart := DmaField.apart

structure RamfbConfig where
  addr : Nat
  fourcc : Nat
  flags : Nat
  width : Nat
  height : Nat
  stride : Nat
  deriving DecidableEq, Repr

/-- The firmware configuration device. `ramfb` is its key for the frame buffer's file, the
one that can be written; `dmaHigh` is the half of an address that came first. -/
structure FwCfg where
  ramfb : Nat
  dmaHigh : Nat
  config : Option RamfbConfig

namespace FwCfg

def dmaSelect : Nat := 0x08

def dmaWrite : Nat := 0x10

def dmaError : Nat := 0x01

def readConfig (mem : Memory) (addr : Nat) : RamfbConfig :=
  let number := configFields.readBE mem addr
  ⟨number .addr, number .fourcc, number .flags, number .width, number .height, number .stride⟩

def transfer (device : FwCfg) (mem : Memory) (dma : Nat) : Exec (FwCfg × Memory) :=
  let number := dmaFields.readBE mem dma
  if number .control % 2 ^ 16 = dmaSelect ||| dmaWrite then
    if number .control / 2 ^ 16 = device.ramfb ∧ number .length = configFields.size then
      .ok ({ device with config := some (readConfig mem (number .address)) },
        dmaFields.writeBE mem dma .control 0)
    else .ok (device, dmaFields.writeBE mem dma .control dmaError)
  else .error .unmodelled

/-- A write to the first half of its address register, and what a write to the second half
makes of the two. The register is big-endian. -/
def writeHigh (device : FwCfg) (value : Nat) : FwCfg := { device with dmaHigh := swapBytes 4 value }

def addressOf (device : FwCfg) (value : Nat) : Nat := device.dmaHigh * 2 ^ 32 + swapBytes 4 value

def scan (device : FwCfg) (mem : Memory) (x y : Nat) : Option UInt32 :=
  device.config.map fun config =>
    Codec.word.decode (mem.load (config.addr + y * config.stride + 4 * x) 4)

end FwCfg

namespace FrameBuffer

def stride : Nat := width * 4

def ramfbSelector : Nat := 0x25

def fourccXr24 : Nat := 0x34325258

/-- The local variables of `init`, where they come to lie on the stack. -/
structure Locals where
  config : Nat
  dma : Nat
  apart : dma + dmaFields.size ≤ config ∨ config + configFields.size ≤ dma
  configFits : config + configFields.size ≤ 2 ^ 32
  dmaFits : dma + dmaFields.size ≤ 2 ^ 32

namespace Locals

def InConfig (locals : Locals) (a : Nat) : Prop := Memory.Within locals.config configFields.size a

def InDma (locals : Locals) (a : Nat) : Prop := Memory.Within locals.dma dmaFields.size a

def Elsewhere (locals : Locals) (a : Nat) : Prop := ¬ locals.InConfig a ∧ ¬ locals.InDma a

end Locals

/-- Reads of the control field until it is zero; the device makes the transfer after so
many of them. -/
def waitTransfer (device : FwCfg) (mem : Memory) (dma : Nat) : Nat → Exec (FwCfg × Memory)
  | 0 => do
      let (device, mem) ← device.transfer mem dma
      if dmaFields.read mem dma .control ≠ 0 then .error .diverges else .ok (device, mem)
  | polls + 1 =>
      if dmaFields.read mem dma .control ≠ 0 then waitTransfer device mem dma polls
      else .error .unmodelled

def dmaAccess (config : Nat) : List (DmaField × Nat) :=
  [(.control, FwCfg.dmaSelect ||| FwCfg.dmaWrite ||| ramfbSelector <<< 16),
    (.length, configFields.size), (.address, config)]

def ramfbConfig : List (ConfigField × Nat) :=
  [(.addr, fbAddr), (.fourcc, fourccXr24), (.flags, 0), (.width, width), (.height, height),
    (.stride, stride)]

def writeFwCfgDma (device : FwCfg) (mem : Memory) (config dma polls : Nat) :
    Exec (FwCfg × Memory) :=
  let mem := dmaFields.storeBE mem dma (dmaAccess config)
  -- The halves of the descriptor's address in big-endian order; the low one starts the transfer.
  let device := device.writeHigh (swapBytes 4 ((dma >>> 32) % 2 ^ 32))
  waitTransfer device mem (device.addressOf (swapBytes 4 (dma % 2 ^ 32))) polls

/-- `symbol` is the address that the linker gives to `__fb_addr`. -/
def init (device : FwCfg) (mem : Memory) (symbol : Nat) (locals : Locals) (polls : Nat) :
    Exec (FwCfg × Memory) := do
  assertThat (fbAddr == symbol) "assertion `left == right` failed"
  let mem := configFields.storeBE mem locals.config ramfbConfig
  writeFwCfgDma device mem locals.config locals.dma polls

def config : RamfbConfig := ⟨fbAddr, fourccXr24, 0, width, height, stride⟩

/-- The device shows these pixels out of the memory. -/
def ShownBy (fb : FrameBuffer) (device : FwCfg) (mem : Memory) : Prop :=
  ∀ x y, device.scan mem x.val y.val = some (fb.pixel x y)

end FrameBuffer

section

open FrameBuffer

variable {device : FwCfg} {mem : Memory} {locals : Locals}

theorem addressOf_dma (device : FwCfg) (locals : Locals) :
    (device.writeHigh (swapBytes 4 ((locals.dma >>> 32) % 2 ^ 32))).addressOf
      (swapBytes 4 (locals.dma % 2 ^ 32)) = locals.dma := by
  have small : locals.dma < 2 ^ 32 := by
    have fits := locals.dmaFits
    have size : dmaFields.size = 16 := rfl
    omega
  have high : (locals.dma >>> 32) % 2 ^ 32 = 0 := by
    rw [Nat.shiftRight_eq_div_pow, Nat.div_eq_of_lt small]
    rfl
  have low : swapBytes 4 (swapBytes 4 locals.dma) = locals.dma := swapBytes_swapBytes small
  have zero : swapBytes 4 (swapBytes 4 0) = 0 := swapBytes_swapBytes (by decide)
  rw [FwCfg.addressOf, FwCfg.writeHigh, high, Nat.mod_eq_of_lt small, low]
  dsimp only
  rw [zero, Nat.zero_mul, Nat.zero_add]

theorem waitTransfer_eq {after : FwCfg} {mem' : Memory} {dma : Nat}
    (waiting : dmaFields.read mem dma .control ≠ 0)
    (transferred : device.transfer mem dma = .ok (after, mem')) (polls : Nat) :
    waitTransfer device mem dma polls =
      if dmaFields.read mem' dma .control ≠ 0 then .error .diverges else .ok (after, mem') := by
  induction polls with
  | zero => rw [waitTransfer, transferred, Exec.ok_bind]
  | succ polls ih => rw [waitTransfer, if_pos waiting, ih]

theorem dmaAccess_fit (locals : Locals) :
    ∀ entry ∈ dmaAccess locals.config, entry.2 < 256 ^ dmaFields.width entry.1 := by
  have fits : locals.config < 256 ^ 8 := by
    have limit := locals.configFits
    omega
  intro entry member
  rcases List.mem_cons.mp member with rfl | member
  · decide
  rcases List.mem_cons.mp member with rfl | member
  · decide
  rw [List.mem_singleton.mp member]
  exact fits

/-- The device finds the request in the descriptor, and the configuration where it says. -/
theorem transfer_request (device : FwCfg) {locals : Locals} {mem : Memory}
    (configured : FwCfg.readConfig mem locals.config = config) :
    let mem := dmaFields.storeBE mem locals.dma (dmaAccess locals.config)
    dmaFields.read mem locals.dma .control ≠ 0 ∧
      device.transfer mem locals.dma =
        if device.ramfb = ramfbSelector then
          .ok ({ device with config := some config }, dmaFields.writeBE mem locals.dma .control 0)
        else .ok (device, dmaFields.writeBE mem locals.dma .control FwCfg.dmaError) := by
  intro request
  have numbers := dmaFields.readBE_storeBE mem locals.dma _ (dmaAccess_fit locals)
  have control : dmaFields.readBE request locals.dma .control = 0x250018 := by
    rw [numbers]
    rfl
  have length : dmaFields.readBE request locals.dma .length = configFields.size := by
    rw [numbers]
    rfl
  have address : dmaFields.readBE request locals.dma .address = locals.config := by
    rw [numbers]
    rfl
  have unchanged : Memory.SameOn locals.InConfig mem request := by
    intro a inside
    apply dmaFields.storeBE_same mem locals.dma _ a
    intro within
    have apart := locals.apart
    rcases inside with ⟨low, high⟩
    rcases within with ⟨above, below⟩
    omega
  have same : FwCfg.readConfig request locals.config = config := by
    rw [← configured, FwCfg.readConfig, FwCfg.readConfig, configFields.readBE_congr unchanged]
  constructor
  · intro zero
    rw [Fields.readBE, zero] at control
    revert control
    decide
  · rw [FwCfg.transfer, control, length, address, same, if_pos (by decide)]
    by_cases selected : device.ramfb = ramfbSelector
    · rw [if_pos selected, if_pos ⟨by rw [selected]; rfl, rfl⟩]
    · rw [if_neg selected, if_neg]
      intro both
      exact selected both.1.symm

theorem ramfbConfig_read (mem : Memory) (base : Nat) :
    FwCfg.readConfig (configFields.storeBE mem base ramfbConfig) base = config := by
  have fits : ∀ entry ∈ ramfbConfig, entry.2 < 256 ^ configFields.width entry.1 := by decide
  rw [FwCfg.readConfig, configFields.readBE_storeBE mem base _ fits]
  rfl

theorem init_eq (device : FwCfg) (mem : Memory) (locals : Locals) (polls : Nat) :
    ∃ after stored, after.config = some config ∧ Memory.SameOn locals.Elsewhere mem stored ∧
      init device mem fbAddr locals polls =
        if device.ramfb = ramfbSelector then .ok (after, stored) else .error .diverges := by
  have outside := configFields.storeBE_same mem locals.config ramfbConfig
  have requested := dmaFields.storeBE_same (configFields.storeBE mem locals.config ramfbConfig)
    locals.dma (dmaAccess locals.config)
  have addressed := addressOf_dma device locals
  have same : (device.writeHigh (swapBytes 4 ((locals.dma >>> 32) % 2 ^ 32))).ramfb =
      device.ramfb :=
    rfl
  have started : init device mem fbAddr locals polls = writeFwCfgDma device
      (configFields.storeBE mem locals.config ramfbConfig) locals.config locals.dma polls := by
    rw [init, beq_self_eq_true]
    rfl
  rw [started, writeFwCfgDma]
  generalize device.writeHigh (swapBytes 4 ((locals.dma >>> 32) % 2 ^ 32)) = told
    at addressed same ⊢
  rcases transfer_request told (ramfbConfig_read mem locals.config) with ⟨waiting, transferred⟩
  generalize dmaFields.storeBE (configFields.storeBE mem locals.config ramfbConfig) locals.dma
    (dmaAccess locals.config) = request at waiting transferred requested ⊢
  rw [addressed, ← same]
  refine ⟨{ told with config := some config }, dmaFields.writeBE request locals.dma .control 0,
    rfl, ?_, ?_⟩
  · intro a elsewhere
    calc mem a = configFields.storeBE mem locals.config ramfbConfig a := outside a elsewhere.1
      _ = request a := requested a elsewhere.2
      _ = dmaFields.writeBE request locals.dma .control 0 a :=
        dmaFields.write_same request locals.dma .control _ a elsewhere.2
  · by_cases selected : told.ramfb = ramfbSelector
    · rw [if_pos selected] at transferred
      rw [if_pos selected, waitTransfer_eq waiting transferred, if_neg]
      rw [Fields.writeBE, dmaFields.read_write, Function.update_self]
      decide
    · rw [if_neg selected] at transferred
      rw [if_neg selected, waitTransfer_eq waiting transferred, if_pos]
      rw [Fields.writeBE, dmaFields.read_write, Function.update_self]
      decide

theorem Framed.shown {outer : Memory} {fb : FrameBuffer} (framed : Framed outer mem fb)
    (configured : device.config = some config) : fb.ShownBy device mem := by
  intro x y
  have place : fbAddr + y.val * stride + 4 * x.val = fbAddr + 4 * (y.val * width + x.val) := by
    rw [stride, ← Nat.mul_assoc]
    omega
  have pixel : fb.pixel x y =
      Codec.word.decode (mem.load (fbAddr + 4 * (y.val * width + x.val)) 4) := by
    rw [FrameBuffer.pixel, ← framed.view]
    rfl
  rw [FwCfg.scan, configured, Option.map_some, pixel, ← place]
  rfl

/-- The driver's start, and every run of its functions: the device is told of a screen of
this size and shows the pixels of the frame buffer, and nothing else in memory changes. A
device with its file under another key leaves the driver waiting for ever. -/
theorem screen_shows_frame_buffer (device : FwCfg) (mem : Memory) (locals : Locals) (polls : Nat) :
    (device.ramfb = ramfbSelector →
      ∃ after started, init device mem fbAddr locals polls = .ok (after, started) ∧
        after.config = some config ∧ Memory.SameOn locals.Elsewhere mem started ∧
        ∀ ops : List ScreenOp,
          Exec.Lockstep
            (fun drawn fb => FrameBuffer.ShownBy fb after drawn ∧
              Memory.SameOn (fun a => ¬ Bare.buffer.InArray a) started drawn)
            (ops.foldlM ScreenOp.store started)
            (ops.foldlM ScreenOp.draw ⟨Bare.buffer.view started⟩)) ∧
    (device.ramfb ≠ ramfbSelector → init device mem fbAddr locals polls = .error .diverges) := by
  rcases init_eq device mem locals polls with ⟨after, stored, configured, elsewhere, started⟩
  constructor
  · intro selected
    rw [if_pos selected] at started
    refine ⟨after, stored, started, configured, elsewhere, fun ops => ?_⟩
    have framed : Framed stored stored ⟨Bare.buffer.view stored⟩ := RawArray.holds_view _ stored
    exact (framed.stores ops).mono fun drawn fb holds => ⟨holds.shown configured, holds.same⟩
  · intro other
    rw [started, if_neg other]

end

end Ease
