import Ease.Fields
import Ease.Lockstep
import Ease.Slots

/-! Arrays in memory: elements of one width, one after the other, and the operations of
slices on them. The array that a memory holds changes as the array of the elements does. -/

namespace Ease

namespace Memory

theorem load_store_part (mem : Memory) (addr : Nat) (front middle back : List UInt8) :
    (mem.store addr (front ++ (middle ++ back))).load (addr + front.length) middle.length =
      middle := by
  apply List.ext_getElem (load_length _ _ _)
  intro offset inside inBytes
  have covered : addr ≤ addr + front.length + offset ∧
      addr + front.length + offset - addr < (front ++ (middle ++ back)).length := by
    simp only [List.length_append]
    omega
  have place : addr + front.length + offset - addr = front.length + offset := by omega
  have within : front.length + offset < (front ++ (middle ++ back)).length := by
    simp only [List.length_append]
    omega
  simp only [load, List.getElem_map, List.getElem_range]
  rw [store, if_pos covered, place, List.getD_eq_getElem _ _ within,
    List.getElem_append_right (by omega), List.getElem_append_left (by omega)]
  congr 1
  omega

theorem load_append (mem : Memory) (addr first second : Nat) :
    mem.load addr (first + second) = mem.load addr first ++ mem.load (addr + first) second := by
  rw [load, List.range_add, List.map_append, List.map_map]
  congr 1
  apply List.map_congr_left
  intro offset _
  rw [Function.comp_apply, Nat.add_assoc]

end Memory

structure Codec (α : Type) where
  width : Nat
  encode : α → List UInt8
  decode : List UInt8 → α
  length : ∀ value, (encode value).length = width
  decode_encode : ∀ value, decode (encode value) = value
  encode_decode : ∀ bytes, bytes.length = width → encode (decode bytes) = bytes

namespace Codec

def word : Codec UInt32 where
  width := 4
  encode value := encodeLE 4 value.toNat
  decode bytes := UInt32.ofNat (decodeLE bytes)
  length _ := encodeLE_length _ _
  decode_encode value := by
    rw [decodeLE_encodeLE value.toNat_lt, UInt32.ofNat_toNat]
  encode_decode bytes size := by
    have small := decodeLE_lt bytes
    have whole := encodeLE_decodeLE bytes
    rw [size] at small whole
    have same : (UInt32.ofNat (decodeLE bytes)).toNat = decodeLE bytes := by
      rw [UInt32.toNat_ofNat']
      exact Nat.mod_eq_of_lt small
    rw [same, whole]

variable {α : Type} (codec : Codec α)

def encodeAll (values : List α) : List UInt8 := values.flatMap codec.encode

theorem encodeAll_cons (value : α) (values : List α) :
    codec.encodeAll (value :: values) = codec.encode value ++ codec.encodeAll values :=
  List.flatMap_cons ..

theorem encodeAll_append (front back : List α) :
    codec.encodeAll (front ++ back) = codec.encodeAll front ++ codec.encodeAll back :=
  List.flatMap_append ..

theorem encodeAll_length (values : List α) :
    (codec.encodeAll values).length = codec.width * values.length := by
  induction values with
  | nil => rfl
  | cons value values ih =>
      rw [encodeAll_cons, List.length_append, codec.length, ih, List.length_cons, Nat.mul_succ,
        Nat.add_comm]

end Codec

/-- `count` elements in memory, the first at `base`. -/
structure RawArray (α : Type) where
  codec : Codec α
  base : Nat
  count : Nat

namespace RawArray

variable {α : Type} (array : RawArray α)

def address (index : Nat) : Nat := array.base + array.codec.width * index

def view (mem : Memory) : Slots α array.count := fun i =>
  array.codec.decode (mem.load (array.address i) array.codec.width)

def InArray (a : Nat) : Prop := Memory.Within array.base (array.codec.width * array.count) a

def write (mem : Memory) (index : Nat) (value : α) : Exec Memory :=
  if index < array.count then .ok (mem.store (array.address index) (array.codec.encode value))
  else .error .outOfBounds

def copyFrom (mem : Memory) (start stop : Nat) (values : List α) : Exec Memory :=
  if start ≤ stop ∧ stop ≤ array.count ∧ values.length = stop - start then
    .ok (mem.store (array.address start) (array.codec.encodeAll values))
  else .error .outOfBounds

def fill (mem : Memory) (start stop : Nat) (value : α) : Exec Memory :=
  if start ≤ stop ∧ stop ≤ array.count then
    .ok (mem.store (array.address start)
      (array.codec.encodeAll (List.replicate (stop - start) value)))
  else .error .outOfBounds

/-- `fill` on the slice of the whole array, which has no bounds to check. -/
def fillAll (mem : Memory) (value : α) : Memory :=
  mem.store (array.address 0) (array.codec.encodeAll (List.replicate array.count value))

/-- All bytes are read before any is written. -/
def copyWithin (mem : Memory) (start stop dest : Nat) : Exec Memory :=
  if start ≤ stop ∧ stop ≤ array.count ∧ dest + (stop - start) ≤ array.count then
    .ok (mem.store (array.address dest)
      (mem.load (array.address start) (array.codec.width * (stop - start))))
  else .error .outOfBounds

/-- The memory holds these elements in the array, and is `outer` elsewhere. -/
structure Holds (outer mem : Memory) (slots : Slots α array.count) : Prop where
  view : array.view mem = slots
  same : Memory.SameOn (fun a => ¬ array.InArray a) outer mem

section

variable {array} {outer mem : Memory} {slots : Slots α array.count} {start stop dest : Nat}
  {values : List α}

theorem holds_view (array : RawArray α) (mem : Memory) : array.Holds mem mem (array.view mem) :=
  ⟨rfl, Memory.SameOn.refl _ _⟩

theorem view_congr {other : Memory} (same : Memory.SameOn array.InArray mem other) :
    array.view mem = array.view other := by
  funext i
  have below := Nat.mul_le_mul_left array.codec.width i.isLt
  rw [Nat.mul_succ] at below
  rw [view, view, same.load]
  intro offset inside
  rw [InArray, Memory.Within, address]
  omega

theorem address_add (first second : Nat) :
    array.address (first + second) = array.address first + array.codec.width * second := by
  rw [address, address, Nat.mul_add, Nat.add_assoc]

theorem address_mono {first second : Nat} (before : first < second) :
    array.address first + array.codec.width ≤ array.address second := by
  have step := Nat.mul_le_mul_left array.codec.width before
  rw [Nat.mul_succ] at step
  rw [address, address]
  omega

theorem view_store (array : RawArray α) (mem : Memory) (start : Nat) (values : List α) :
    array.view (mem.store (array.address start) (array.codec.encodeAll values)) = fun i =>
      if inside : start ≤ i.val ∧ i.val - start < values.length then
        values.get ⟨i.val - start, inside.2⟩
      else array.view mem i := by
  funext i
  by_cases inside : start ≤ i.val ∧ i.val - start < values.length
  · rw [dif_pos inside]
    have parts : values = values.take (i.val - start) ++
        (values[i.val - start] :: values.drop (i.val - start + 1)) := by
      rw [List.getElem_cons_drop, List.take_append_drop]
    have front : (array.codec.encodeAll (values.take (i.val - start))).length =
        array.codec.width * (i.val - start) := by
      rw [Codec.encodeAll_length, List.length_take, Nat.min_eq_left (Nat.le_of_lt inside.2)]
    have place : array.address i = array.address start +
        (array.codec.encodeAll (values.take (i.val - start))).length := by
      rw [front, ← address_add, Nat.add_sub_cancel' inside.1]
    have part := Memory.load_store_part mem (array.address start)
      (array.codec.encodeAll (values.take (i.val - start)))
      (array.codec.encode values[i.val - start])
      (array.codec.encodeAll (values.drop (i.val - start + 1)))
    rw [← Codec.encodeAll_cons, ← Codec.encodeAll_append, ← parts, array.codec.length,
      ← place] at part
    rw [RawArray.view, part, array.codec.decode_encode, List.get_eq_getElem]
  · rw [dif_neg inside, RawArray.view, RawArray.view, Memory.load_store_apart]
    rw [Codec.encodeAll_length]
    rcases Nat.lt_or_ge i.val start with before | behind
    · exact .inl (address_mono before)
    · right
      rw [← address_add, address, address]
      have above : start + values.length ≤ i.val := by omega
      have step := Nat.mul_le_mul_left array.codec.width above
      omega

theorem same_store (array : RawArray α) (mem : Memory) {first : Nat} {bytes : List UInt8}
    {count : Nat} (size : bytes.length = array.codec.width * count)
    (inside : first + count ≤ array.count) :
    Memory.SameOn (fun a => ¬ array.InArray a) mem (mem.store (array.address first) bytes) := by
  apply Memory.SameOn.store_apart
  intro offset below outside
  apply outside
  have limit := Nat.mul_le_mul_left array.codec.width inside
  rw [Nat.mul_add] at limit
  rw [InArray, Memory.Within, address]
  omega

def replaced (slots : Slots α array.count) (start : Nat) (values : List α) :
    Slots α array.count := fun i =>
  if inside : start ≤ i.val ∧ i.val - start < values.length then
    values.get ⟨i.val - start, inside.2⟩
  else slots i

theorem Holds.store (holds : array.Holds outer mem slots) (start : Nat) (values : List α)
    (inside : start + values.length ≤ array.count) :
    array.Holds outer (mem.store (array.address start) (array.codec.encodeAll values))
      (replaced slots start values) := by
  constructor
  · rw [view_store, holds.view]
    rfl
  · exact holds.same.trans (same_store array mem (Codec.encodeAll_length _ _) inside)

theorem Holds.write (holds : array.Holds outer mem slots) (index : Nat) (value : α) :
    Exec.Lockstep (array.Holds outer) (array.write mem index value) (slots.write index value) := by
  rw [RawArray.write, Slots.write]
  by_cases inside : index < array.count
  · have one : array.codec.encode value = array.codec.encodeAll [value] :=
      (List.flatMap_singleton _ _).symm
    have updated : replaced slots index [value] = Function.update slots ⟨index, inside⟩ value := by
      funext i
      rw [replaced, Function.update_apply]
      by_cases here : i = ⟨index, inside⟩
      · have place : i.val = index := congrArg Fin.val here
        rw [if_pos here, dif_pos ⟨by omega, by simp [place]⟩]
        simp
      · have other : i.val ≠ index := fun place => here (Fin.ext place)
        rw [if_neg here, dif_neg (by rw [List.length_singleton]; omega)]
    rw [if_pos inside, dif_pos inside, one, ← updated]
    exact .ok (holds.store index [value] inside)
  · rw [if_neg inside, dif_neg inside]
    exact .error _

theorem Holds.copyFrom (holds : array.Holds outer mem slots) (start stop : Nat) (values : List α) :
    Exec.Lockstep (array.Holds outer) (array.copyFrom mem start stop values)
      (slots.copyFrom start stop values) := by
  apply Exec.Lockstep.ite
  · intro bounds
    exact .ok (holds.store start values (by omega))
  · exact fun _ => .error _

theorem Holds.fill (holds : array.Holds outer mem slots) (start stop : Nat) (value : α) :
    Exec.Lockstep (array.Holds outer) (array.fill mem start stop value)
      (slots.fill start stop value) := by
  apply Exec.Lockstep.ite
  · intro bounds
    have stored := holds.store start (List.replicate (stop - start) value)
      (by rw [List.length_replicate]; omega)
    have filled : replaced slots start (List.replicate (stop - start) value) =
        fun i => if start ≤ i.val ∧ i.val < stop then value else slots i := by
      funext i
      rw [replaced]
      by_cases inside : start ≤ i.val ∧ i.val < stop
      · rw [if_pos inside, dif_pos (by rw [List.length_replicate]; omega)]
        simp
      · rw [if_neg inside, dif_neg (by rw [List.length_replicate]; omega)]
    rw [filled] at stored
    exact .ok stored
  · exact fun _ => .error _

theorem Holds.fillAll (holds : array.Holds outer mem slots) (value : α) :
    array.Holds outer (array.fillAll mem value) fun _ => value := by
  have stored := holds.store 0 (List.replicate array.count value)
    (by rw [List.length_replicate, Nat.zero_add])
  have filled : replaced slots 0 (List.replicate array.count value) = fun _ => value := by
    funext i
    have inside := i.isLt
    rw [replaced, dif_pos (by rw [List.length_replicate]; omega)]
    simp
  rw [filled] at stored
  exact stored

theorem load_elements (array : RawArray α) (mem : Memory) (start count : Nat) :
    mem.load (array.address start) (array.codec.width * count) =
      array.codec.encodeAll ((List.range count).map fun i =>
        array.codec.decode (mem.load (array.address (start + i)) array.codec.width)) := by
  induction count with
  | zero => rfl
  | succ count ih =>
      have last : array.codec.encodeAll
          [array.codec.decode (mem.load (array.address (start + count)) array.codec.width)] =
            mem.load (array.address (start + count)) array.codec.width := by
        rw [Codec.encodeAll, List.flatMap_singleton,
          array.codec.encode_decode _ (Memory.load_length _ _ _)]
      rw [Nat.mul_succ, Memory.load_append, ih, ← address_add, List.range_succ, List.map_append,
        Codec.encodeAll_append, List.map_singleton, last]

theorem Holds.copyWithin (holds : array.Holds outer mem slots) (start stop dest : Nat) :
    Exec.Lockstep (array.Holds outer) (array.copyWithin mem start stop dest)
      (slots.copyWithin start stop dest) := by
  rw [RawArray.copyWithin, Slots.copyWithin]
  by_cases bounds : start ≤ stop ∧ stop ≤ array.count ∧ dest + (stop - start) ≤ array.count
  · rw [if_pos bounds, dif_pos bounds, load_elements]
    have stored := holds.store dest ((List.range (stop - start)).map fun i =>
      array.codec.decode (mem.load (array.address (start + i)) array.codec.width))
      (by rw [List.length_map, List.length_range]; omega)
    have copied : replaced slots dest ((List.range (stop - start)).map fun i =>
        array.codec.decode (mem.load (array.address (start + i)) array.codec.width)) = fun i =>
          if inside : dest ≤ i.val ∧ i.val < dest + (stop - start) then
            slots ⟨start + (i.val - dest), by omega⟩
          else slots i := by
      funext i
      rw [replaced]
      by_cases inside : dest ≤ i.val ∧ i.val < dest + (stop - start)
      · rw [dif_pos inside, dif_pos (by rw [List.length_map, List.length_range]; omega),
          ← holds.view, List.get_eq_getElem, List.getElem_map, List.getElem_range]
        rfl
      · rw [dif_neg inside, dif_neg (by rw [List.length_map, List.length_range]; omega)]
    rw [copied] at stored
    exact .ok stored
  · rw [if_neg bounds, dif_neg bounds]
    exact .error _

end

end RawArray

end Ease
