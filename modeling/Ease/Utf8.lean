import Ease.Checked
import Mathlib.Data.List.Basic

/-! Byte strings that encode text. A `String` carries the proof that its bytes are
valid UTF-8, so decoding is the only place where validity is checked. -/

namespace Ease

def strBytes (text : String) : List UInt8 := text.toByteArray.data.toList

def ValidUtf8 (bytes : List UInt8) : Prop := bytes.toByteArray.IsValidUTF8

instance (bytes : List UInt8) : Decidable (ValidUtf8 bytes) :=
  inferInstanceAs (Decidable bytes.toByteArray.IsValidUTF8)

def fromUtf8 (bytes : List UInt8) : Option String := String.fromUTF8? bytes.toByteArray

def expectUtf8 (message : String) (bytes : List UInt8) : Exec String :=
  match fromUtf8 bytes with
  | some text => .ok text
  | none => .error (.expectFailed message)

theorem toByteArray_strBytes (text : String) : (strBytes text).toByteArray = text.toByteArray := by
  apply ByteArray.ext
  simp [strBytes, List.data_toByteArray]

theorem strBytes_injective {first second : String} (same : strBytes first = strBytes second) :
    first = second := by
  rw [← String.toByteArray_inj, ← toByteArray_strBytes, same, toByteArray_strBytes]

theorem fromUtf8_eq_some {bytes : List UInt8} {text : String} :
    fromUtf8 bytes = some text ↔ strBytes text = bytes := by
  unfold fromUtf8 String.fromUTF8?
  constructor
  · intro decoded
    split at decoded
    · cases decoded
      simp [strBytes, String.fromUTF8, List.data_toByteArray]
    · cases decoded
  · intro same
    subst same
    have valid : (strBytes text).toByteArray.IsValidUTF8 := by
      rw [toByteArray_strBytes]
      exact text.isValidUTF8
    rw [dif_pos valid, Option.some.injEq, ← String.toByteArray_inj]
    exact toByteArray_strBytes text

theorem fromUtf8_eq_none {bytes : List UInt8} : fromUtf8 bytes = none ↔ ¬ ValidUtf8 bytes := by
  unfold fromUtf8 String.fromUTF8? ValidUtf8
  split <;> simp_all

theorem strBytes_valid (text : String) : ValidUtf8 (strBytes text) := by
  rw [ValidUtf8, toByteArray_strBytes]
  exact text.isValidUTF8

theorem expectUtf8_eq_ok {message : String} {bytes : List UInt8} {text : String} :
    expectUtf8 message bytes = .ok text ↔ strBytes text = bytes := by
  rw [← fromUtf8_eq_some, expectUtf8]
  cases fromUtf8 bytes <;> simp

@[simp] theorem expectUtf8_strBytes (message : String) (text : String) :
    expectUtf8 message (strBytes text) = .ok text := expectUtf8_eq_ok.mpr rfl

theorem expectUtf8_completes (message : String) {bytes : List UInt8} :
    (∃ text, expectUtf8 message bytes = .ok text) ↔ ValidUtf8 bytes := by
  constructor
  · intro given
    rcases given with ⟨text, decoded⟩
    rw [← expectUtf8_eq_ok.mp decoded]
    exact strBytes_valid text
  · intro valid
    cases decoded : fromUtf8 bytes with
    | none => exact absurd valid (fromUtf8_eq_none.mp decoded)
    | some text => exact ⟨text, by rw [expectUtf8, decoded]⟩

theorem expectUtf8_fails {message : String} {bytes : List UInt8} (invalid : ¬ ValidUtf8 bytes) :
    expectUtf8 message bytes = .error (.expectFailed message) := by
  rw [expectUtf8, fromUtf8_eq_none.mpr invalid]

/-- `byte as char`, formatted on its own. -/
def charStr (byte : UInt8) : String := String.singleton (Char.ofUInt8 byte)

theorem charStr_ascii {byte : UInt8} (ascii : byte < 0x80) : strBytes (charStr byte) = [byte] := by
  have low : byte.toNat < 128 := by simpa [UInt8.lt_iff_toNat_lt] using ascii
  have value : (Char.ofUInt8 byte).val = byte.toUInt32 := rfl
  have size : (Char.ofUInt8 byte).utf8Size = 1 := by
    rw [Char.utf8Size_eq_one_iff, value]
    simp [UInt32.le_iff_toNat_le]
    omega
  rw [strBytes, charStr, String.toByteArray_singleton, List.utf8Encode_singleton,
    String.utf8EncodeChar_eq_singleton size]
  simp [List.data_toByteArray, value]

theorem length_charStr (byte : UInt8) :
    (strBytes (charStr byte)).length = (Char.ofUInt8 byte).utf8Size := by
  rw [strBytes, charStr, String.toByteArray_singleton, List.utf8Encode_singleton,
    List.data_toByteArray, List.toList_toArray, String.length_utf8EncodeChar]

theorem length_charStr_pos (byte : UInt8) : 0 < (strBytes (charStr byte)).length := by
  rw [length_charStr]
  exact Char.utf8Size_pos _

theorem length_charStr_wide {byte : UInt8} (wide : 0x80 ≤ byte) :
    1 < (strBytes (charStr byte)).length := by
  have positive := length_charStr_pos byte
  rw [length_charStr] at positive ⊢
  have more : (Char.ofUInt8 byte).utf8Size ≠ 1 := by
    rw [ne_eq, Char.utf8Size_eq_one_iff]
    intro small
    have low : byte.toNat ≤ 127 := small
    have high : 128 ≤ byte.toNat := wide
    omega
  omega

theorem validUtf8_nil : ValidUtf8 [] := by
  simp [ValidUtf8]

theorem validUtf8_append {front back : List UInt8} (first : ValidUtf8 front)
    (second : ValidUtf8 back) : ValidUtf8 (front ++ back) := by
  rw [ValidUtf8, List.toByteArray_append]
  exact first.append second

theorem validUtf8_ascii {bytes : List UInt8} (ascii : ∀ byte ∈ bytes, byte < 0x80) :
    ValidUtf8 bytes := by
  induction bytes with
  | nil => exact validUtf8_nil
  | cons byte bytes ih =>
      have head : ValidUtf8 [byte] := by
        rw [← charStr_ascii (ascii byte List.mem_cons_self)]
        exact strBytes_valid _
      have tail := ih fun other member => ascii other (List.mem_cons_of_mem _ member)
      exact validUtf8_append head tail

end Ease
