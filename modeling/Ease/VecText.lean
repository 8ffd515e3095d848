import Ease.Collection
import Ease.Utf8

/-! The `Vec` of bytes as text: what is left of a string that is copied into it. -/

namespace Ease

/-- A position between two characters, or at either end. -/
def IsCharBoundary (text : String) (pos : Nat) : Prop :=
  ∃ front back, text = front ++ back ∧ (strBytes front).length = pos

theorem strBytes_append (front back : String) :
    strBytes (front ++ back) = strBytes front ++ strBytes back := by
  simp [strBytes, String.toByteArray_append]

theorem length_strBytes (text : String) : (strBytes text).length = text.utf8ByteSize := by
  rw [strBytes, Array.length_toList]
  exact String.size_toByteArray

theorem take_strBytes (text : String) (pos : Nat) :
    ((strBytes text).take pos).toByteArray = text.toByteArray.extract 0 pos := by
  apply ByteArray.ext
  rw [List.data_toByteArray, ByteArray.data_extract, strBytes, ← Array.toList_inj]
  simp

/-- The first bytes of a text are text themselves exactly up to a character boundary. -/
theorem validUtf8_take_iff {text : String} {pos : Nat} (inside : pos ≤ (strBytes text).length) :
    ValidUtf8 ((strBytes text).take pos) ↔ IsCharBoundary text pos := by
  have below : (⟨pos⟩ : String.Pos.Raw) ≤ text.rawEndPos := by
    rw [String.Pos.Raw.le_iff, String.byteIdx_rawEndPos, ← length_strBytes]
    exact inside
  have decodes : String.Pos.Raw.IsValid text ⟨pos⟩ ↔ ValidUtf8 ((strBytes text).take pos) := by
    rw [String.Pos.Raw.isValid_iff_isValidUTF8_extract_zero, ValidUtf8, take_strBytes]
    exact and_iff_right below
  rw [← decodes, String.Pos.Raw.isValid_iff_exists_append]
  constructor
  · intro given
    rcases given with ⟨front, back, split, place⟩
    refine ⟨front, back, split, ?_⟩
    rw [length_strBytes]
    exact (congrArg String.Pos.Raw.byteIdx place).symm
  · intro given
    rcases given with ⟨front, back, split, place⟩
    refine ⟨front, back, split, String.Pos.Raw.ext ?_⟩
    rw [← place, length_strBytes, String.byteIdx_rawEndPos]

namespace Vec

variable {T : Type} {N : Nat}

def asStr (vec : Vec UInt8 N) : Exec (Except Unit String) := do
  let bytes ← vec.asSlice
  match fromUtf8 bytes with
  | some text => .ok (.ok text)
  | none => .ok (.error ())

def copyFromStr (vec : Vec UInt8 N) (s : String) : Exec (Vec UInt8 N) := do
  let bytes := strBytes s
  let len := min bytes.length N
  let buf ← (bytes.zipIdx.take len).foldlM (fun buf entry => buf.write entry.2 (some entry.1))
    vec.buf
  .ok ⟨len, buf⟩

theorem slot_written (buf : Slots (Option T) N) (element : T) (elements : List T) {start : Nat}
    (count : Nat) (here : start < N) (i : Fin N) :
    (if start + 1 ≤ i.val ∧ i.val < start + 1 + min count elements.length then
        elements[i.val - (start + 1)]?
      else Function.update buf ⟨start, here⟩ (some element) i) =
    if start ≤ i.val ∧ i.val < start + min (count + 1) (elements.length + 1) then
      (element :: elements)[i.val - start]?
    else buf i := by
  rcases Nat.lt_trichotomy i.val start with before | same | past
  · have other : i ≠ ⟨start, here⟩ := Fin.ne_of_val_ne (Nat.ne_of_lt before)
    rw [if_neg (by omega), if_neg (by omega), Function.update_of_ne other]
  · have self : i = ⟨start, here⟩ := Fin.ext same
    rw [if_neg (by omega), if_pos (by omega), same, Nat.sub_self, self, Function.update_self,
      List.getElem?_cons_zero]
  · have other : i ≠ ⟨start, here⟩ := Fin.ne_of_val_ne (Nat.ne_of_gt past)
    have next : i.val - start = i.val - (start + 1) + 1 := by omega
    by_cases within : i.val < start + 1 + min count elements.length
    · rw [if_pos (by omega), if_pos (by omega), next, List.getElem?_cons_succ]
    · rw [if_neg (by omega), if_neg (by omega), Function.update_of_ne other]

theorem writes_ok (buf : Slots (Option T) N) (elements : List T) (start count : Nat)
    (inside : start + min count elements.length ≤ N) :
    ∃ after, ((elements.zipIdx start).take count).foldlM
        (fun buf entry => Slots.write buf entry.2 (some entry.1)) buf = .ok after ∧
      ∀ i : Fin N, after i =
        if start ≤ i.val ∧ i.val < start + min count elements.length then elements[i.val - start]?
        else buf i := by
  induction elements generalizing buf start count with
  | nil => exact ⟨buf, by simp, fun i => (if_neg (by simp)).symm⟩
  | cons element elements ih =>
      cases count with
      | zero => exact ⟨buf, by simp, fun i => (if_neg (by omega)).symm⟩
      | succ count =>
          rw [List.length_cons] at inside ⊢
          have here : start < N := by omega
          obtain ⟨after, written, slots⟩ := ih (Function.update buf ⟨start, here⟩ (some element))
            (start + 1) count (by omega)
          refine ⟨after, ?_, fun i => ?_⟩
          · rw [List.zipIdx_cons, List.take_succ_cons, List.foldlM_cons, Slots.write_ok _ _ here,
              Exec.ok_bind, written]
          · rw [slots]
            exact slot_written buf element elements count here i

theorem copyFromStr_ok (vec : Vec UInt8 N) (s : String) :
    ∃ after, vec.copyFromStr s = .ok after ∧ after.Holds ((strBytes s).take N) := by
  obtain ⟨buf, written, slots⟩ := writes_ok vec.buf (strBytes s) 0 (min (strBytes s).length N)
    (by omega)
  refine ⟨⟨min (strBytes s).length N, buf⟩, ?_, ?_, ?_, fun i below => ?_⟩
  · rw [copyFromStr, written, Exec.ok_bind]
  · rw [List.length_take, Nat.min_comm]
  · rw [List.length_take]
    exact Nat.min_le_left _ _
  · rw [List.length_take] at below
    dsimp only
    rw [slots, if_pos (by omega), Nat.sub_zero]
    exact (List.getElem?_take_of_lt i.isLt).symm

theorem asStr_ok {vec : Vec UInt8 N} {bytes : List UInt8} (holds : vec.Holds bytes)
    {text : String} : vec.asStr = .ok (.ok text) ↔ strBytes text = bytes := by
  rw [asStr, holds.asSlice_ok, Exec.ok_bind, ← fromUtf8_eq_some]
  cases fromUtf8 bytes with
  | none => simp
  | some other => simp

structure Truncated (size : Nat) (s t : String) : Prop where
  start : ∃ rest, s = t ++ rest
  whole : (strBytes s).length ≤ size → t = s
  fits : (strBytes t).length ≤ size
  longest : ∀ other rest, s = other ++ rest → (strBytes other).length ≤ size →
    (strBytes other).length ≤ (strBytes t).length

/-- The copy returns, and the vector then reads as the string or its longest start. -/
def KeepsString (vec : Vec UInt8 N) (s : String) : Prop :=
  ∃ after t, vec.copyFromStr s = .ok after ∧ after.asStr = .ok (.ok t) ∧ Truncated N s t

theorem truncated_whole {size : Nat} {s : String} (fits : (strBytes s).length ≤ size) :
    Truncated size s s where
  start := ⟨"", (String.append_empty).symm⟩
  whole _ := rfl
  fits := fits
  longest other rest split _ := by
    rw [split, strBytes_append, List.length_append]
    exact Nat.le_add_right _ _

theorem truncated_boundary {front back : String}
    (cut : (strBytes front).length < (strBytes (front ++ back)).length) :
    Truncated (strBytes front).length (front ++ back) front where
  start := ⟨back, rfl⟩
  whole fits := absurd fits (Nat.not_le.mpr cut)
  fits := Nat.le_refl _
  longest _ _ _ fits := fits

/-- A string stays one exactly when it fits, or is cut between two characters. -/
theorem copy_keeps_string_iff (vec : Vec UInt8 N) (s : String) :
    vec.KeepsString s ↔ (strBytes s).length ≤ N ∨ IsCharBoundary s N := by
  rcases vec.copyFromStr_ok s with ⟨after, copied, holds⟩
  constructor
  · intro keeps
    rcases keeps with ⟨other, t, same, decoded, _⟩
    rw [copied] at same
    cases same
    have bytes := (asStr_ok holds).mp decoded
    rcases Nat.le_total (strBytes s).length N with fits | cut
    · exact .inl fits
    · refine .inr ((validUtf8_take_iff cut).mp ?_)
      rw [← bytes]
      exact strBytes_valid t
  · intro given
    by_cases fits : (strBytes s).length ≤ N
    · rw [List.take_of_length_le fits] at holds
      exact ⟨after, s, copied, (asStr_ok holds).mpr rfl, truncated_whole fits⟩
    · rcases given.resolve_left fits with ⟨front, back, rfl, rfl⟩
      rw [strBytes_append, List.take_left] at holds
      exact ⟨after, front, copied, (asStr_ok holds).mpr rfl,
        truncated_boundary (Nat.not_le.mp fits)⟩

/-- The last of four bytes is the first of the two of `é`. -/
theorem copy_cuts_character :
    (∃ after, (new : Vec UInt8 4).copyFromStr "tooé" = .ok after ∧
      after.asStr = .ok (.error ())) ∧ ¬ (new : Vec UInt8 4).KeepsString "tooé" := by
  refine ⟨⟨_, rfl, rfl⟩, fun keeps => ?_⟩
  rcases keeps with ⟨after, t, copied, decoded, _⟩
  cases copied
  cases decoded

end Vec

end Ease
