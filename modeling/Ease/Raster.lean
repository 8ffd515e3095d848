import Ease.Slots
import Mathlib.Data.List.GetD

/-! Flat arrays read as rows of one width, and what the block operations of a flat
array do to the rows. -/

namespace Ease.Raster

theorem flat_lt_iff {width x₁ y₁ x₂ y₂ : Nat} (inside₁ : x₁ < width) (inside₂ : x₂ < width) :
    y₁ * width + x₁ < y₂ * width + x₂ ↔ y₁ < y₂ ∨ y₁ = y₂ ∧ x₁ < x₂ := by
  rcases Nat.lt_trichotomy y₁ y₂ with above | rfl | below
  · have step : (y₁ + 1) * width ≤ y₂ * width := Nat.mul_le_mul_right width above
    rw [Nat.add_mul, Nat.one_mul] at step
    omega
  · omega
  · have step : (y₂ + 1) * width ≤ y₁ * width := Nat.mul_le_mul_right width below
    rw [Nat.add_mul, Nat.one_mul] at step
    omega

theorem flat_inside {width height x y : Nat} (column : x < width) (row : y < height) :
    y * width + x < width * height := by
  calc y * width + x < y * width + width := by omega
    _ = (y + 1) * width := by rw [Nat.add_mul, Nat.one_mul]
    _ ≤ height * width := Nat.mul_le_mul_right width row
    _ = width * height := Nat.mul_comm height width

theorem flat_row_iff {width x y start stop : Nat} (column : x < width) :
    start * width ≤ y * width + x ∧ y * width + x < stop * width ↔ start ≤ y ∧ y < stop := by
  have positive : 0 < width := by omega
  have lower : y * width + x < start * width ↔ y < start := by
    rw [← Nat.add_zero (start * width), flat_lt_iff column positive]
    omega
  have upper : y * width + x < stop * width ↔ y < stop := by
    rw [← Nat.add_zero (stop * width), flat_lt_iff column positive]
    omega
  omega

theorem flat_span_iff {width x y left row count : Nat} (column : x < width)
    (fits : left + count < width) :
    row * width + left ≤ y * width + x ∧ y * width + x - (row * width + left) < count ↔
      y = row ∧ left ≤ x ∧ x - left < count := by
  have lower : y * width + x < row * width + left ↔ y < row ∨ y = row ∧ x < left :=
    flat_lt_iff column (by omega)
  have upper : y * width + x < row * width + (left + count) ↔
      y < row ∨ y = row ∧ x < left + count :=
    flat_lt_iff column fits
  omega

variable {α : Type} {width height : Nat}

def get (slots : Slots α (width * height)) (x : Fin width) (y : Fin height) : α :=
  slots ⟨y.val * width + x.val, flat_inside x.isLt y.isLt⟩

theorem copyFrom_row (slots : Slots α (width * height)) {left row : Nat} {values : List α}
    (fits : left + values.length < width) (inside : row < height) (fallback : α) :
    ∃ after, slots.copyFrom (row * width + left) (row * width + left + values.length) values =
        .ok after ∧
      ∀ x y, get after x y =
        if y.val = row ∧ left ≤ x.val ∧ x.val - left < values.length then
          values.getD (x.val - left) fallback
        else get slots x y := by
  have limit : row * width + (left + values.length) < width * height := flat_inside fits inside
  refine ⟨_, if_pos ⟨by omega, by omega, by omega⟩, fun x y => ?_⟩
  have span := @flat_span_iff width x.val y.val left row values.length x.isLt fits
  by_cases inSpan : y.val = row ∧ left ≤ x.val ∧ x.val - left < values.length
  · rw [if_pos inSpan, get, dif_pos (span.mpr inSpan), List.getD_eq_getElem _ _ inSpan.2.2,
      List.get_eq_getElem]
    rcases inSpan with ⟨sameRow, leftOf, _⟩
    congr 1
    change y.val * width + x.val - (row * width + left) = x.val - left
    rw [sameRow]
    omega
  · rw [if_neg inSpan, get, dif_neg (mt span.mp inSpan)]
    rfl

theorem fill_rows (slots : Slots α (width * height)) {start stop : Nat} (value : α)
    (ordered : start ≤ stop) (inside : stop ≤ height) :
    ∃ after, slots.fill (start * width) (stop * width) value = .ok after ∧
      ∀ x y, get after x y =
        if start ≤ y.val ∧ y.val < stop then value else get slots x y := by
  have limit : stop * width ≤ width * height := by
    rw [Nat.mul_comm width]
    exact Nat.mul_le_mul_right width inside
  refine ⟨_, Slots.fill_ok slots value (Nat.mul_le_mul_right width ordered) limit, fun x y => ?_⟩
  simp only [get, flat_row_iff x.isLt]

theorem copyWithin_up (slots : Slots α (width * height)) {rows : Nat} (inside : rows ≤ height) :
    ∃ after, slots.copyWithin (rows * width) (width * height) 0 = .ok after ∧
      ∀ x y, get after x y =
        if below : y.val + rows < height then get slots x ⟨y.val + rows, below⟩
        else get slots x y := by
  have limit : rows * width ≤ width * height := by
    rw [Nat.mul_comm width]
    exact Nat.mul_le_mul_right width inside
  refine ⟨_, dif_pos ⟨limit, Nat.le_refl _, by omega⟩, fun x y => ?_⟩
  have total : width * height - rows * width = (height - rows) * width := by
    rw [Nat.sub_mul, Nat.mul_comm width]
  have block : 0 ≤ y.val * width + x.val ∧
      y.val * width + x.val < 0 + (width * height - rows * width) ↔ y.val + rows < height := by
    have row := @flat_row_iff width x.val y.val 0 (height - rows) x.isLt
    rw [total]
    omega
  by_cases below : y.val + rows < height
  · have source : rows * width + (y.val * width + x.val - 0) = (y.val + rows) * width + x.val := by
      rw [Nat.add_mul]
      omega
    rw [dif_pos below, get, dif_pos (block.mpr below), get]
    congr 2
  · rw [dif_neg below, get, dif_neg (mt block.mp below)]
    rfl

end Ease.Raster
