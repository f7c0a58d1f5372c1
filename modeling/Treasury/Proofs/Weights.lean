import Mathlib.Algebra.Order.BigOperators.Group.List
import Mathlib.Algebra.Order.Group.Nat
import Treasury.Pool.Weight
import Treasury.Proofs.Legs
import Treasury.Proofs.Rounding

/-! What weights are. A weight is a value's part of the total on the scale of weights, rounded down:
the way over the finer scale loses nothing. Together the weights are the whole, short of it by less
than one unit for each value. -/
namespace Treasury

/-- If each step has a known result under a condition, then so have all steps together. -/
theorem Result.mapM_eq_ok {α β : Type} {f : α → Result β} {g : α → β} {P : α → Prop}
    (h : ∀ a b, f a = .ok b ↔ P a ∧ g a = b) {as : List α} {bs : List β} :
    as.mapM f = .ok bs ↔ (∀ a ∈ as, P a) ∧ as.map g = bs := by
  induction as generalizing bs with
  | nil =>
    rw [List.mapM_nil, List.map_nil]
    exact ⟨fun hNil => ⟨by simp, Except.ok.inj hNil⟩, fun hNil => congrArg Except.ok hNil.2⟩
  | cons a rest ih =>
    simp only [List.mapM_cons, bind_eq_ok, h, ih, List.forall_mem_cons, List.map_cons]
    constructor
    · rintro ⟨b, ⟨hFirst, rfl⟩, tail, ⟨hRest, rfl⟩, ⟨⟩⟩
      exact ⟨⟨hFirst, hRest⟩, rfl⟩
    · rintro ⟨⟨hFirst, hRest⟩, rfl⟩
      exact ⟨_, ⟨hFirst, rfl⟩, _, ⟨hRest, rfl⟩, rfl⟩

namespace Pool.Weight

variable {values : List Amount} {parts : Shares} {weights : List Nat} {share : Amount}
  {weight : Nat}

/-- A part on the finer scale is brought to the scale of weights without a further loss. -/
theorem rescale (value total : Nat) :
    value * allocationScale / total * weightScale / allocationScale =
      value * weightScale / total := by
  have hScale : allocationScale = weightScale * 10 ^ 12 := by decide
  have hWeight : 0 < weightScale := by decide
  have hFine : 0 < 10 ^ 12 := by decide
  calc value * allocationScale / total * weightScale / allocationScale
      = value * allocationScale / total * weightScale / (10 ^ 12 * weightScale) := by
        rw [hScale, Nat.mul_comm (10 ^ 12)]
    _ = value * allocationScale / total / 10 ^ 12 := Nat.mul_div_mul_right _ _ hWeight
    _ = value * weightScale * 10 ^ 12 / (total * 10 ^ 12) := by
        rw [Nat.div_div_eq_div_mul, hScale, Nat.mul_assoc]
    _ = value * weightScale / total := Nat.mul_div_mul_right _ _ hFine

theorem part_le {value : Nat} (h : value ∈ values) (n : Nat) : value * n / values.sum ≤ n :=
  Nat.div_le_of_le_mul (Nat.mul_le_mul_right n (List.le_sum_of_mem h))

/-- Parts can be found out if the total, and each value on the finer scale, is in range. No value is
a part of nothing. -/
theorem shares_eq_ok : shares values = .ok parts ↔
    values.sum < Amount.bound ∧ (∀ value ∈ values, value * allocationScale < Amount.bound) ∧
      ⟨values.map fun value => value * allocationScale / values.sum, values.sum⟩ = parts := by
  simp only [shares, Result.bind_eq_ok, Amount.sum_eq_ok, and_assoc, exists_and_left,
    exists_eq_left']
  refine and_congr_right fun _ => ?_
  by_cases hNone : values.sum = 0
  · have hZero : ∀ value ∈ values, value = 0 := List.sum_eq_zero_iff.1 hNone
    have hRange : ∀ value ∈ values, value * allocationScale < Amount.bound := by
      intro value hMem
      rw [hZero value hMem, Nat.zero_mul]
      decide
    have hParts : values.map (fun value => value * allocationScale / values.sum) =
        values.map fun _ => 0 := by
      apply List.map_congr_left
      intro value _
      rw [hNone, Nat.div_zero]
    rw [if_pos hNone, hParts]
    exact ⟨fun h => ⟨hRange, Except.ok.inj h⟩, fun h => congrArg Except.ok h.2⟩
  · have hEach : ∀ value part, Amount.mulDiv value allocationScale values.sum = .ok part ↔
        value * allocationScale < Amount.bound ∧
          value * allocationScale / values.sum = part := by
      intro value part
      rw [Amount.mulDiv_eq_ok, and_iff_right hNone]
    simp only [if_neg hNone, Result.bind_eq_ok, Result.mapM_eq_ok hEach]
    constructor
    · rintro ⟨_, ⟨hRange, rfl⟩, ⟨⟩⟩
      exact ⟨hRange, rfl⟩
    · rintro ⟨hRange, rfl⟩
      exact ⟨_, ⟨hRange, rfl⟩, rfl⟩

theorem ofShare_eq_ok : ofShare share = .ok weight ↔ share * weightScale < Amount.bound ∧
    min (share * weightScale / allocationScale) weightScale = weight := by
  have hScale : allocationScale ≠ 0 := by decide
  simp only [ofShare, Result.bind_eq_ok, Amount.mulDiv_eq_ok, and_iff_right hScale, and_assoc,
    exists_and_left, exists_eq_left']
  exact and_congr_right fun _ => ⟨Except.ok.inj, congrArg Except.ok⟩

/-- A part of the whole is brought to the scale of weights, and the cap changes nothing. -/
theorem ofShare_part (h : share ≤ allocationScale) :
    ofShare share = .ok (share * weightScale / allocationScale) := by
  have hRange : share * weightScale < Amount.bound :=
    Nat.lt_of_le_of_lt (Nat.mul_le_mul_right _ h) (by decide)
  have hCap : share * weightScale / allocationScale ≤ weightScale :=
    Nat.div_le_of_le_mul (Nat.mul_le_mul_right _ h)
  exact ofShare_eq_ok.2 ⟨hRange, Nat.min_eq_left hCap⟩

/-- Weights can be found out if the parts can. Each is its value's part of the total. -/
theorem current_eq_ok : current values = .ok weights ↔
    values.sum < Amount.bound ∧ (∀ value ∈ values, value * allocationScale < Amount.bound) ∧
      values.map (fun value => value * weightScale / values.sum) = weights := by
  have hEach : (values.map fun value => value * allocationScale / values.sum).mapM ofShare =
      .ok (values.map fun value => value * weightScale / values.sum) := by
    rw [Result.mapM_eq_ok fun _ _ => ofShare_eq_ok, List.map_map]
    constructor
    · intro share hShare
      obtain ⟨value, hValue, rfl⟩ := List.mem_map.1 hShare
      exact (ofShare_eq_ok.1 (ofShare_part (part_le hValue allocationScale))).1
    · apply List.map_congr_left
      intro value hValue
      rw [Function.comp_apply, rescale, Nat.min_eq_left (part_le hValue weightScale)]
  simp only [current, Result.bind_eq_ok, shares_eq_ok, and_assoc, exists_and_left, exists_eq_left']
  simp only [hEach, Except.ok.injEq]

theorem length_of_current (h : current values = .ok weights) : weights.length = values.length := by
  obtain ⟨-, -, rfl⟩ := current_eq_ok.1 h
  exact List.length_map _

/-- The parts of some values, on the finer scale, and their weights are their shares of the whole. -/
structure Apportions (values scaled : List Amount) (weights : List Nat) : Prop where
  scaled_le : scaled.sum ≤ allocationScale
  lt_scaled : allocationScale < scaled.sum + values.length
  /-- Bringing a part to the scale of weights never meets the cap. -/
  uncapped : ∀ part ∈ scaled, part * weightScale / allocationScale ≤ weightScale ∧
    ofShare part = .ok (part * weightScale / allocationScale)
  /-- The way over the finer scale loses nothing. -/
  direct : weights = values.map fun value => value * weightScale / values.sum
  /-- A larger value never has a smaller weight. -/
  monotone : ∀ lesser ∈ values.zip weights, ∀ larger ∈ values.zip weights,
    lesser.1 ≤ larger.1 → lesser.2 ≤ larger.2
  weights_le : weights.sum ≤ weightScale
  lt_weights : weightScale < weights.sum + values.length

theorem apportions_of_parts (h : 0 < values.sum) :
    Apportions values (values.map fun value => value * allocationScale / values.sum)
      (values.map fun value => value * weightScale / values.sum) := by
  obtain ⟨hScaled, hScaled'⟩ := Amount.sum_parts h allocationScale
  obtain ⟨hWeights, hWeights'⟩ := Amount.sum_parts h weightScale
  constructor
  case scaled_le => exact hScaled
  case lt_scaled => exact hScaled'
  case uncapped =>
    intro part hPart
    obtain ⟨value, hValue, rfl⟩ := List.mem_map.1 hPart
    refine ⟨?_, ofShare_part (part_le hValue _)⟩
    rw [rescale]
    exact part_le hValue _
  case direct => rfl
  case monotone =>
    intro lesser hLesser larger hLarger hLe
    rw [← List.map_prod_left_eq_zip] at hLesser hLarger
    obtain ⟨less, -, rfl⟩ := List.mem_map.1 hLesser
    obtain ⟨more, -, rfl⟩ := List.mem_map.1 hLarger
    exact Nat.div_le_div_right (Nat.mul_le_mul_right _ hLe)
  case weights_le => exact hWeights
  case lt_weights => exact hWeights'

/-- If the total is in range on the finer scale, parts and weights are found out: nothing if there is
nothing, and else the values' shares of the whole. -/
theorem weights_apportion_whole (h : values.sum * allocationScale < Amount.bound) :
    ∃ scaled weights, shares values = .ok ⟨scaled, values.sum⟩ ∧ current values = .ok weights ∧
      (values.sum = 0 → scaled = values.map (fun _ => 0) ∧ weights = values.map fun _ => 0) ∧
      (0 < values.sum → Apportions values scaled weights) := by
  have hScale : 0 < allocationScale := by decide
  have hSum : values.sum < Amount.bound :=
    Nat.lt_of_le_of_lt (Nat.le_mul_of_pos_right _ hScale) h
  have hEach : ∀ value ∈ values, value * allocationScale < Amount.bound := by
    intro value hMem
    exact Nat.lt_of_le_of_lt (Nat.mul_le_mul_right _ (List.le_sum_of_mem hMem)) h
  refine ⟨_, _, shares_eq_ok.2 ⟨hSum, hEach, rfl⟩, current_eq_ok.2 ⟨hSum, hEach, rfl⟩, ?_,
    apportions_of_parts⟩
  intro hNone
  simp only [hNone, Nat.div_zero, and_self]

/-- The largest total that can be weighed is all but three units in one place. -/
theorem weights_apportion_whole_of_most :
    let values : List Amount := [(Amount.bound - 1) / allocationScale - 3, 1, 2]
    values.sum * allocationScale < Amount.bound ∧ current values = .ok [999_999, 0, 0] ∧
      Apportions values [999_999_999_999_999_999, 0, 0] [999_999, 0, 0] := by
  intro values
  have hRange : values.sum * allocationScale < Amount.bound := by decide
  have hShares : shares values = .ok ⟨[999_999_999_999_999_999, 0, 0], values.sum⟩ :=
    shares_eq_ok.2 ⟨by decide, by decide, by decide +kernel⟩
  have hCurrent : current values = .ok [999_999, 0, 0] :=
    current_eq_ok.2 ⟨by decide, by decide, by decide +kernel⟩
  obtain ⟨scaled, weights, hIs, hAre, -, hSound⟩ := weights_apportion_whole hRange
  rw [hShares] at hIs
  rw [hCurrent] at hAre
  cases hIs
  cases hAre
  exact ⟨hRange, hCurrent, hSound (by decide)⟩

end Pool.Weight

end Treasury
