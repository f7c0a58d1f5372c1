import Mathlib.Algebra.GroupWithZero.Nat
import Treasury.Amount

/-! Rounded quotients. Rounding down gives the largest number that fits into a part, and rounding up
the least number that covers it. So a quote that is rounded up one way is adjoint to the quote that
is rounded down the other way. Parts that are rounded down one by one fall short of the part of
their sum by less than one unit each. -/
namespace Treasury.Amount

variable {a b c m n s : Amount}

/-- A number is no more than a part that is rounded down, if it fits into the part. -/
theorem le_mulDiv_iff (h : mulDiv a b c = .ok n) : m ≤ n ↔ m * c ≤ a * b := by
  obtain ⟨-, hc, rfl⟩ := mulDiv_eq_ok.1 h
  exact Nat.le_div_iff_mul_le (Nat.pos_of_ne_zero hc)

/-- Above zero, rounding up is rounding down the product before, plus one. The one more is in range,
since rounding up never leads above the product. -/
theorem mulDivCeil_eq_ok : mulDivCeil a b c = .ok n ↔
    a * b < bound ∧ (a * b = 0 ∧ 0 = n ∨ a * b ≠ 0 ∧ c ≠ 0 ∧ (a * b - 1) / c + 1 = n) := by
  simp only [mulDivCeil, Result.bind_eq_ok, mul_eq_ok, and_assoc, exists_and_left, exists_eq_left']
  refine and_congr_right fun hRange => ?_
  by_cases hZero : a * b = 0
  · rw [hZero, divCeil_zero, Except.ok.injEq]
    constructor
    · intro h
      exact .inl ⟨rfl, h⟩
    · rintro (⟨-, h⟩ | ⟨hSome, -⟩)
      · exact h
      · exact absurd rfl hSome
  · have hLess : (a * b - 1) / c < a * b :=
      Nat.lt_of_le_of_lt (Nat.div_le_self _ _) (Nat.sub_one_lt hZero)
    have hRoom : (a * b - 1) / c + 1 < bound := Nat.lt_of_le_of_lt hLess hRange
    rw [divCeil_eq_ok hZero, and_iff_right hRoom]
    constructor
    · intro h
      exact .inr ⟨hZero, h⟩
    · rintro (⟨hNone, -⟩ | ⟨-, h⟩)
      · exact absurd hNone hZero
      · exact h

/-- A number is no less than a part that is rounded up, if it covers the part. -/
theorem mulDivCeil_le_iff (h : mulDivCeil a b c = .ok n) : n ≤ m ↔ a * b ≤ m * c := by
  obtain ⟨-, ⟨hZero, rfl⟩ | ⟨hSome, hc, rfl⟩⟩ := mulDivCeil_eq_ok.1 h
  · rw [hZero]
    exact iff_of_true (Nat.zero_le _) (Nat.zero_le _)
  · rw [Nat.succ_le_iff, Nat.div_lt_iff_lt_mul (Nat.pos_of_ne_zero hc)]
    exact ⟨Nat.le_of_pred_lt, Nat.lt_of_lt_of_le (Nat.sub_one_lt hSome)⟩

/-- Rounding down takes nothing more than the part. -/
theorem mulDiv_mul_le (h : mulDiv a b c = .ok n) : n * c ≤ a * b :=
  (le_mulDiv_iff h).1 (Nat.le_refl n)

/-- Rounding up takes nothing less than the part. -/
theorem le_mulDivCeil_mul (h : mulDivCeil a b c = .ok n) : a * b ≤ n * c :=
  (mulDivCeil_le_iff h).1 (Nat.le_refl n)

/-- What is rounded up one way is no more than a number, if that number is enough the other way. -/
theorem mulDivCeil_le_iff_le_mulDiv (hUp : mulDivCeil a b c = .ok n)
    (hDown : mulDiv s c b = .ok m) : n ≤ s ↔ a ≤ m :=
  (mulDivCeil_le_iff hUp).trans (le_mulDiv_iff hDown).symm

/-- A quotient of a product that is in range can be rounded up. -/
theorem mulDivCeil_ok (hRange : a * b < bound) (hc : c ≠ 0) : ∃ n, mulDivCeil a b c = .ok n := by
  by_cases hZero : a * b = 0
  · exact ⟨0, mulDivCeil_eq_ok.2 ⟨hRange, .inl ⟨hZero, rfl⟩⟩⟩
  · exact ⟨_, mulDivCeil_eq_ok.2 ⟨hRange, .inr ⟨hZero, hc, rfl⟩⟩⟩

/-- Whatever is done with a product, there is an overflow if it is not in range. -/
theorem mul_lt_bound {f : Amount → Result Amount} (h : (mul a b >>= f) ≠ .error .overflow) :
    a * b < bound := by
  apply Decidable.byContradiction
  intro hOut
  apply h
  rw [mul, checked, if_neg hOut]
  rfl

/-- Where nothing overflows, a quote that is rounded up one way and the quote that is rounded down
the other way are adjoint: the first suffices, and is the least that does. -/
theorem mulDivCeil_adjoint (hb : b ≠ 0) (hc : c ≠ 0) (hUp : mulDivCeil a b c ≠ .error .overflow)
    (hDown : mulDiv s c b ≠ .error .overflow) :
    ∃ n m, mulDivCeil a b c = .ok n ∧ mulDiv s c b = .ok m ∧ (n ≤ s ↔ a ≤ m) := by
  obtain ⟨n, hn⟩ := mulDivCeil_ok (mul_lt_bound hUp) hc
  have hm := mulDiv_eq_ok.2 ⟨mul_lt_bound hDown, hb, rfl⟩
  exact ⟨n, _, hn, hm, mulDivCeil_le_iff_le_mulDiv hn hm⟩

/-- A part rises by no more than is added to the number, if that is covered without rounding. -/
theorem quotient_gain_le {divisor n more gain : Nat} (h : 0 < divisor) (held : Nat)
    (hGain : more * n ≤ gain * divisor) :
    (held + more) * n / divisor ≤ held * n / divisor + gain := by
  have hSum : (held + more) * n ≤ held * n + gain * divisor := by
    rw [Nat.add_mul]
    exact Nat.add_le_add_left hGain _
  calc (held + more) * n / divisor
      ≤ (held * n + gain * divisor) / divisor := Nat.div_le_div_right hSum
    _ = held * n / divisor + gain := Nat.add_mul_div_right _ _ h

section Sums

variable {values : List Nat} {divisor : Nat}

/-- Parts that are rounded down are together no more than the part of the sum. -/
theorem sum_quotients_mul_le (values : List Nat) (n divisor : Nat) :
    (values.map fun value => value * n / divisor).sum * divisor ≤ values.sum * n := by
  induction values with
  | nil => simp
  | cons value rest ih =>
    simp only [List.map_cons, List.sum_cons, Nat.add_mul]
    exact Nat.add_le_add (Nat.div_mul_le_self _ _) ih

/-- Each part that is rounded down is less than one unit short. -/
theorem sum_mul_add_length_le (values : List Nat) (n : Nat) (h : 0 < divisor) :
    values.sum * n + values.length ≤
      ((values.map fun value => value * n / divisor).sum + values.length) * divisor := by
  induction values with
  | nil => simp
  | cons value rest ih =>
    have hFirst : value * n < (value * n / divisor + 1) * divisor := by
      rw [Nat.mul_comm _ divisor]
      exact Nat.lt_mul_div_succ _ h
    simp only [List.map_cons, List.sum_cons, List.length_cons, Nat.add_mul, Nat.one_mul] at *
    omega

/-- Parts that are rounded down are together no more than the part of the sum, rounded down. -/
theorem sum_quotients_le (values : List Nat) (n : Nat) (h : 0 < divisor) :
    (values.map fun value => value * n / divisor).sum ≤ values.sum * n / divisor :=
  (Nat.le_div_iff_mul_le h).2 (sum_quotients_mul_le values n divisor)

/-- Together they fall short of it by less than one unit each. -/
theorem quotient_sum_lt (hSome : values ≠ []) (n : Nat) (h : 0 < divisor) :
    values.sum * n / divisor <
      (values.map fun value => value * n / divisor).sum + values.length := by
  have hLength : 0 < values.length := List.length_pos_iff.2 hSome
  have hParts := sum_mul_add_length_le values n h
  rw [Nat.div_lt_iff_lt_mul h]
  omega

/-- The parts of the total that some values are, rounded down, make up the whole, less than one unit
short for each value. -/
theorem sum_parts (h : 0 < values.sum) (n : Nat) :
    (values.map fun value => value * n / values.sum).sum ≤ n ∧
      n < (values.map fun value => value * n / values.sum).sum + values.length := by
  have hSome : values ≠ [] := by
    rintro rfl
    exact Nat.lt_irrefl 0 h
  have hLe := sum_quotients_le values n h
  have hLt := quotient_sum_lt hSome n h
  rw [Nat.mul_div_cancel_left n h] at hLe hLt
  exact ⟨hLe, hLt⟩

end Sums

end Treasury.Amount
