import Mathlib.Algebra.Order.Floor.Div
import Mathlib.Order.Bounds.Basic
import Treasury.Proofs.Conversion
import Treasury.Proofs.Rounding

/-! How many shares of a fixed-rate pool are released for a value. The router quotes enough shares
for it, takes one back if these are worth more, and gives no more than custody has. One share is
always the right correction: what is released is never worth more than the value, and at a rate of
one or more no larger number of shares would do. -/
namespace Treasury

open Exec Chain

namespace Rate

variable {amount value rate shares : Nat}

/-- Enough shares for an amount are as many as it makes at the rate, rounded up. -/
theorem eq_of_sharesForAmount (h : sharesForAmount amount rate = .ok shares) :
    shares = amount * rateScale ⌈/⌉ rate := by
  rcases Nat.eq_zero_or_pos rate with rfl | hRate
  · have hNothing : amount * rateScale ≤ 0 := Amount.le_mulDivCeil_mul h
    rw [ceilDiv_zero]
    exact Nat.le_zero.1 ((Amount.mulDivCeil_le_iff h).2 hNothing)
  · apply eq_of_forall_ge_iff
    intro m
    rw [ceilDiv_le_iff_le_mul hRate, Nat.mul_comm rate]
    exact Amount.mulDivCeil_le_iff h

/-- The shares that are meant for a value: enough for it, or one less if these are worth more. -/
def fitting (value rate : Nat) : Nat :=
  let quote := value * rateScale ⌈/⌉ rate
  if value < quote * rate / rateScale then quote - 1 else quote

theorem fitting_le : fitting value rate ≤ value * rateScale ⌈/⌉ rate := by
  rw [fitting]
  split
  · exact Nat.sub_le _ _
  · exact Nat.le_refl _

/-- Less than enough shares for a value are worth no more than it. -/
theorem worth_le_of_lt (h : shares < value * rateScale ⌈/⌉ rate) :
    shares * rate / rateScale ≤ value := by
  rcases Nat.eq_zero_or_pos rate with rfl | hRate
  · simp
  have hShort : rate * shares < value * rateScale := by
    apply Nat.lt_of_not_le
    intro hEnough
    exact Nat.not_le.2 h ((ceilDiv_le_iff_le_mul hRate).2 hEnough)
  apply Nat.div_le_of_le_mul
  rw [Nat.mul_comm shares, Nat.mul_comm rateScale]
  exact Nat.le_of_lt hShort

/-- Whatever the rate, taking one share back is enough. -/
theorem worth_fitting_le (value rate : Nat) : fitting value rate * rate / rateScale ≤ value := by
  rw [fitting]
  split
  · next hMore =>
    apply worth_le_of_lt
    apply Nat.sub_lt _ Nat.one_pos
    apply Nat.pos_of_ne_zero
    intro hNone
    rw [hNone, Nat.zero_mul, Nat.zero_div] at hMore
    exact Nat.not_lt_zero _ hMore
  · next hEnough => exact Nat.not_lt.1 hEnough

/-- At a rate of one or more every share counts, so taking more than one back is never called for.
-/
theorem le_fitting (hRate : rateScale ≤ rate) (h : shares * rate / rateScale ≤ value) :
    shares ≤ fitting value rate := by
  have hPos : 0 < rate := Nat.lt_of_lt_of_le rateScale_pos hRate
  have hLess : shares * rate < value * rateScale + rateScale := by
    have hAt := (Nat.div_lt_iff_lt_mul rateScale_pos).1 (Nat.lt_succ_of_le h)
    rwa [Nat.succ_mul] at hAt
  have hQuote : value * rateScale ≤ rate * (value * rateScale ⌈/⌉ rate) :=
    (ceilDiv_le_iff_le_mul hPos).1 (Nat.le_refl _)
  rw [fitting]
  generalize value * rateScale ⌈/⌉ rate = quote at hQuote ⊢
  split
  · next hMore =>
    apply Nat.le_sub_one_of_lt
    apply Nat.lt_of_not_le
    intro hLarge
    apply Nat.not_le.2 hMore
    calc quote * rate / rateScale ≤ shares * rate / rateScale :=
          Nat.div_le_div_right (Nat.mul_le_mul_right _ hLarge)
      _ ≤ value := h
  · apply Nat.le_of_lt_succ
    apply Nat.lt_of_not_le
    intro hLarge
    apply Nat.not_le.2 hLess
    calc value * rateScale + rateScale ≤ rate * quote + rate := Nat.add_le_add hQuote hRate
      _ = (quote + 1) * rate := by rw [Nat.succ_mul, Nat.mul_comm]
      _ ≤ shares * rate := Nat.mul_le_mul_right _ hLarge

/-- At a lower rate some shares cost nothing, and more of them could be released. -/
example : fitting 1 (rateScale / 2) = 2 ∧ 3 * (rateScale / 2) / rateScale = 1 := by decide +kernel

end Rate

theorem Strategy.valueOf_fixedRate {c : Chain} {p : Address} {s : FixedRate} {shares : Amount}
    (h : c.contract? p = some (.fixedRate s)) :
    valueOf p p shares c = Rate.assetsForShares shares s.rate := by
  rw [valueOf, View.bind_of_ok (View.contract_eq_ok.2 h)]
  simp only [ensure, if_true, View.bind_apply, View.lift_apply]
  rfl

namespace Chain

/-- Some shares of a pool are worth a value at most. -/
def Affords (c : Chain) (p : Address) (value shares : Amount) : Prop :=
  ∃ worth, Strategy.valueOf p p shares c = .ok worth ∧ worth ≤ value

variable {c : Chain} {p : Address} {s : Strategy.FixedRate} {value shares fewer : Amount}

theorem affords_iff (h : c.contract? p = some (.fixedRate s)) : c.Affords p value shares ↔
    shares * s.rate < Amount.bound ∧ shares * s.rate / rateScale ≤ value := by
  simp only [Affords, Strategy.valueOf_fixedRate h, Rate.assetsForShares, Amount.mulDiv_eq_ok]
  constructor
  · rintro ⟨_, ⟨hRange, -, rfl⟩, hLe⟩
    exact ⟨hRange, hLe⟩
  · rintro ⟨hRange, hLe⟩
    exact ⟨_, ⟨hRange, Nat.ne_of_gt Rate.rateScale_pos, rfl⟩, hLe⟩

theorem affords_fewer (h : c.contract? p = some (.fixedRate s))
    (hAffords : c.Affords p value shares) (hFewer : fewer ≤ shares) :
    c.Affords p value fewer := by
  rw [affords_iff h] at hAffords ⊢
  obtain ⟨hRange, hLe⟩ := hAffords
  have hMul : fewer * s.rate ≤ shares * s.rate := Nat.mul_le_mul_right _ hFewer
  exact ⟨Nat.lt_of_le_of_lt hMul hRange, Nat.le_trans (Nat.div_le_div_right hMul) hLe⟩

/-- The shares meant for a value are the most that are worth no more, at a rate of one or more. -/
theorem isGreatest_fitting (h : c.contract? p = some (.fixedRate s))
    (hAffords : c.Affords p value (Rate.fitting value s.rate)) (hRate : rateScale ≤ c.rate p) :
    IsGreatest {shares | c.Affords p value shares} (Rate.fitting value s.rate) := by
  rw [rate_of h] at hRate
  refine ⟨hAffords, fun shares hShares => ?_⟩
  exact Rate.le_fitting hRate ((affords_iff h).1 hShares).2

end Chain

/-- What may be released of a fixed-rate pool is what is meant for the value, as far as custody has
it. -/
theorem Router.releasable_fixedRate {c : Chain} {custody : Address} {config : Pool.Config}
    {s : Strategy.FixedRate} {value released : Amount}
    (hs : c.contract? config.pool = some (.fixedRate s)) (hSelf : config.adapter = config.pool)
    (h : releasable custody config value c = .ok released) :
    released = min (Rate.fitting value s.rate) (c.balance config.pool custody) ∧
      c.Affords config.pool value (Rate.fitting value s.rate) := by
  rw [affords_iff hs]
  simp only [releasable, hSelf, View.bind_eq_ok, Strategy.previewShares_fixedRate hs] at h
  obtain ⟨quote, hQuote, h⟩ := h
  obtain rfl := Rate.eq_of_sharesForAmount hQuote
  have hWorth := Rate.worth_fitting_le value s.rate
  by_cases hNone : value * rateScale ⌈/⌉ s.rate = 0
  · simp only [if_pos hNone, View.bind_eq_ok, View.pure_apply, Except.ok.injEq] at h
    obtain ⟨_, rfl, held, hHeld, rfl⟩ := h
    obtain rfl := Custody.poolBalance_ok hHeld
    have hZero : Rate.fitting value s.rate = 0 := Nat.le_zero.1 (hNone ▸ Rate.fitting_le)
    rw [hZero, Nat.zero_mul]
    exact ⟨rfl, by decide, by simp⟩
  · simp only [if_neg hNone, View.bind_eq_ok, View.pure_apply, Except.ok.injEq,
      Strategy.valueOf_fixedRate hs, Rate.assetsForShares, Amount.mulDiv_eq_ok] at h
    obtain ⟨_, ⟨hRange, -, rfl⟩, _, rfl, held, hHeld, rfl⟩ := h
    obtain rfl := Custody.poolBalance_ok hHeld
    exact ⟨rfl, Nat.lt_of_le_of_lt (Nat.mul_le_mul_right _ Rate.fitting_le) hRange, hWorth⟩

end Treasury
