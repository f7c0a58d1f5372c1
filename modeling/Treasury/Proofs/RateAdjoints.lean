import Treasury.Proofs.Rounding
import Treasury.Rate

/-! Conversions at a fixed rate come in pairs, one of them rounded up and one rounded down. The
quote that is rounded up is the least that is enough, where the conversion that is rounded down says
what is enough. So nobody gains by going to and fro, whatever the rate is. -/
namespace Treasury.Rate

variable {amount shares rate minted : Amount}

/-- Shares that a deposit mints can be paid for, with no more than the deposit. -/
theorem paid_back_le (h : sharesForDeposit amount rate = .ok minted) :
    ∃ paid, assetsForShares minted rate = .ok paid ∧ paid ≤ amount := by
  have hLess : minted * rate ≤ amount * rateScale := Amount.mulDiv_mul_le h
  obtain ⟨hRange, -, -⟩ := Amount.mulDiv_eq_ok.1 h
  refine ⟨_, Amount.mulDiv_eq_ok.2 ⟨Nat.lt_of_le_of_lt hLess hRange, by decide, rfl⟩, ?_⟩
  apply Nat.div_le_of_le_mul
  rw [Nat.mul_comm rateScale]
  exact hLess

/-- At every rate above zero, an amount and shares whose products are in range are converted without
a fault. The shares that are asked for the amount are no more than the given ones just if the amount
is no more than these pay, and the deposit that is asked for the shares is no more than the amount
just if the shares are no more than this mints. What the amount mints pays no more than the amount,
and never overflows. -/
theorem conversions_adjoint (hRate : 0 < rate) (hAmount : amount * rateScale < Amount.bound)
    (hShares : shares * rate < Amount.bound) :
    ∃ asked paid cost minted returned,
      sharesForAmount amount rate = .ok asked ∧ assetsForShares shares rate = .ok paid ∧
      assetsForMint shares rate = .ok cost ∧ sharesForDeposit amount rate = .ok minted ∧
      assetsForShares minted rate = .ok returned ∧
      (asked ≤ shares ↔ amount ≤ paid) ∧ (cost ≤ amount ↔ shares ≤ minted) ∧
      returned ≤ amount := by
  have hScale : rateScale ≠ 0 := by decide
  have hSome : rate ≠ 0 := Nat.ne_of_gt hRate
  obtain ⟨asked, hAsked⟩ := Amount.mulDivCeil_ok hAmount hSome
  obtain ⟨cost, hCost⟩ := Amount.mulDivCeil_ok hShares hScale
  have hPaid := Amount.mulDiv_eq_ok.2 ⟨hShares, hScale, rfl⟩
  have hMinted := Amount.mulDiv_eq_ok.2 ⟨hAmount, hSome, rfl⟩
  obtain ⟨returned, hReturned, hLess⟩ := paid_back_le hMinted
  exact ⟨asked, _, cost, _, returned, hAsked, hPaid, hCost, hMinted, hReturned,
    Amount.mulDivCeil_le_iff_le_mulDiv hAsked hPaid,
    Amount.mulDivCeil_le_iff_le_mulDiv hCost hMinted, hLess⟩

/-- At the least rate, the largest number of shares pays the largest amount that is in range on the
scale of rates. The amount does not mint all of these shares, and one unit more is asked for them.
-/
theorem conversions_adjoint_at_bound :
    let shares : Amount := Amount.bound - 1
    let amount : Amount := shares / rateScale
    0 < 1 ∧ amount * rateScale < Amount.bound ∧ shares * 1 < Amount.bound ∧
      sharesForAmount amount 1 = .ok (amount * rateScale) ∧
      assetsForShares shares 1 = .ok amount ∧ assetsForMint shares 1 = .ok (amount + 1) ∧
      sharesForDeposit amount 1 = .ok (amount * rateScale) ∧
      assetsForShares (amount * rateScale) 1 = .ok amount ∧
      (amount * rateScale ≤ shares ↔ amount ≤ amount) ∧
      (amount + 1 ≤ amount ↔ shares ≤ amount * rateScale) ∧ amount ≤ amount := by
  intro shares amount
  have hAmount : amount * rateScale < Amount.bound := by decide
  have hShares : shares * 1 < Amount.bound := by decide
  have hAsked : sharesForAmount amount 1 = .ok (amount * rateScale) :=
    Amount.mulDivCeil_eq_ok.2 (by decide)
  have hPaid : assetsForShares shares 1 = .ok amount :=
    Amount.mulDiv_eq_ok.2 (by decide)
  have hCost : assetsForMint shares 1 = .ok (amount + 1) :=
    Amount.mulDivCeil_eq_ok.2 (by decide)
  have hMinted : sharesForDeposit amount 1 = .ok (amount * rateScale) :=
    Amount.mulDiv_eq_ok.2 (by decide)
  have hReturned : assetsForShares (amount * rateScale) 1 = .ok amount :=
    Amount.mulDiv_eq_ok.2 (by decide)
  obtain ⟨_, _, _, _, _, hAsked', hPaid', hCost', hMinted', hReturned', hTakes, hGives, hLess⟩ :=
    conversions_adjoint Nat.one_pos hAmount hShares
  cases hAsked.symm.trans hAsked'
  cases hPaid.symm.trans hPaid'
  cases hCost.symm.trans hCost'
  cases hMinted.symm.trans hMinted'
  cases hReturned.symm.trans hReturned'
  exact ⟨Nat.one_pos, hAmount, hShares, hAsked, hPaid, hCost, hMinted, hReturned, hTakes, hGives,
    hLess⟩

end Treasury.Rate
