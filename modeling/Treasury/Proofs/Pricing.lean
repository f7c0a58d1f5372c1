import Treasury.Proofs.Fees
import Treasury.Proofs.Wiring

/-! How the share token prices shares. Every price but that of shares that do not exist is found
from the backing, which is all managed value less the shortfall. -/
namespace Treasury

open Exec Chain

namespace ShareToken

variable {t : ShareToken} {token router : Address} {c : Chain} {b shares assets n : Amount}

theorem backing_eq_ok (hRouter : t.router = some router) :
    t.backing c = .ok b ↔ ∃ s nav, c.contract? router = some (.router s) ∧
      Router.totalManagedAssets router c = .ok nav ∧ nav - s.shortfall = b := by
  simp only [backing, hRouter, Router.tokenBacking, View.bind_eq_ok, View.callee_eq_ok,
    View.pure_apply, Except.ok.injEq]
  constructor
  · rintro ⟨s, hs, nav, hNav, hb⟩
    exact ⟨s, nav, hs, hNav, hb⟩
  · rintro ⟨s, nav, hs, hNav, hb⟩
    exact ⟨s, hs, nav, hNav, hb⟩

/-- Shares that exist are worth their part of the backing, rounded down. -/
theorem worth_spec (h : t.worth shares c = .ok n) (hSupply : t.ledger.supply ≠ 0) :
    ∃ b, t.backing c = .ok b ∧ Amount.mulDiv shares b t.ledger.supply = .ok n := by
  rw [worth, if_neg hSupply, View.bind_eq_ok] at h
  exact h

theorem sharesFor_spec (h : t.sharesFor assets c = .ok n) : ∃ b, t.backing c = .ok b := by
  rw [sharesFor, View.bind_eq_ok] at h
  obtain ⟨b, hb, -⟩ := h
  exact ⟨b, hb⟩

/-- Assets cost their part of the supply, rounded up, unless there is no supply or no backing. -/
theorem sharesToTake_spec (h : t.sharesToTake assets c = .ok n) :
    ∃ b, t.backing c = .ok b ∧ ((t.ledger.supply = 0 ∨ b = 0) ∧ n = assets ∨
      t.ledger.supply ≠ 0 ∧ b ≠ 0 ∧ Amount.mulDivCeil assets t.ledger.supply b = .ok n) := by
  rw [sharesToTake, View.bind_eq_ok] at h
  obtain ⟨b, hb, h⟩ := h
  refine ⟨b, hb, ?_⟩
  split at h
  · next hOne =>
    cases h
    exact .inl ⟨hOne, rfl⟩
  · next hPart =>
    rw [not_or] at hPart
    exact .inr ⟨hPart.1, hPart.2, h⟩

theorem previewDeposit_eq_ok (hToken : c.contract? token = some (.share t)) :
    previewDeposit token assets c = .ok n ↔ t.sharesFor assets c = .ok n := by
  simp only [previewDeposit, View.bind_eq_ok, View.contract_eq_ok, hToken, Option.some.injEq,
    exists_eq_left']

theorem previewWithdraw_eq_ok (hToken : c.contract? token = some (.share t)) :
    previewWithdraw token assets c = .ok n ↔ t.sharesToTake assets c = .ok n := by
  simp only [previewWithdraw, View.bind_eq_ok, View.contract_eq_ok, hToken, Option.some.injEq,
    exists_eq_left']

theorem previewRedeem_eq_ok (hToken : c.contract? token = some (.share t)) :
    previewRedeem token shares c = .ok n ↔ t.netWorth shares c = .ok n := by
  simp only [previewRedeem, View.bind_eq_ok, View.contract_eq_ok, hToken, Option.some.injEq,
    exists_eq_left']

theorem totalAssets_eq_ok (hToken : c.contract? token = some (.share t)) :
    totalAssets token c = .ok b ↔ t.backing c = .ok b := by
  simp only [totalAssets, View.bind_eq_ok, View.contract_eq_ok, hToken, Option.some.injEq,
    exists_eq_left']

theorem convertToAssets_eq_ok (hToken : c.contract? token = some (.share t)) :
    convertToAssets token shares c = .ok n ↔ t.worth shares c = .ok n := by
  simp only [convertToAssets, View.bind_eq_ok, View.contract_eq_ok, hToken, Option.some.injEq,
    exists_eq_left']

/-- Shares that exist are not worth more than their part. -/
theorem worth_le (h : t.worth shares c = .ok n) (hSupply : t.ledger.supply ≠ 0) :
    ∃ b, t.backing c = .ok b ∧ n * t.ledger.supply ≤ shares * b := by
  obtain ⟨b, hb, hPart⟩ := worth_spec h hSupply
  exact ⟨b, hb, Amount.mulDiv_mul_le hPart⟩

/-- Assets get no more than their part of the supply. Without a backing that says nothing. -/
theorem sharesFor_le (h : t.sharesFor assets c = .ok n) (hSupply : t.ledger.supply ≠ 0) :
    ∃ b, t.backing c = .ok b ∧ n * b ≤ assets * t.ledger.supply := by
  rw [sharesFor, View.bind_eq_ok] at h
  obtain ⟨b, hb, h⟩ := h
  refine ⟨b, hb, ?_⟩
  split at h
  · next hOne =>
    have hNone : b = 0 := hOne.resolve_left hSupply
    rw [hNone, Nat.mul_zero]
    exact Nat.zero_le _
  · exact Amount.mulDiv_mul_le h

/-- While there is a backing, assets cost their part of the supply. Without one they cost their own
number. -/
theorem le_sharesToTake (h : t.sharesToTake assets c = .ok n) (hSupply : t.ledger.supply ≠ 0) :
    ∃ b, t.backing c = .ok b ∧ (b ≠ 0 → assets * t.ledger.supply ≤ n * b) ∧
      (b = 0 → n = assets) := by
  obtain ⟨b, hb, hCases⟩ := sharesToTake_spec h
  refine ⟨b, hb, fun hBacked => ?_, fun hNone => ?_⟩
  · obtain ⟨hNone | hNone, -⟩ | ⟨-, -, hPart⟩ := hCases
    · exact absurd hNone hSupply
    · exact absurd hNone hBacked
    · exact Amount.le_mulDivCeil_mul hPart
  · obtain ⟨-, hSame⟩ | ⟨-, hBacked, -⟩ := hCases
    · exact hSame
    · exact absurd hNone hBacked

/-- Shares that nothing backs pay nothing. -/
theorem netWorth_of_unbacked (h : t.netWorth shares c = .ok n) (hSupply : t.ledger.supply ≠ 0)
    (hBacking : t.backing c = .ok 0) : n = 0 := by
  simp only [netWorth, Router.previewFee, View.bind_eq_ok, View.lift_apply, View.pure_apply,
    Except.ok.injEq] at h
  obtain ⟨gross, hGross, router, -, split, ⟨s, -, hSplit⟩, rfl⟩ := h
  obtain ⟨b, hb, hLess⟩ := worth_le hGross hSupply
  obtain rfl : b = 0 := Except.ok.inj (hb.symm.trans hBacking)
  rw [Nat.mul_zero, Nat.le_zero, Nat.mul_eq_zero] at hLess
  obtain rfl := hLess.resolve_right hSupply
  exact Nat.le_zero.1 (Fee.net_le hSplit)

end ShareToken

namespace Wiring.Complete

variable {w : Wiring} {c : Chain} {assets n : Amount}

/-- Whoever finds the backing finds all managed value. -/
theorem managed_of_backing (h : w.Complete c) {t : ShareToken} {b : Amount}
    (ht : c.contract? w.share = some (.share t)) (hBacking : t.backing c = .ok b) :
    ∃ nav, Router.totalManagedAssets w.router c = .ok nav := by
  obtain ⟨t', ht', hRouter⟩ := h.share
  obtain rfl : t = t' := storage_unique ht ht'
  obtain ⟨-, nav, -, hNav, -⟩ := (ShareToken.backing_eq_ok hRouter).1 hBacking
  exact ⟨nav, hNav⟩

theorem managed_of_previewWithdraw (h : w.Complete c)
    (hQuote : ShareToken.previewWithdraw w.share assets c = .ok n) :
    ∃ nav, Router.totalManagedAssets w.router c = .ok nav := by
  obtain ⟨t, ht, -⟩ := h.share
  obtain ⟨b, hBacking, -⟩ :=
    ShareToken.sharesToTake_spec ((ShareToken.previewWithdraw_eq_ok ht).1 hQuote)
  exact h.managed_of_backing ht hBacking

theorem managed_of_previewDeposit (h : w.Complete c)
    (hQuote : ShareToken.previewDeposit w.share assets c = .ok n) :
    ∃ nav, Router.totalManagedAssets w.router c = .ok nav := by
  obtain ⟨t, ht, -⟩ := h.share
  obtain ⟨b, hBacking⟩ :=
    ShareToken.sharesFor_spec ((ShareToken.previewDeposit_eq_ok ht).1 hQuote)
  exact h.managed_of_backing ht hBacking

end Wiring.Complete

end Treasury
