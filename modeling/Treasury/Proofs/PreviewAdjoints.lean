import Treasury.Proofs.Rounding
import Treasury.Proofs.ShareRate

/-! Previews of a yield vault. What is quoted for taking assets out, or for minting shares, is
rounded up; what is quoted for shares or for a deposit is rounded down at the same price. So each
quote of the first kind is enough, and is the least that is, by the quote of the second kind. -/
namespace Treasury

open Exec Chain

namespace Yield

variable {c : Chain} {v t : Address} {n : Amount} {y : Vault} {entry : String}
  {round : Amount → Amount → Amount → Result Amount} (hy : c.contract? v = some (.yieldVault y))
  (hAsset : y.asset = some t)

include hy hAsset

theorem sharesFor_of_empty (hNone : c.supply v = 0) : sharesFor round entry v n c = .ok n := by
  rw [sharesFor_eq hy hAsset, if_pos hNone]

theorem assetsFor_of_empty (hNone : c.supply v = 0) : assetsFor round entry v n c = .ok n := by
  rw [assetsFor_eq hy hAsset, if_pos hNone]

variable (hUnit : c.kind? t = some .stable) (hSome : c.supply v ≠ 0)

include hUnit hSome

theorem sharesFor_of_supply :
    sharesFor round entry v n c = round n (c.supply v) (c.balance t v) := by
  rw [sharesFor_eq hy hAsset, if_neg hSome, Token.balanceOf_stable hUnit]
  rfl

theorem assetsFor_of_supply :
    assetsFor round entry v n c = round n (c.balance t v) (c.supply v) := by
  rw [assetsFor_eq hy hAsset, if_neg hSome, Token.balanceOf_stable hUnit]
  rfl

end Yield

/-- In a run of accounts, a vault over a stable token has quotes for all amounts for which nothing
overflows. What is quoted for taking assets out is no more than some shares just if the assets are
no more than these shares pay, and what is quoted for minting shares is no more than some assets
just if the shares are no more than these assets mint. -/
theorem Run.previews_adjoint {c : Chain} {v t : Address} {y : Yield.Vault} {assets shares : Amount}
    (hRun : Run Address.IsAccount (fun _ => True) c)
    (hy : c.contract? v = some (.yieldVault y)) (hAsset : y.asset = some t)
    (hUnit : c.kind? t = some .stable) (hBuilt : v ∉ c.blank)
    (hWithdraw : Yield.previewWithdraw v assets c ≠ .error .overflow)
    (hRedeem : Yield.previewRedeem v shares c ≠ .error .overflow)
    (hMint : Yield.previewMint v shares c ≠ .error .overflow)
    (hDeposit : Yield.previewDeposit v assets c ≠ .error .overflow) :
    ∃ burned paid cost minted,
      Yield.previewWithdraw v assets c = .ok burned ∧ Yield.previewRedeem v shares c = .ok paid ∧
      Yield.previewMint v shares c = .ok cost ∧ Yield.previewDeposit v assets c = .ok minted ∧
      (burned ≤ shares ↔ assets ≤ paid) ∧ (cost ≤ assets ↔ shares ≤ minted) := by
  have hVault : c.Vault v t := .of_contract hy hAsset hUnit
  simp only [Yield.previewWithdraw, Yield.previewRedeem, Yield.previewMint,
    Yield.previewDeposit] at *
  by_cases hSome : c.supply v = 0
  · simp only [Yield.sharesFor_of_empty hy hAsset hSome, Yield.assetsFor_of_empty hy hAsset hSome]
    exact ⟨assets, shares, shares, assets, rfl, rfl, rfl, rfl, Iff.rfl, Iff.rfl⟩
  · have hHeld : c.balance t v ≠ 0 := by
      have hEnough := (hRun.covers hVault hBuilt).enough
      omega
    simp only [Yield.sharesFor_of_supply hy hAsset hUnit hSome,
      Yield.assetsFor_of_supply hy hAsset hUnit hSome, Yield.convert, Yield.convertCeil,
      if_neg hSome, if_neg hHeld] at *
    obtain ⟨burned, paid, hBurned, hPaid, hTakes⟩ :=
      Amount.mulDivCeil_adjoint hSome hHeld hWithdraw hRedeem
    obtain ⟨cost, minted, hCost, hMinted, hGives⟩ :=
      Amount.mulDivCeil_adjoint hHeld hSome hMint hDeposit
    exact ⟨burned, paid, cost, minted, hBurned, hPaid, hCost, hMinted, hTakes, hGives⟩

/-- Deploy a standard treasury and a yield vault. The vault is given 50 stable while it is empty, and
then an account deposits 100. -/
def Standard.gifted : List Action :=
  opening 0 { admin := .account 0 } ++
    [.deploy 0 (.yieldVault (.account 0) stable),
      .call 0 stable (.stable (.mint pool 50)),
      .call 0 stable (.stable (.mint (.account 1) 100)),
      .call 1 stable (.token (.approve pool 100)),
      .call 1 pool (.yieldVault (.deposit 100 (.account 1)))]

/-- Two shares of such a vault are worth three units. Ten units cost seven shares, which pay ten; but
seven shares cost eleven units to mint, and ten units mint six. -/
theorem Run.previews_adjoint_gifted : ∃ (c : Chain) (y : Yield.Vault),
    Run Address.IsAccount (fun _ => True) c ∧
      c.contract? Standard.pool = some (.yieldVault y) ∧ y.asset = some Standard.stable ∧
      c.kind? Standard.stable = some .stable ∧ Standard.pool ∉ c.blank ∧
      c.Shows Standard.pool 150 100 ∧
      Yield.previewWithdraw Standard.pool 10 c = .ok 7 ∧
      Yield.previewRedeem Standard.pool 7 c = .ok 10 ∧
      Yield.previewMint Standard.pool 7 c = .ok 11 ∧
      Yield.previewDeposit Standard.pool 10 c = .ok 6 ∧
      (7 ≤ 7 ↔ 10 ≤ 10) ∧ (11 ≤ 10 ↔ 7 ≤ 6) := by
  have hEnd : ((Action.follow (fun _ _ => true) {} Standard.gifted).any fun c =>
      c.showsVault Standard.pool Standard.stable 150 100 &&
        ((Yield.previewWithdraw Standard.pool 10 c).toOption == some 7 &&
          (Yield.previewRedeem Standard.pool 7 c).toOption == some 10 &&
          (Yield.previewMint Standard.pool 7 c).toOption == some 11 &&
          (Yield.previewDeposit Standard.pool 10 c).toOption == some 6)) = true := by
    decide +kernel
  obtain ⟨c, hCourse, hHolds⟩ :=
    @Action.exists_course (fun _ _ _ => True) _ _ _ (fun _ _ _ _ => trivial) hEnd
  simp only [Bool.and_eq_true, beq_iff_eq] at hHolds
  obtain ⟨hShown, ⟨⟨hWithdraw, hRedeem⟩, hMint⟩, hDeposit⟩ := hHolds
  obtain ⟨⟨y, hy, hAsset⟩, hUnit, hBuilt, hShows⟩ := of_showsVault hShown
  have hBurned := Result.of_toOption hWithdraw
  have hPaid := Result.of_toOption hRedeem
  have hCost := Result.of_toOption hMint
  have hMinted := Result.of_toOption hDeposit
  obtain ⟨_, _, _, _, hBurned', hPaid', hCost', hMinted', hTakes, hGives⟩ :=
    hCourse.run.previews_adjoint hy hAsset hUnit hBuilt (hBurned.trans_ne (by simp))
      (hPaid.trans_ne (by simp)) (hCost.trans_ne (by simp)) (hMinted.trans_ne (by simp))
  cases hBurned.symm.trans hBurned'
  cases hPaid.symm.trans hPaid'
  cases hCost.symm.trans hCost'
  cases hMinted.symm.trans hMinted'
  exact ⟨c, y, hCourse.run, hy, hAsset, hUnit, hBuilt, hShows, hBurned, hPaid, hCost, hMinted,
    hTakes, hGives⟩

end Treasury
