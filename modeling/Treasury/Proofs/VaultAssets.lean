import Treasury.Proofs.Holdings
import Treasury.Proofs.Pricing
import Treasury.Proofs.Terms

/-! What yield vaults hold, and what a share of one is worth. Each deposit and each withdrawal
leaves a share worth at least what it was, as long as there are shares. A vault never has more
shares out than it holds units of its asset, so there is something behind them. -/
namespace Treasury

open Exec Chain

namespace Yield

variable {c : Chain} {v t : Address} {n m : Nat} {y : Vault} {entry : String}
  {round : Amount → Amount → Amount → Result Amount}

section Quotes

variable (hy : c.contract? v = some (.yieldVault y)) (hAsset : y.asset = some t)

include hy

theorem supply_eq : c.supply v = y.ledger.supply := by
  rw [Chain.supply, books?_of_contract? hy]
  rfl

include hAsset

theorem totalAssets_eq : totalAssets v c = Token.balanceOf t v c := by
  have hLoad : (View.callee "total_assets" v : View Vault) c = .ok y := View.callee_eq_ok.2 hy
  rw [totalAssets, View.bind_of_ok hLoad, hAsset]
  rfl

/-- A vault turns assets into shares one for one while no shares are out, and then at the price of
its shares. -/
theorem sharesFor_eq : sharesFor round entry v n c = if c.supply v = 0 then .ok n
    else Token.balanceOf t v c >>= fun held => round n (c.supply v) held := by
  have hLoad : (View.callee entry v : View Vault) c = .ok y := View.callee_eq_ok.2 hy
  rw [sharesFor, View.bind_of_ok hLoad, supply_eq hy]
  split
  · rfl
  · rw [View.bind_apply, totalAssets_eq hy hAsset]
    rfl

theorem assetsFor_eq : assetsFor round entry v n c = if c.supply v = 0 then .ok n
    else Token.balanceOf t v c >>= fun held => round n held (c.supply v) := by
  have hLoad : (View.callee entry v : View Vault) c = .ok y := View.callee_eq_ok.2 hy
  rw [assetsFor, View.bind_of_ok hLoad, supply_eq hy]
  split
  · rfl
  · rw [View.bind_apply, totalAssets_eq hy hAsset]
    rfl

theorem sharesFor_spec (h : sharesFor round entry v n c = .ok m) :
    c.supply v = 0 ∧ m = n ∨
      c.supply v ≠ 0 ∧ round n (c.supply v) (c.balance t v) = .ok m := by
  rw [sharesFor_eq hy hAsset] at h
  split at h
  · next hNone =>
    cases h
    exact .inl ⟨hNone, rfl⟩
  · next hSome =>
    obtain ⟨held, hHeld, hRound⟩ := Result.bind_eq_ok.1 h
    rw [← Token.balanceOf_ok hHeld] at hRound
    exact .inr ⟨hSome, hRound⟩

theorem assetsFor_spec (h : assetsFor round entry v n c = .ok m) :
    c.supply v = 0 ∧ m = n ∨
      c.supply v ≠ 0 ∧ round n (c.balance t v) (c.supply v) = .ok m := by
  rw [assetsFor_eq hy hAsset] at h
  split at h
  · next hNone =>
    cases h
    exact .inl ⟨hNone, rfl⟩
  · next hSome =>
    obtain ⟨held, hHeld, hRound⟩ := Result.bind_eq_ok.1 h
    rw [← Token.balanceOf_ok hHeld] at hRound
    exact .inr ⟨hSome, hRound⟩

end Quotes

end Yield

/-- A yield vault at `v` over the token at `t`, which is a stable token or does not stand yet. -/
structure Chain.Vault (c : Chain) (v t : Address) : Prop where
  terms : c.terms? v = some (.yieldVault, [some t])
  token : c.kind? t = none ∨ c.kind? t = some .stable

/-- The vault at `v` has no more shares out than it holds of the token at `t`, and lets nobody take
any of that. -/
structure Chain.Covers (c : Chain) (v t : Address) : Prop where
  enough : c.supply v ≤ c.balance t v
  reserved : ∀ spender, c.allowance t v spender = 0

/-- A share of the vault at `v` is worth no less of the token at `t` than it was. -/
def Chain.Lifts (v t : Address) (c c' : Chain) : Prop :=
  c.balance t v * c'.supply v ≤ c'.balance t v * c.supply v

namespace Chain

variable {c c' c₁ : Chain} {v t b x user owner : Address} {n shares : Nat} {joins leaves : Prop}

namespace Vault

theorem of_contract {y : Yield.Vault} (hy : c.contract? v = some (.yieldVault y))
    (hAsset : y.asset = some t) (hUnit : c.kind? t = some .stable) : c.Vault v t := by
  refine ⟨?_, .inr hUnit⟩
  rw [terms?, hy, Option.map_some, Contract.terms, hAsset]

theorem contract (h : c.Vault v t) :
    ∃ y, c.contract? v = some (.yieldVault y) ∧ y.asset = some t := by
  obtain ⟨x, hx, hTerms⟩ := Option.map_eq_some_iff.1 h.terms
  obtain ⟨y, rfl, hAsset⟩ := Contract.eq_of_terms_yieldVault (y := { asset := some t }) hTerms
  exact ⟨y, hx, hAsset⟩

theorem kind (h : c.Vault v t) : c.kind? v = some .yieldVault := by
  obtain ⟨y, hy, -⟩ := h.contract
  exact kind?_of_contract? hy

theorem ne_of_kind (h : c.Vault v t) {k : Contract.Kind} (hx : c.kind? x = some k)
    (hKind : k ≠ .yieldVault) : x ≠ v := by
  rintro rfl
  exact hKind (Option.some.inj (hx.symm.trans h.kind))

/-- Those who give away or lend what they have are not the vault. -/
theorem ne_of_lender (h : c.Vault v t) (hx : c.Desk x ∨ c.kind? x = some .wrapped) : x ≠ v := by
  rcases hx with (hRouter | hCustody) | hWrapped
  · exact h.ne_of_kind hRouter (by simp)
  · exact h.ne_of_kind hCustody (by simp)
  · exact h.ne_of_kind hWrapped (by simp)

theorem holds (h : c.Vault v t) (hCovers : c.Covers v t) : c.Holds v t :=
  ⟨⟨_, by simp, h.kind⟩, h.token, hCovers.reserved⟩

/-- A vault goes on to be one while its settings stay. -/
theorem turns (h : c.Vault v t) (hTurns : Turns v t joins leaves c c') : c'.Vault v t := by
  obtain ⟨hSettings, hToken⟩ := hTurns.settings
  refine ⟨?_, hToken ▸ h.token⟩
  have hTerms := congrArg (Option.map Contract.terms) hSettings
  simp only [Option.map_map, Function.comp_def, Contract.terms_bare] at hTerms
  exact hTerms.trans h.terms

end Vault

namespace Lifts

/-- As long as there are shares in between, what does not fall twice does not fall. -/
theorem trans (hFirst : Lifts v t c c₁) (hSome : c₁.supply v ≠ 0) (hThen : Lifts v t c₁ c') :
    Lifts v t c c' := by
  refine Nat.le_of_mul_le_mul_right ?_ (Nat.pos_of_ne_zero hSome)
  calc c.balance t v * c'.supply v * c₁.supply v
      = c.balance t v * c₁.supply v * c'.supply v := Nat.mul_right_comm _ _ _
    _ ≤ c₁.balance t v * c.supply v * c'.supply v := Nat.mul_le_mul_right _ hFirst
    _ = c₁.balance t v * c'.supply v * c.supply v := Nat.mul_right_comm _ _ _
    _ ≤ c'.balance t v * c₁.supply v * c.supply v := Nat.mul_le_mul_right _ hThen
    _ = c'.balance t v * c.supply v * c₁.supply v := Nat.mul_right_comm _ _ _

/-- What is enough for all shares stays enough while a share is worth no less. -/
theorem enough (h : Lifts v t c c') (hSome : c.supply v ≠ 0)
    (hEnough : c.supply v ≤ c.balance t v) : c'.supply v ≤ c'.balance t v := by
  refine Nat.le_of_mul_le_mul_right ?_ (Nat.pos_of_ne_zero hSome)
  calc c'.supply v * c.supply v = c.supply v * c'.supply v := Nat.mul_comm _ _
    _ ≤ c.balance t v * c'.supply v := Nat.mul_le_mul_right _ hEnough
    _ ≤ c'.balance t v * c.supply v := h

end Lifts

theorem Undiminished.lifts (h : Undiminished v t c c') : Lifts v t c c' := by
  rw [Lifts, h.supply]
  exact Nat.mul_le_mul_right _ h.balance

namespace Vault

/-- While there are shares, those that a vault issues cost at least what they are worth. -/
theorem lifts_joined {holder : Address} (hVault : c.Vault v t) (h : c.Covers v t)
    (hSome : c.supply v ≠ 0) (hPrice : c.Issues v b n shares)
    (hMove : c.Moves b (.transferFrom v owner v n) c₁)
    (hMint : c₁.PoolKeeps v (·.mint holder shares) c') : Lifts v t c c' := by
  obtain ⟨y, hy, hAsset⟩ := hVault.contract
  cases hPrice with
  | fixedRate hPool | synthetic hPool => simp [hPool] at hy
  | yieldVault hPool hToken hShares =>
    obtain ⟨⟩ := Option.some.inj (hy.symm.trans hPool)
    obtain rfl : t = b := Option.some.inj (hAsset.symm.trans hToken)
    obtain ⟨hSupply, hHeld⟩ := joined_spec (hVault.holds h) hMove hMint
    obtain ⟨hNone, -⟩ | ⟨-, hRound⟩ := Yield.sharesFor_spec hy hAsset hShares
    · exact absurd hNone hSome
    have hBehind : c.balance t v ≠ 0 := fun hNothing =>
      hSome (Nat.le_zero.1 (hNothing ▸ h.enough))
    rw [Yield.convert, if_neg hBehind] at hRound
    have hCost := Amount.mulDiv_mul_le hRound
    rw [Lifts, hSupply, hHeld, Nat.mul_add, Nat.add_mul, Nat.mul_comm _ shares]
    exact Nat.add_le_add_left hCost _

/-- The first shares cost as many units as they are. -/
theorem enough_joined {holder : Address} (hVault : c.Vault v t) (h : c.Covers v t)
    (hNone : c.supply v = 0) (hPrice : c.Issues v b n shares)
    (hMove : c.Moves b (.transferFrom v owner v n) c₁)
    (hMint : c₁.PoolKeeps v (·.mint holder shares) c') : c'.supply v ≤ c'.balance t v := by
  obtain ⟨y, hy, hAsset⟩ := hVault.contract
  cases hPrice with
  | fixedRate hPool | synthetic hPool => simp [hPool] at hy
  | yieldVault hPool hToken hShares =>
    obtain ⟨⟩ := Option.some.inj (hy.symm.trans hPool)
    obtain rfl : t = b := Option.some.inj (hAsset.symm.trans hToken)
    obtain ⟨hSupply, hHeld⟩ := joined_spec (hVault.holds h) hMove hMint
    obtain ⟨-, rfl⟩ | ⟨hNot, -⟩ := Yield.sharesFor_spec hy hAsset hShares
    · omega
    · exact absurd hNone hNot

/-- A vault pays no more for shares than they are worth. -/
theorem lifts_left {receiver : Address} {act : Token.Ledger → Result Token.Ledger}
    (hVault : c.Vault v t) (h : c.Covers v t) (hSome : c.supply v ≠ 0)
    (hPrice : c.Pays v b shares n) (hTakes : c.Takes user v shares act)
    (hTake : c.PoolKeeps v act c₁) (hMove : c₁.Moves b (.transfer v receiver n) c') :
    Lifts v t c c' := by
  obtain ⟨y, hy, hAsset⟩ := hVault.contract
  cases hPrice with
  | fixedRate hPool | synthetic hPool => simp [hPool] at hy
  | yieldVault hPool hToken hPaid =>
    obtain ⟨⟩ := Option.some.inj (hy.symm.trans hPool)
    obtain rfl : t = b := Option.some.inj (hAsset.symm.trans hToken)
    obtain ⟨hSupply, hHeld⟩ := left_spec (hVault.holds h) hTakes hTake hMove
    obtain ⟨hNone, -⟩ | ⟨-, hRound⟩ := Yield.assetsFor_spec hy hAsset hPaid
    · exact absurd hNone hSome
    rw [Yield.convert, if_neg hSome] at hRound
    have hWorth := Amount.mulDiv_mul_le hRound
    refine Nat.le_of_add_le_add_right (b := shares * c.balance t v) ?_
    calc c.balance t v * c'.supply v + shares * c.balance t v
        = c.balance t v * c.supply v := by rw [Nat.mul_comm shares, ← Nat.mul_add, hSupply]
      _ ≤ (c'.balance t v + n) * c.supply v := Nat.mul_le_mul_right _ hHeld
      _ = c'.balance t v * c.supply v + n * c.supply v := Nat.add_mul _ _ _
      _ ≤ c'.balance t v * c.supply v + shares * c.balance t v := Nat.add_le_add_left hWorth _

end Vault

namespace Turns

/-- Whatever a vault goes through, it goes on to hold enough for its shares. -/
theorem covers (h : Turns v t joins leaves c c') (hVault : c.Vault v t) (hCovers : c.Covers v t) :
    c'.Covers v t := by
  refine ⟨?_, (h.holds (hVault.holds hCovers)).reserved⟩
  induction h with
  | kept h =>
    rw [h.supply]
    exact Nat.le_trans hCovers.enough h.balance
  | trans hFirst _ ihFirst ihThen =>
    have hReserved := (hFirst.holds (hVault.holds hCovers)).reserved
    exact ihThen (hVault.turns hFirst) ⟨ihFirst hVault hCovers, hReserved⟩
  | @joined c _ _ _ _ _ _ _ _ hPrice hMove hMint =>
    by_cases hSome : c.supply v = 0
    · exact hVault.enough_joined hCovers hSome hPrice hMove hMint
    · exact (hVault.lifts_joined hCovers hSome hPrice hMove hMint).enough hSome hCovers.enough
  | @left c c₁ _ _ _ _ _ _ _ _ hPrice hTakes hTake hMove =>
    by_cases hSome : c.supply v = 0
    · have hLess := hTake.supply_takes hTakes
      have hNone : c₁.supply v = 0 := by omega
      rw [hMove.supply, hNone]
      exact Nat.zero_le _
    · exact (hVault.lifts_left hCovers hSome hPrice hTakes hTake hMove).enough hSome hCovers.enough

/-- While a vault only issues shares, none are worth less than before. -/
theorem lifts_of_joins (h : Turns v t joins False c c') (hVault : c.Vault v t)
    (hCovers : c.Covers v t) :
    c.supply v ≤ c'.supply v ∧ (c.supply v ≠ 0 → Lifts v t c c') := by
  induction h with
  | kept h => exact ⟨Nat.le_of_eq h.supply.symm, fun _ => h.lifts⟩
  | trans hFirst _ ihFirst ihThen =>
    obtain ⟨hMore, hLifts⟩ := ihFirst hVault hCovers
    obtain ⟨hMore', hLifts'⟩ := ihThen (hVault.turns hFirst) (hFirst.covers hVault hCovers)
    refine ⟨Nat.le_trans hMore hMore', fun hSome => ?_⟩
    have hStill := Nat.ne_of_gt (Nat.lt_of_lt_of_le (Nat.pos_of_ne_zero hSome) hMore)
    exact (hLifts hSome).trans hStill (hLifts' hStill)
  | joined _ hPrice hMove hMint =>
    refine ⟨?_, fun hSome => hVault.lifts_joined hCovers hSome hPrice hMove hMint⟩
    rw [hMint.supply_mint, hMove.supply]
    exact Nat.le_add_right _ _
  | left hMay => exact hMay.elim

/-- While a vault only takes shares back, none that stay are worth less than before. -/
theorem lifts_of_leaves (h : Turns v t False leaves c c') (hVault : c.Vault v t)
    (hCovers : c.Covers v t) :
    c'.supply v ≤ c.supply v ∧ (c'.supply v ≠ 0 → Lifts v t c c') := by
  induction h with
  | kept h => exact ⟨Nat.le_of_eq h.supply, fun _ => h.lifts⟩
  | trans hFirst _ ihFirst ihThen =>
    obtain ⟨hLess, hLifts⟩ := ihFirst hVault hCovers
    obtain ⟨hLess', hLifts'⟩ := ihThen (hVault.turns hFirst) (hFirst.covers hVault hCovers)
    refine ⟨Nat.le_trans hLess' hLess, fun hSome => ?_⟩
    have hStill := Nat.ne_of_gt (Nat.lt_of_lt_of_le (Nat.pos_of_ne_zero hSome) hLess')
    exact (hLifts hStill).trans hStill (hLifts' hSome)
  | joined hMay => exact hMay.elim
  | left _ hPrice hTakes hTake hMove =>
    have hLess := hTake.supply_takes hTakes
    have hSame := hMove.supply v
    refine ⟨by omega, fun hSome => ?_⟩
    exact hVault.lifts_left hCovers (by omega) hPrice hTakes hTake hMove

end Turns

end Chain

section Steps

variable {user v t : Address} {c c' : Chain}

theorem Flow.covers (hFlow : Flow user c c') (hUser : user ≠ v) (hVault : c.Vault v t)
    (h : c.Covers v t) : c'.Covers v t :=
  (hFlow.turns hUser (hVault.holds h)).covers hVault h

/-- Whatever is done with the chain, a contract that stands keeps its terms. -/
theorem Chain.Leads.terms? (h : c.Leads user c') (hBuilt : v ∉ c.blank)
    (hStands : c.kind? v ≠ none) : c'.terms? v = c.terms? v := by
  cases h.advances with
  | effect hEffect => exact hEffect.terms? hBuilt
  | governed hSame | rewired hSame => exact hSame.terms? v
  | gains hGains =>
    have hNe := hGains.ne_of_stands hStands
    rw [Chain.terms?, Chain.terms?, hGains.contracts, if_neg hNe]
  | skipped => rfl

/-- A vault that stands before and after something is done with the chain was the same vault
before. -/
theorem Chain.Leads.vault (h : c.Leads user c') (hBuilt : v ∉ c'.blank) (hVault : c'.Vault v t)
    (hStands : c.kind? v ≠ none) : c.Vault v t :=
  ⟨(h.terms? (mt h.advances.blank hBuilt) hStands).symm.trans hVault.terms,
    h.token_before hVault.token⟩

end Steps

/-- In a run of accounts a vault holds something between calls. -/
theorem Run.holds_of_vault {Kept : Chain → Prop} {c : Chain} {v t : Address}
    (h : Run Address.IsAccount Kept c) (hVault : c.Vault v t) : c.Holds v t :=
  h.holds ⟨_, by simp, hVault.kind⟩ hVault.token

/-- In a run of accounts a yield vault that was constructed when it was deployed never has more
shares out than it holds. -/
theorem Run.covers {Kept : Chain → Prop} {c : Chain} {v t : Address}
    (h : Run Address.IsAccount Kept c) (hVault : c.Vault v t) (hBuilt : v ∉ c.blank) :
    c.Covers v t := by
  refine ⟨?_, (h.holds_of_vault hVault).reserved⟩
  induction h with
  | start => cases hVault.terms
  | @step c c' user hRun hUser hLeads hKept ih =>
    rcases hLeads.kind_before hVault.kind with hKind | ⟨x, hGains⟩
    · have hStands : c.kind? v ≠ none := hKind ▸ Option.some_ne_none _
      have hBefore := hLeads.vault hBuilt hVault hStands
      have hBuilt' : v ∉ c.blank := mt hLeads.advances.blank hBuilt
      have hHolds := hRun.holds_of_vault hBefore
      have hCovers : c.Covers v t := ⟨ih hBefore hBuilt', hHolds.reserved⟩
      have hOther : user ≠ v := hRun.ne_of_stands hUser hStands
      rcases hLeads.flow_or_undiminished hOther hBuilt' hHolds with hFlow | hKept
      · exact (hFlow.covers hOther hBefore hCovers).enough
      · rw [hKept.supply]
        exact Nat.le_trans hCovers.enough hKept.balance
    · rw [hGains.supply_eq_zero]
      exact Nat.zero_le _

end Treasury
