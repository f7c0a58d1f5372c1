import Treasury.Proofs.Conversion
import Treasury.Proofs.VaultAssets

/-! What adapters quote, and what they do. A fixed-rate adapter keeps the books of its pool itself
and converts at its rate; a wrapped-vault adapter hands everything on to a yield vault, whose price
moves. Either way a deposit and a withdrawal come to what was quoted for them, and the two quotes
that ask for enough do. -/
namespace Treasury

open Exec Chain

/-- The adapter at `x` offers the pool at `p`, for the stable token at `t` and the custody contract
at `k`. -/
inductive Chain.Offers (c : Chain) (t k x : Address) : Address → Prop where
  | fixedRate {s : Strategy.FixedRate} (hx : c.contract? x = some (.fixedRate s))
      (hStable : s.stable = some t) (hCustody : s.custody = some k) : Offers c t k x x
  | wrapped {s : Strategy.Wrapped} {y : Yield.Vault} {v : Address}
      (hx : c.contract? x = some (.wrapped s)) (hStable : s.stable = some t)
      (hCustody : s.custody = some k) (hVault : s.vault = some v)
      (hy : c.contract? v = some (.yieldVault y)) (hAsset : y.asset = some t) : Offers c t k x v

/-- Nothing has changed that the quotes for the pool at `p` look at, but for the pool's books. -/
structure Chain.Prices (c : Chain) (t p : Address) (c' : Chain) : Prop where
  alike : Alike c c'
  supply : c'.supply p = c.supply p
  held : c'.balance t p = c.balance t p

section Contracts

variable {c c' : Chain} {t k x p : Address}

theorem Chain.Alike.wrapped (h : Alike c c') {s : Strategy.Wrapped}
    (hs : c.contract? x = some (.wrapped s)) : c'.contract? x = some (.wrapped s) :=
  h.contract? hs fun y hy => by cases y <;> simp_all [Contract.bare]

theorem Chain.Alike.yieldVault (h : Alike c c') {y : Yield.Vault}
    (hy : c.contract? x = some (.yieldVault y)) :
    ∃ y', c'.contract? x = some (.yieldVault y') ∧ y'.asset = y.asset := by
  obtain ⟨_, hx', hSame⟩ := exists_of_terms? (h.terms? x) hy
  obtain ⟨y', rfl, hAsset⟩ := Contract.eq_of_terms_yieldVault hSame
  exact ⟨y', hx', hAsset⟩

namespace Chain.Offers

/-- An offer stands as long as everyone keeps to the terms. -/
theorem of_terms (h : c.Offers t k x p) (hTerms : ∀ b, c'.terms? b = c.terms? b) :
    c'.Offers t k x p := by
  cases h with
  | fixedRate hx hStable hCustody =>
    obtain ⟨_, hx', hSame⟩ := exists_of_terms? (hTerms x) hx
    obtain ⟨s', rfl, hStable', hCustody'⟩ := Contract.eq_of_terms_fixedRate hSame
    exact .fixedRate hx' (hStable'.trans hStable) (hCustody'.trans hCustody)
  | wrapped hx hStable hCustody hVault hy hAsset =>
    obtain ⟨_, hx', hSame⟩ := exists_of_terms? (hTerms x) hx
    obtain ⟨s', rfl, hStable', hCustody', hVault'⟩ := Contract.eq_of_terms_wrapped hSame
    obtain ⟨_, hy', hSame'⟩ := exists_of_terms? (hTerms p) hy
    obtain ⟨y', rfl, hAsset'⟩ := Contract.eq_of_terms_yieldVault hSame'
    exact .wrapped hx' (hStable'.trans hStable) (hCustody'.trans hCustody) (hVault'.trans hVault)
      hy' (hAsset'.trans hAsset)

theorem alike (h : c.Offers t k x p) (hAlike : Alike c c') : c'.Offers t k x p :=
  h.of_terms hAlike.terms?

/-- The pool keeps books of its own, and is no stable token. -/
theorem pool_kind (h : c.Offers t k x p) :
    c.kind? p = some .fixedRate ∨ c.kind? p = some .yieldVault := by
  cases h with
  | fixedRate hx => exact .inl (kind?_of_contract? hx)
  | wrapped _ _ _ _ hy => exact .inr (kind?_of_contract? hy)

theorem pool_ne (h : c.Offers t k x p) (hUnit : c.kind? t = some .stable) : p ≠ t := by
  rintro rfl
  rcases h.pool_kind with hKind | hKind <;> simp [hUnit] at hKind

end Chain.Offers

end Contracts

namespace Strategy

variable {c : Chain} {x v : Address} {w : Wrapped} {n : Amount}
  (hx : c.contract? x = some (.wrapped w)) (hVault : w.vault = some v)

include hx hVault

theorem previewDeposit_wrapped :
    previewDeposit x n c = Minted.mk v <$> Yield.previewDeposit v n c := by
  rw [previewDeposit, View.bind_of_ok (View.contract_eq_ok.2 hx)]
  simp only [hVault]
  rfl

theorem previewWithdraw_wrapped : previewWithdraw x n c = Yield.previewRedeem v n c := by
  rw [previewWithdraw, View.bind_of_ok (View.contract_eq_ok.2 hx)]
  simp only [hVault]
  rfl

theorem previewShares_wrapped : previewShares x n c = Yield.previewWithdraw v n c := by
  rw [previewShares, View.bind_of_ok (View.contract_eq_ok.2 hx)]
  simp only [hVault]
  rfl

theorem previewMint_wrapped : previewMint x n c = Yield.previewMint v n c := by
  rw [previewMint, View.bind_of_ok (View.contract_eq_ok.2 hx)]
  simp only [hVault]
  rfl

end Strategy

namespace Chain.Offers

open Strategy

variable {c c' : Chain} {t k x p : Address} {n m paid : Nat} {quoted : Minted}

section Vault

variable {y y' : Yield.Vault} {entry : String} {round : Amount → Amount → Amount → Result Amount}
  (hy : c.contract? p = some (.yieldVault y)) (hAsset : y.asset = some t)
  (hy' : c'.contract? p = some (.yieldVault y')) (hAsset' : y'.asset = some t)
  (hUnit : c.kind? t = some .stable) (hPrices : c.Prices t p c')

include hy hAsset hy' hAsset' hUnit hPrices

/-- A vault converts as it did, as long as its supply and what it holds are the same. -/
theorem sharesFor_congr :
    Yield.sharesFor round entry p n c' = Yield.sharesFor round entry p n c := by
  have hUnit' : c'.kind? t = some .stable := (hPrices.alike.kind? t).trans hUnit
  rw [Yield.sharesFor_eq hy hAsset, Yield.sharesFor_eq hy' hAsset', Token.balanceOf_stable hUnit,
    Token.balanceOf_stable hUnit', hPrices.supply, hPrices.held]

theorem assetsFor_congr :
    Yield.assetsFor round entry p n c' = Yield.assetsFor round entry p n c := by
  have hUnit' : c'.kind? t = some .stable := (hPrices.alike.kind? t).trans hUnit
  rw [Yield.assetsFor_eq hy hAsset, Yield.assetsFor_eq hy' hAsset', Token.balanceOf_stable hUnit,
    Token.balanceOf_stable hUnit', hPrices.supply, hPrices.held]

end Vault

/-- An adapter quotes what it did, as long as nothing has changed that its quotes look at. -/
theorem quotes (h : c.Offers t k x p) (hUnit : c.kind? t = some .stable)
    (hPrices : c.Prices t p c') (n : Amount) :
    previewDeposit x n c' = previewDeposit x n c ∧
      previewWithdraw x n c' = previewWithdraw x n c ∧
      previewShares x n c' = previewShares x n c ∧ previewMint x n c' = previewMint x n c := by
  cases h with
  | fixedRate hx =>
    obtain ⟨l, hx'⟩ := hPrices.alike.fixedRate hx
    simp only [previewDeposit_fixedRate hx, previewDeposit_fixedRate hx',
      previewWithdraw_fixedRate hx, previewWithdraw_fixedRate hx',
      previewShares_fixedRate hx, previewShares_fixedRate hx', previewMint_fixedRate hx,
      previewMint_fixedRate hx', and_self]
  | wrapped hx _ _ hVault hy hAsset =>
    have hx' := hPrices.alike.wrapped hx
    obtain ⟨y', hy', hSame⟩ := hPrices.alike.yieldVault hy
    have hAsset' := hSame.trans hAsset
    simp only [previewDeposit_wrapped hx hVault, previewDeposit_wrapped hx' hVault,
      previewWithdraw_wrapped hx hVault, previewWithdraw_wrapped hx' hVault,
      previewShares_wrapped hx hVault, previewShares_wrapped hx' hVault,
      previewMint_wrapped hx hVault, previewMint_wrapped hx' hVault, Yield.previewDeposit,
      Yield.previewRedeem, Yield.previewWithdraw, Yield.previewMint]
    simp only [sharesFor_congr hy hAsset hy' hAsset' hUnit hPrices,
      assetsFor_congr hy hAsset hy' hAsset' hUnit hPrices, and_self]

end Chain.Offers

/-- The pool at `p` takes an amount of stable from a giver, and the keeper is issued shares. -/
structure Chain.TakesIn (c : Chain) (t p keeper giver : Address) (n shares : Nat) (c' : Chain) :
    Prop where
  alike : Alike c c'
  stable : ∀ b, c'.balance t b + (if b = giver then n else 0) =
    c.balance t b + if b = p then n else 0
  shares : ∀ b, c'.balance p b = c.balance p b + if b = keeper then shares else 0
  supply : ∀ b, b ≠ p → c'.supply b = c.supply b

/-- The pool at `p` takes shares back from a taker, and pays it an amount of stable. -/
structure Chain.PaysOut (c : Chain) (t p taker : Address) (shares n : Nat) (c' : Chain) : Prop where
  alike : Alike c c'
  stable : ∀ b, c'.balance t b + (if b = p then n else 0) =
    c.balance t b + if b = taker then n else 0
  shares : ∀ b, c'.balance p b + (if b = taker then shares else 0) = c.balance p b

namespace Chain

variable {c c' c₁ : Chain} {t p x b k giver owner taker : Address} {n m shares : Nat}

theorem PoolKeeps.balance_frame {act : Token.Ledger → Result Token.Ledger}
    (h : c.PoolKeeps p act c') (hNe : t ≠ p) (a : Address) : c'.balance t a = c.balance t a := by
  rw [balance, h.books_frame hNe, balance]

theorem PoolKeeps.balance_burn (h : c.PoolKeeps p (·.burn owner n) c') (a : Address) :
    c'.balance p a + (if a = owner then n else 0) = c.balance p a := by
  obtain ⟨l, l', hl, hBurn, hl'⟩ := h.spec
  simpa only [balance, hl, hl', Option.getD_some] using (Token.Ledger.burn_spec hBurn).1 a

/-- Others move a token that is not the pool's. -/
theorem Moves.balance_frame {move : Token.Move} (h : c.Moves t move c') (hNe : p ≠ t)
    (a : Address) : c'.balance p a = c.balance p a := by
  rw [balance, h.books_frame hNe, balance]

/-- A pool takes stable itself, and issues shares. -/
theorem TakesIn.of_moves (hNe : t ≠ p) (hTake : c.Moves t (.transferFrom p giver p n) c₁)
    (hMint : c₁.PoolKeeps p (·.mint k shares) c') : c.TakesIn t p k giver n shares c' where
  alike := hTake.alike.trans hMint.alike
  stable b := by
    have hMoved := hTake.balance_transferFrom t b
    simp only [true_and] at hMoved
    rw [hMint.balance_frame hNe]
    exact hMoved
  shares b := by
    have hIssued := hMint.balance_mint p b
    simp only [true_and] at hIssued
    rw [hIssued, hTake.balance_frame hNe.symm]
  supply b hb := (hMint.supply_frame hb).trans (hTake.supply b)

/-- A pool takes stable that passes through an adapter, and issues shares. -/
theorem TakesIn.of_passed {c₂ c₃ c₄ : Chain} {before after : Amount} (hNe : t ≠ p)
    (hTake : c.Moves t (.transferFrom x giver x n) c₁)
    (hAllow : c₁.Moves t (.approve x p before) c₂)
    (hHand : c₂.Moves t (.transferFrom p x p n) c₃)
    (hMint : c₃.PoolKeeps p (·.mint k shares) c₄) (hEnd : c₄.Moves t (.approve x p after) c') :
    c.TakesIn t p k giver n shares c' where
  alike := hTake.alike.trans (hAllow.alike.trans
    (hHand.alike.trans (hMint.alike.trans hEnd.alike)))
  stable b := by
    have hFirst := hTake.balance_transferFrom t b
    have hMiddle := hAllow.balance_approve t b
    have hThen := hHand.balance_transferFrom t b
    simp only [true_and] at hFirst hThen
    rw [hEnd.balance_approve, hMint.balance_frame hNe]
    omega
  shares b := by
    have hIssued := hMint.balance_mint p b
    simp only [true_and] at hIssued
    rw [hEnd.balance_frame hNe.symm, hIssued, hHand.balance_frame hNe.symm,
      hAllow.balance_frame hNe.symm, hTake.balance_frame hNe.symm]
  supply b hb := by
    rw [hEnd.supply, hMint.supply_frame hb, hHand.supply, hAllow.supply, hTake.supply]

/-- A pool takes shares back itself, and pays. -/
theorem PaysOut.of_moves {act : Token.Ledger → Result Token.Ledger} (hNe : t ≠ p)
    (hTake : c.PoolKeeps p act c₁)
    (hShares : ∀ b, c₁.balance p b + (if b = taker then shares else 0) = c.balance p b)
    (hPay : c₁.Moves t (.transfer p taker n) c') : c.PaysOut t p taker shares n c' where
  alike := hTake.alike.trans hPay.alike
  stable b := by
    have hPaid := hPay.balance_transfer t b
    simp only [true_and] at hPaid
    rw [hPaid, hTake.balance_frame hNe]
  shares b := by rw [hPay.balance_frame hNe.symm, hShares]

/-- A pool takes shares back that pass through an adapter, and pays. -/
theorem PaysOut.of_passed {c₂ : Chain} (hNe : t ≠ p)
    (hTake : c.Moves p (.transferFrom x taker x shares) c₁)
    (hBurn : c₁.PoolKeeps p (·.burn x shares) c₂) (hPay : c₂.Moves t (.transfer p taker n) c') :
    c.PaysOut t p taker shares n c' where
  alike := hTake.alike.trans (hBurn.alike.trans hPay.alike)
  stable b := by
    have hPaid := hPay.balance_transfer t b
    simp only [true_and] at hPaid
    rw [hPaid, hBurn.balance_frame hNe, hTake.balance_frame hNe]
  shares b := by
    have hMoved := hTake.balance_transferFrom p b
    have hBurnt := hBurn.balance_burn b
    simp only [true_and] at hMoved
    rw [hPay.balance_frame hNe.symm]
    omega

end Chain

section Execution

variable {w : World} {self caller receiver owner : Address} {n : Nat}

namespace Strategy

variable {t k x p : Address} {back : Router.Callback} {locked : List Address} {s : Wrapped}
  {v : Address} {y : Yield.Vault}

/-- A wrapped-vault adapter hands stable on to its vault, which issues the shares. -/
theorem Wrapped.after_deposit_quoted (hx : w.chain.contract? x = some (.wrapped s))
    (hStable : s.stable = some t) (hCustody : s.custody = some k) (hVault : s.vault = some p)
    (hy : w.chain.contract? p = some (.yieldVault y)) (hAsset : y.asset = some t)
    (hUnit : w.chain.kind? t = some .stable) (hCaller : caller ≠ p) :
    After (s.deposit x caller n) w fun minted u =>
      previewDeposit x n w.chain = .ok minted ∧ minted.pool = p ∧ n ≠ 0 ∧
        w.chain.TakesIn t p k caller n minted.shares u.chain := by
  simp only [Wrapped.deposit, after_bind, after_result, ensure_eq_ok, forall_const, known_eq_ok,
    after_pure, hVault, hStable, hCustody, Option.some.injEq, forall_eq']
  intro hAmount _
  refine Token.after_transferFrom.mono fun _ u₁ hTake => ?_
  refine Token.after_approve.mono fun _ u₂ hAllow => ?_
  refine Yield.after_deposit_moves.mono ?_
  rintro m u₃ ⟨y', t', c, hy', hAsset', -, hShares, hHand, hMint⟩
  refine Token.after_approve.mono fun _ u₄ hEnd => ?_
  have hAlike : Alike w.chain u₂.chain := hTake.alike.trans hAllow.alike
  obtain ⟨y₂, hy₂, hSame⟩ := hAlike.yieldVault hy
  obtain rfl : y₂ = y' := storage_unique hy₂ hy'
  obtain rfl : t = t' := Option.some.inj (hAsset.symm.trans (hSame.symm.trans hAsset'))
  have hNe : t ≠ p := by
    rintro rfl
    simp [kind?_of_contract? hy, Contract.kind] at hUnit
  have hOther : p ≠ x := fun hAt => by
    simp [hAt, hx] at hy
  have hPrices : w.chain.Prices t p u₂.chain := by
    refine ⟨hAlike, (hAllow.supply p).trans (hTake.supply p), ?_⟩
    have hFirst := hTake.balance_transferFrom t p
    rw [if_neg fun hAt => hCaller hAt.2.symm, if_neg fun hAt => hOther hAt.2] at hFirst
    exact (hAllow.balance_approve t p).trans hFirst
  have hOffers : w.chain.Offers t k x p := .wrapped hx hStable hCustody hVault hy hAsset
  refine ⟨?_, trivial, hAmount, .of_passed hNe hTake hAllow hHand hMint hEnd⟩
  rw [← (hOffers.quotes hUnit hPrices n).1, previewDeposit_wrapped (hAlike.wrapped hx) hVault,
    hShares]
  rfl

/-- A deposit through an adapter mints what was quoted for it, for the custody contract. -/
theorem after_deposit_quoted (h : w.chain.Offers t k x p) (hUnit : w.chain.kind? t = some .stable)
    (hCaller : caller ≠ p) : After (deposit back locked x caller n) w fun minted u =>
      previewDeposit x n w.chain = .ok minted ∧ minted.pool = p ∧ n ≠ 0 ∧
        w.chain.TakesIn t p k caller n minted.shares u.chain := by
  have hNe := h.pool_ne hUnit
  simp only [deposit, after_entering, after_bind, after_view, View.contract_eq_ok]
  intro found hFound
  cases h with
  | fixedRate hx hStable hCustody =>
    obtain rfl := Option.some.inj (hx.symm.trans hFound)
    refine FixedRate.after_deposit_moves.mono ?_
    rintro _ u ⟨t', k', shares, c, hAmount, hToken, hKeeper, hShares, rfl, hTake, hMint⟩
    obtain rfl : t = t' := Option.some.inj (hStable.symm.trans hToken)
    obtain rfl : k = k' := Option.some.inj (hCustody.symm.trans hKeeper)
    rw [previewDeposit_fixedRate hx, hShares]
    exact ⟨rfl, rfl, hAmount, .of_moves hNe.symm hTake hMint⟩
  | wrapped hx hStable hCustody hVault hy hAsset =>
    obtain rfl := Option.some.inj (hx.symm.trans hFound)
    exact Wrapped.after_deposit_quoted hx hStable hCustody hVault hy hAsset hUnit hCaller

/-- A wrapped-vault adapter takes shares of its vault, which pays for them. -/
theorem Wrapped.after_withdraw_quoted (hx : w.chain.contract? x = some (.wrapped s))
    (hVault : s.vault = some p) (hy : w.chain.contract? p = some (.yieldVault y))
    (hAsset : y.asset = some t) (hUnit : w.chain.kind? t = some .stable) :
    After (s.withdraw x caller n) w fun paid u =>
      previewWithdraw x n w.chain = .ok paid ∧ w.chain.PaysOut t p caller n paid u.chain := by
  simp only [Wrapped.withdraw, after_bind, after_result, ensure_eq_ok, forall_const, known_eq_ok,
    hVault, Option.some.injEq, forall_eq']
  intro _
  refine Token.after_transferFrom.mono fun _ u₁ hTake => ?_
  refine Yield.after_redeem_moves.mono ?_
  rintro paid u₂ ⟨y', t', c, hy', hAsset', hPaid, hTaken, hPay⟩
  simp only [Token.Ledger.burnFrom_self] at hTaken
  obtain ⟨y₁, hy₁, hSame⟩ := hTake.alike.yieldVault hy
  obtain rfl : y₁ = y' := storage_unique hy₁ hy'
  obtain rfl : t = t' := Option.some.inj (hAsset.symm.trans (hSame.symm.trans hAsset'))
  have hNe : t ≠ p := by
    rintro rfl
    simp [kind?_of_contract? hy, Contract.kind] at hUnit
  have hUnit₁ : u₁.chain.kind? t = some .stable := (hTake.alike.kind? t).trans hUnit
  have hPrices : w.chain.Prices t p u₁.chain :=
    ⟨hTake.alike, hTake.supply p, hTake.balance_frame hNe p⟩
  refine ⟨?_, .of_passed hNe hTake hTaken hPay⟩
  rw [previewWithdraw_wrapped hx hVault, ← hPaid]
  exact (Offers.assetsFor_congr hy hAsset hy₁ hAsset' hUnit hPrices).symm

/-- A withdrawal through an adapter pays what was quoted for it, to its caller. -/
theorem after_withdraw_quoted (h : w.chain.Offers t k x p)
    (hUnit : w.chain.kind? t = some .stable) : After (withdraw x caller n) w fun paid u =>
      previewWithdraw x n w.chain = .ok paid ∧ w.chain.PaysOut t p caller n paid u.chain := by
  have hNe := h.pool_ne hUnit
  simp only [withdraw, after_entering, after_bind, after_view, View.contract_eq_ok]
  intro found hFound
  cases h with
  | fixedRate hx hStable =>
    obtain rfl := Option.some.inj (hx.symm.trans hFound)
    refine FixedRate.after_withdraw_moves.mono ?_
    rintro paid u ⟨t', c, hToken, hPaid, hTake, hPay⟩
    obtain rfl : t = t' := Option.some.inj (hStable.symm.trans hToken)
    rw [previewWithdraw_fixedRate hx]
    refine ⟨hPaid, .of_moves hNe.symm hTake (fun b => ?_) hPay⟩
    have hShares := hTake.balance_takeShares x b
    simpa only [true_and] using hShares
  | wrapped hx _ _ hVault hy hAsset =>
    obtain rfl := Option.some.inj (hx.symm.trans hFound)
    exact Wrapped.after_withdraw_quoted hx hVault hy hAsset hUnit

end Strategy

end Execution

end Treasury
