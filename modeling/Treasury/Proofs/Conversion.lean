import Treasury.Proofs.Allowances
import Treasury.Proofs.Valuation

/-! Conversions between the stable token and pool shares. A router that deposits into a fixed-rate
pool, or withdraws from one, turns one kind of value into the other. All managed value never grows
by it, and falls by rounding only. -/
namespace Treasury

open Exec Chain

theorem Custody.poolBalance_ok {c : Chain} {k p : Address} {n : Amount}
    (h : Custody.poolBalance k p c = .ok n) : c.balance p k = n := by
  simp only [Custody.poolBalance, View.bind_eq_ok] at h
  obtain ⟨-, -, h⟩ := h
  exact Token.balanceOf_ok h

theorem Chain.PoolKeeps.balance_takeShares {c c' : Chain} {x owner : Address} {n : Amount}
    (h : c.PoolKeeps x (Strategy.takeShares x owner n) c') (b a : Address) :
    c'.balance b a + (if b = x ∧ a = owner then n else 0) = c.balance b a := by
  by_cases hb : b = x
  · subst hb
    obtain ⟨l, l', hl, hTake, hl'⟩ := h.spec
    simpa only [balance, hl, hl', Option.getD_some, true_and] using
      (Token.Ledger.takeShares_spec hTake).1 a
  · simp only [balance, h.books_frame hb, hb, false_and, if_false, Nat.add_zero]

/-! What a pool that serves itself quotes, it finds from its rate. -/

namespace Strategy

variable {c : Chain} {x : Address} {s : FixedRate} {n : Amount}
  (hx : c.contract? x = some (.fixedRate s))

include hx

theorem previewDeposit_fixedRate :
    previewDeposit x n c = Minted.mk x <$> Rate.sharesForDeposit n s.rate := by
  rw [previewDeposit, View.bind_of_ok (View.contract_eq_ok.2 hx)]
  simp only [View.bind_apply, View.lift_apply]
  cases Rate.sharesForDeposit n s.rate <;> rfl

theorem previewWithdraw_fixedRate : previewWithdraw x n c = Rate.assetsForShares n s.rate := by
  rw [previewWithdraw, View.bind_of_ok (View.contract_eq_ok.2 hx)]
  rfl

theorem previewShares_fixedRate : previewShares x n c = Rate.sharesForAmount n s.rate := by
  rw [previewShares, View.bind_of_ok (View.contract_eq_ok.2 hx)]
  rfl

theorem previewMint_fixedRate : previewMint x n c = Rate.assetsForMint n s.rate := by
  rw [previewMint, View.bind_of_ok (View.contract_eq_ok.2 hx)]
  rfl

end Strategy

namespace Wiring

/-- A treasury converts value between its own stable and shares of `pools`. It loses at most `loss`
by it, and accounts have nothing to do with it. -/
structure Converts (w : Wiring) (user : Address) (pools : List Address) (loss : Nat)
    (c c' : Chain) : Prop where
  trade : Trade user c c'
  upper : w.managed c' pools ≤ w.managed c pools
  lower : w.managed c pools ≤ w.managed c' pools + loss
  outside : ∀ x, c.kind? x = none → c'.balance w.stable x = c.balance w.stable x

/-- Custody holds no more shares of any pool than before. -/
def Draws (w : Wiring) (pools : List Address) (c c' : Chain) : Prop :=
  ∀ p ∈ pools, c'.balance p w.custody ≤ c.balance p w.custody

variable {w : Wiring} {user : Address} {c c₁ c₂ c₃ c₄ c' : Chain} {pools : List Address}
  {q : Custody} {p t : Address} {n m shares : Nat}

theorem Converts.refl (w : Wiring) (user : Address) (pools : List Address) (c : Chain) :
    w.Converts user pools 0 c c :=
  ⟨.refl c, Nat.le_refl _, Nat.le_refl _, fun _ _ => rfl⟩

theorem Converts.trans (h : w.Converts user pools n c c₁) (h' : w.Converts user pools m c₁ c') :
    w.Converts user pools (n + m) c c' := by
  refine ⟨h.trade.trans h'.trade, Nat.le_trans h'.upper h.upper, ?_, fun x hx => ?_⟩
  · have hFirst := h.lower
    have hThen := h'.lower
    omega
  · rw [h'.outside x (by rw [h.trade.alike.kind?, hx]), h.outside x hx]

theorem Draws.refl (w : Wiring) (pools : List Address) (c : Chain) : w.Draws pools c c :=
  fun _ _ => Nat.le_refl _

theorem Draws.trans (h : w.Draws pools c c₁) (h' : w.Draws pools c₁ c') : w.Draws pools c c' :=
  fun p hp => Nat.le_trans (h' p hp) (h p hp)

/-- The stable token is not a pool. -/
theorem Fixed.stable_ne (h : w.Fixed c q) (hp : q.supports p = true) : p ≠ w.stable := by
  rintro rfl
  obtain ⟨-, s, hs⟩ := h.pools _ hp
  obtain ⟨t, ht⟩ := h.complete.stable
  simp [hs] at ht

/-- The router is not a pool. -/
theorem Fixed.router_ne (h : w.Fixed c q) (hp : q.supports p = true) : w.router ≠ p := by
  rintro rfl
  obtain ⟨-, s, hs⟩ := h.pools _ hp
  obtain ⟨r, hr, -⟩ := h.complete.router
  simp [hs] at hr

/-- Neither the router nor a pool stands at the address of an account. -/
theorem Fixed.outside_ne (h : w.Fixed c q) (hp : q.supports p = true) {x : Address}
    (hx : c.kind? x = none) : x ≠ w.router ∧ x ≠ p := by
  obtain ⟨r, hr, -⟩ := h.complete.router
  obtain ⟨-, s, hs⟩ := h.pools p hp
  exact ⟨ne_of_contract? hr hx, ne_of_contract? hs hx⟩

/-- Where custody holds the same shares of all other pools, only one pool's worth has changed. -/
theorem Fixed.counted_of_one (h : w.Fixed c q) (hp : q.supports p = true) (hAlike : Alike c c')
    (hSame : ∀ x ∈ q.supported.toList, x ≠ p →
      c'.balance x w.custody = c.balance x w.custody) :
    w.counted c' q.supported.toList + w.worth c p =
      w.counted c q.supported.toList + w.worth c' p := by
  apply Wiring.counted_of_one (h.supported.mem_toList.2 hp) h.supported.nodup_toList
  intro x hx hNe
  rw [worth, worth, hAlike.rate, hSame x hx hNe]

/-- A fixed-rate pool collects an amount of the router's stable and issues shares for it. All of
them come to the custody contract. -/
inductive Joins (w : Wiring) (p : Address) (n shares : Nat) (c c' : Chain) : Prop where
  | intro {s : Strategy.FixedRate} {t holder : Address} {c₁ c₂ c₃ : Chain}
      (hPool : c.contract? p = some (.fixedRate s)) (hAmount : n ≠ 0) (hStable : s.stable = some t)
      (hShares : Rate.sharesForDeposit n s.rate = .ok shares)
      (hAllow : c.Moves w.stable (.approve w.router p n) c₁)
      (hTake : c₁.Moves t (.transferFrom p w.router p n) c₂)
      (hMint : c₂.PoolKeeps p (·.mint holder shares) c₃)
      (hEnd : c₃.Moves w.stable (.approve w.router p 0) c')
      (hGained : c'.balance p w.custody = c.balance p w.custody + shares) : Joins w p n shares c c'

/-- The custody contract gives shares of a fixed-rate pool to the router, and the pool takes them
back and pays for them. The router has received what the pool says that it has paid. -/
inductive Leaves (w : Wiring) (p : Address) (shares n : Nat) (c c' : Chain) : Prop where
  | intro {s : Strategy.FixedRate} {t : Address} {c₁ c₂ c₃ c₄ : Chain}
      (hPool : c.contract? p = some (.fixedRate s)) (hStable : s.stable = some t)
      (hPaid : Rate.assetsForShares shares s.rate = .ok n)
      (hGiven : c.Moves p (.transfer w.custody w.router shares) c₁)
      (hAllow : c₁.Moves p (.approve w.router p shares) c₂)
      (hTake : c₂.PoolKeeps p (Strategy.takeShares p w.router shares) c₃)
      (hPay : c₃.Moves t (.transfer p w.router n) c₄)
      (hEnd : c₄.Moves p (.approve w.router p 0) c')
      (hReceived : n = c'.balance w.stable w.router - c.balance w.stable w.router) :
      Leaves w p shares n c c'

/-- What the router holds itself rises and falls, and nobody's shares of the treasury do. -/
structure Handles (w : Wiring) (gained spent : Nat) (c c' : Chain) : Prop where
  idle : c'.balance w.stable w.router + spent = c.balance w.stable w.router + gained
  shares : ∀ x, c'.balance w.share x = c.balance w.share x

theorem Handles.trans {gained spent gained' spent' : Nat} (h : w.Handles gained spent c c₁)
    (h' : w.Handles gained' spent' c₁ c') :
    w.Handles (gained + gained') (spent + spent') c c' := by
  have hFirst := h.idle
  have hThen := h'.idle
  exact ⟨by omega, fun x => (h'.shares x).trans (h.shares x)⟩

/-- The share token is not a pool, nor the stable token. -/
theorem Fixed.share_ne (h : w.Fixed c q) (hp : q.supports p = true) :
    w.share ≠ p ∧ w.share ≠ w.stable := by
  obtain ⟨t, ht, -⟩ := h.complete.share
  constructor
  · rintro rfl
    obtain ⟨-, s, hs⟩ := h.pools _ hp
    simp [hs] at ht
  · intro hSame
    obtain ⟨u, hu⟩ := h.complete.stable
    simp [hSame, hu] at ht

section Joins

/-- A deposit into a fixed-rate pool is a trade. -/
theorem Fixed.trade_joined (h : w.Fixed c q) (hJoins : w.Joins p n shares c c') :
    Trade user c c' := by
  obtain ⟨hPool, -, hStable, hShares, hAllow, hTake, hMint, hEnd, -⟩ := hJoins
  obtain ⟨r, hr, -⟩ := h.complete.router
  obtain ⟨l, hl⟩ := hAllow.alike.fixedRate hPool
  have hActs : Chain.Acts _ user w.router := (acts_of_contract hr).alike hAllow.alike
  exact .lent (.inl (Router.desk_of_router hr)) hAllow
    (.joined (.fixedRate hl hStable hShares) (hActs.payer p) hTake hMint) hEnd

/-- Where the books stand after a deposit into a fixed-rate pool. -/
theorem Fixed.balance_joined (h : w.Fixed c q) (hCounts : q.supports p = true)
    (hNone : ∀ t, c.kind? t ≠ some .ledger → c.allowance t w.router p = 0)
    (hJoins : w.Joins p n shares c c') (b x : Address) :
    c'.balance b x + (if b = w.stable ∧ x = w.router then n else 0) =
      c.balance b x + (if b = w.stable ∧ x = p then n else 0) +
        (if b = p ∧ x = w.custody then shares else 0) := by
  obtain @⟨_, _, holder, _, _, _, -, hAmount, -, -, hAllow, hTake, hMint, hEnd, hGained⟩ := hJoins
  obtain rfl := token_of_collected hNone hAmount hAllow hTake
  have hBalance : ∀ b x, c'.balance b x + (if b = w.stable ∧ x = w.router then n else 0) =
      c.balance b x + (if b = w.stable ∧ x = p then n else 0) +
        (if b = p ∧ x = holder then shares else 0) := by
    intro b x
    have hMoved := hTake.balance_transferFrom b x
    rw [hAllow.balance_approve] at hMoved
    rw [hEnd.balance_approve, hMint.balance_mint, Nat.add_right_comm, hMoved]
  -- The custody contract has gained all the shares, so no other holder got any.
  by_cases hHolder : w.custody = holder
  · rw [hHolder]
    exact hBalance b x
  · have hAt := hBalance p w.custody
    have hNe := h.stable_ne hCounts
    simp only [hNe, hHolder, false_and, and_false, if_false, Nat.add_zero] at hAt
    have hNoShares : shares = 0 := by omega
    have hThere := hBalance b x
    simp only [hNoShares, ite_self, Nat.add_zero] at hThere ⊢
    exact hThere

/-- Whatever the shares issued for a deposit are worth, beside those already held, it is no more
than was deposited. -/
theorem Fixed.converts_joined (h : w.Fixed c q) (hCounts : q.supports p = true)
    (hNone : ∀ t, c.kind? t ≠ some .ledger → c.allowance t w.router p = 0)
    (hJoins : w.Joins p n shares c c')
    (hLoss : c.balance p w.custody * c.rate p / rateScale + n ≤
      (c.balance p w.custody + shares) * c.rate p / rateScale + m) :
    w.Converts user q.supported.toList m c c' := by
  have hTrade : Trade user c c' := h.trade_joined hJoins
  have hBalance := h.balance_joined hCounts hNone hJoins
  have hStableNe := h.stable_ne hCounts
  have hIdle : c'.balance w.stable w.router + n = c.balance w.stable w.router := by
    have hAt := hBalance w.stable w.router
    simpa [hStableNe.symm, h.router_ne hCounts] using hAt
  have hCounted := h.counted_of_one hCounts hTrade.alike fun x hx hNe => by
    have hAt := hBalance x w.custody
    have hToken := h.stable_ne (h.supported.mem_toList.1 hx)
    simpa only [hToken, hNe, false_and, if_false, Nat.add_zero] using hAt
  obtain ⟨hPool, -, -, hShares, -, -, -, -, hGained⟩ := hJoins
  have hWorth : w.worth c' p = (c.balance p w.custody + shares) * c.rate p / rateScale := by
    rw [worth, hTrade.alike.rate, hGained]
  have hBefore : w.worth c p = c.balance p w.custody * c.rate p / rateScale := rfl
  obtain ⟨hPaid, -⟩ := Rate.sharesForDeposit_bounds hShares
  rw [← rate_of hPool] at hPaid
  have hUpper := Rate.worth_gain_le (c.balance p w.custody) hPaid
  constructor
  · exact hTrade
  · rw [managed, managed]
    omega
  · rw [managed, managed]
    omega
  · intro x hx
    have hAt := hBalance w.stable x
    obtain ⟨hNotRouter, hNotPool⟩ := h.outside_ne hCounts hx
    simpa [hNotRouter, hNotPool, hStableNe.symm] using hAt

/-- A deposit loses no more than a share is worth. -/
theorem Fixed.converts_deposit (h : w.Fixed c q) (hCounts : q.supports p = true)
    (hNone : ∀ t, c.kind? t ≠ some .ledger → c.allowance t w.router p = 0)
    (hJoins : w.Joins p n shares c c') :
    w.Converts user q.supported.toList (Rate.unit (c.rate p)) c c' := by
  apply h.converts_joined hCounts hNone hJoins
  obtain ⟨hPool, -, -, hShares, -, -, -, -, -⟩ := hJoins
  rw [rate_of hPool]
  exact Rate.le_worth_gain _ (Rate.sharesForDeposit_bounds hShares).2

/-- The router spends what it deposits. -/
theorem Fixed.handles_joined (h : w.Fixed c q) (hCounts : q.supports p = true)
    (hNone : ∀ t, c.kind? t ≠ some .ledger → c.allowance t w.router p = 0)
    (hJoins : w.Joins p n shares c c') : w.Handles 0 n c c' := by
  have hBalance := h.balance_joined hCounts hNone hJoins
  have hStableNe := h.stable_ne hCounts
  obtain ⟨hNotPool, hNotStable⟩ := h.share_ne hCounts
  constructor
  · have hAt := hBalance w.stable w.router
    simpa [hStableNe.symm, h.router_ne hCounts] using hAt
  · intro x
    have hAt := hBalance w.share x
    simpa only [hNotPool, hNotStable, false_and, if_false, Nat.add_zero] using hAt

end Joins

section Leaves

/-- A withdrawal from a fixed-rate pool is a trade. -/
theorem Fixed.trade_left (h : w.Fixed c q) (hLeaves : w.Leaves p shares n c c') :
    Trade user c c' := by
  obtain ⟨hPool, hStable, hPaid, hGiven, hAllow, hTake, hPay, hEnd, -⟩ := hLeaves
  obtain ⟨r, hr, -⟩ := h.complete.router
  have hLends : Chain.Lends _ w.router := (Router.lends_of_router hr).alike hGiven.alike
  obtain ⟨l, hl⟩ := (hGiven.alike.trans hAllow.alike).fixedRate hPool
  have hActs : Chain.Acts _ user w.router := (hLends.alike hAllow.alike).acts
  exact .trans (Custody.trade_of_transferShares h.custody hGiven)
    (.lent hLends.lender hAllow
      (.left (.fixedRate hl hStable hPaid) (.adapter hActs) hTake hPay) hEnd)

/-- Where the books stand after a withdrawal from a fixed-rate pool. Nothing was paid in any other
token, since the router has received what was paid. -/
theorem Fixed.balance_left (h : w.Fixed c q) (hCounts : q.supports p = true)
    (hLeaves : w.Leaves p shares n c c') (b x : Address) :
    c'.balance b x + (if b = p ∧ x = w.custody then shares else 0) +
      (if b = w.stable ∧ x = p then n else 0) =
        c.balance b x + (if b = w.stable ∧ x = w.router then n else 0) := by
  obtain @⟨_, t, _, _, _, _, -, -, -, hGiven, hAllow, hTake, hPay, hEnd, hReceived⟩ := hLeaves
  have hBalance : ∀ b x, c'.balance b x + (if b = p ∧ x = w.custody then shares else 0) +
      (if b = t ∧ x = p then n else 0) =
        c.balance b x + (if b = t ∧ x = w.router then n else 0) := by
    intro b x
    have hFirst := hGiven.balance_transfer b x
    have hThen := hTake.balance_takeShares b x
    have hLast := hPay.balance_transfer b x
    rw [hAllow.balance_approve] at hThen
    rw [hEnd.balance_approve]
    omega
  by_cases ht : w.stable = t
  · rw [ht]
    exact hBalance b x
  · have hAt := hBalance w.stable w.router
    have hNe := (h.stable_ne hCounts).symm
    simp only [ht, hNe, false_and, if_false, Nat.add_zero] at hAt
    have hNothing : n = 0 := by omega
    have hThere := hBalance b x
    simp only [hNothing, ite_self, Nat.add_zero] at hThere ⊢
    exact hThere

/-- A withdrawal loses one unit at most. -/
theorem Fixed.converts_withdraw (h : w.Fixed c q) (hCounts : q.supports p = true)
    (hLeaves : w.Leaves p shares n c c') :
    w.Converts user q.supported.toList 1 c c' ∧ w.Draws q.supported.toList c c' := by
  have hTrade : Trade user c c' := h.trade_left hLeaves
  have hBalance := h.balance_left hCounts hLeaves
  have hStableNe := h.stable_ne hCounts
  have hIdle : c'.balance w.stable w.router = c.balance w.stable w.router + n := by
    have hAt := hBalance w.stable w.router
    simpa [hStableNe.symm, h.router_ne hCounts] using hAt
  have hSame : ∀ x ∈ q.supported.toList, x ≠ p →
      c'.balance x w.custody = c.balance x w.custody := by
    intro x hx hNe
    have hAt := hBalance x w.custody
    have hToken := h.stable_ne (h.supported.mem_toList.1 hx)
    simpa only [hToken, hNe, false_and, if_false, Nat.add_zero] using hAt
  have hHeld : c'.balance p w.custody + shares = c.balance p w.custody := by
    have hAt := hBalance p w.custody
    simpa only [hStableNe, and_self, if_true, false_and, if_false, Nat.add_zero] using hAt
  have hCounted := h.counted_of_one hCounts hTrade.alike hSame
  obtain ⟨hPool, -, hPaid, -, -, -, -, -, -⟩ := hLeaves
  have hWorth : w.worth c' p = c'.balance p w.custody * c.rate p / rateScale := by
    rw [worth, hTrade.alike.rate]
  have hBefore : w.worth c p = (c'.balance p w.custody + shares) * c.rate p / rateScale := by
    rw [worth, hHeld]
  have hAmount : shares * c.rate p / rateScale = n := by
    rw [rate_of hPool]
    exact (Amount.mulDiv_eq_ok.1 hPaid).2.2
  obtain ⟨hLower, hUpper⟩ := Rate.worth_loss (c'.balance p w.custody) shares (c.rate p)
  refine ⟨⟨hTrade, ?_, ?_, ?_⟩, ?_⟩
  · rw [managed, managed]
    omega
  · rw [managed, managed]
    omega
  · intro x hx
    have hAt := hBalance w.stable x
    obtain ⟨hNotRouter, hNotPool⟩ := h.outside_ne hCounts hx
    simpa [hNotRouter, hNotPool, hStableNe.symm] using hAt
  · intro x hx
    by_cases hx' : x = p
    · subst hx'
      rw [← hHeld]
      exact Nat.le_add_right _ _
    · exact Nat.le_of_eq (hSame x hx hx')

/-- The router gains what it withdraws. -/
theorem Fixed.handles_left (h : w.Fixed c q) (hCounts : q.supports p = true)
    (hLeaves : w.Leaves p shares n c c') : w.Handles n 0 c c' := by
  have hBalance := h.balance_left hCounts hLeaves
  have hStableNe := h.stable_ne hCounts
  obtain ⟨hNotPool, hNotStable⟩ := h.share_ne hCounts
  constructor
  · have hAt := hBalance w.stable w.router
    simpa [hStableNe.symm, h.router_ne hCounts] using hAt
  · intro x
    have hAt := hBalance w.share x
    simpa only [hNotPool, hNotStable, false_and, if_false, Nat.add_zero] using hAt

end Leaves

end Wiring

namespace Router

variable {wiring : Wiring} {w : World} {f : Frame} {back : Callback}
  {config : Pool.Config} {q : Custody} {n shares : Amount}

theorem after_depositIntoPool_joins (h : wiring.Fixed w.chain q)
    (hSelf : f.self = wiring.router) (hCounts : q.supports config.pool = true)
    (hAgree : q.supports config.pool = true → config.adapter = config.pool) :
    After (depositIntoPool back f config n) w fun minted v =>
      wiring.Joins config.pool n minted w.chain v.chain := by
  obtain ⟨r, hr, hStable, hCustody, -⟩ := h.complete.router
  obtain ⟨-, s, hPool⟩ := h.pools _ hCounts
  simp only [depositIntoPool, after_bind, after_view, after_result, View.load_eq_ok, ensure_eq_ok,
    forall_const, known_eq_ok, after_pure, hSelf, hAgree hCounts]
  intro r' hr' quote _ _ k hk before hBefore stable hst
  obtain rfl : r = r' := storage_unique hr hr'
  obtain rfl : wiring.custody = k := Option.some.inj (hCustody.symm.trans hk)
  obtain rfl : wiring.stable = stable := Option.some.inj (hStable.symm.trans hst)
  refine Token.after_approve.mono fun _ u hAllow => ?_
  simp only [Strategy.deposit, after_entering, after_bind, after_view, View.contract_eq_ok]
  intro x hx
  obtain ⟨l, hl⟩ := hAllow.alike.fixedRate hPool
  obtain rfl : x = .fixedRate { s with ledger := l } := Option.some.inj (hx.symm.trans hl)
  refine Strategy.FixedRate.after_deposit_moves.mono ?_
  rintro minted v ⟨t, holder, shares, c, hAmount, hAsset, -, hShares, rfl, hTake, hMint⟩
  refine Token.after_approve.mono fun _ v' hEnd => ?_
  intro _ after hAfter hMore hExact
  change shares = after - before at hExact
  rw [← hExact]
  apply Wiring.Joins.intro hPool hAmount hAsset hShares hAllow hTake hMint hEnd
  rw [Custody.poolBalance_ok hBefore, Custody.poolBalance_ok hAfter, hExact]
  exact (Nat.add_sub_cancel' hMore.1).symm

theorem after_depositIntoPool_converts (user : Address) (h : wiring.Fixed w.chain q)
    (hSelf : f.self = wiring.router) (hCounts : q.supports config.pool = true)
    (hAgree : q.supports config.pool = true → config.adapter = config.pool)
    (hNone : ∀ t spender, w.chain.kind? t ≠ some .ledger →
      w.chain.allowance t wiring.router spender = 0) :
    After (depositIntoPool back f config n) w fun _ v =>
      wiring.Converts user q.supported.toList (Rate.unit (w.chain.rate config.pool)) w.chain
        v.chain :=
  (after_depositIntoPool_joins h hSelf hCounts hAgree).mono fun _ _ hJoins =>
    h.converts_deposit hCounts (fun t => hNone t config.pool) hJoins

theorem after_withdrawShares_leaves (h : wiring.Fixed w.chain q) (hSelf : f.self = wiring.router)
    (hAgree : q.supports config.pool = true → config.adapter = config.pool) :
    After (withdrawShares f config shares) w fun received v =>
      q.supports config.pool = true ∧
        wiring.Leaves config.pool shares received w.chain v.chain := by
  obtain ⟨r, hr, hStable, hCustody, -⟩ := h.complete.router
  simp only [withdrawShares, after_bind, after_view, after_result, View.load_eq_ok, ensure_eq_ok,
    forall_const, known_eq_ok, after_pure, hSelf]
  intro r' hr' quote _ stable hst before hBefore k hk
  obtain rfl : r = r' := storage_unique hr hr'
  obtain rfl : wiring.custody = k := Option.some.inj (hCustody.symm.trans hk)
  obtain rfl : wiring.stable = stable := Option.some.inj (hStable.symm.trans hst)
  refine Custody.after_transferShares.mono ?_
  rintro _ u₁ ⟨⟨q', hq', hCounts, -⟩, hGiven⟩
  obtain rfl : q = q' := storage_unique h.custody hq'
  obtain ⟨-, s, hPool⟩ := h.pools _ hCounts
  rw [hAgree hCounts]
  refine Token.after_approve.mono fun _ u₂ hAllow => ?_
  simp only [Strategy.withdraw, after_entering, after_bind, after_view, View.contract_eq_ok]
  intro x hx
  obtain ⟨l, hl⟩ := (hGiven.alike.trans hAllow.alike).fixedRate hPool
  obtain rfl : x = .fixedRate { s with ledger := l } := Option.some.inj (hx.symm.trans hl)
  refine Strategy.FixedRate.after_withdraw_moves.mono ?_
  rintro paid v ⟨t, c, hAsset, hPaid, hTake, hPay⟩
  refine Token.after_approve.mono fun _ v' hEnd => ?_
  intro after hAfter hReceived _
  rw [← hReceived]
  refine ⟨hCounts, .intro hPool hAsset hPaid hGiven hAllow hTake hPay hEnd ?_⟩
  rw [Token.balanceOf_ok hBefore, Token.balanceOf_ok hAfter]
  exact hReceived

theorem after_withdrawShares_converts (user : Address) (h : wiring.Fixed w.chain q)
    (hSelf : f.self = wiring.router)
    (hAgree : q.supports config.pool = true → config.adapter = config.pool) :
    After (withdrawShares f config shares) w fun _ v =>
      wiring.Converts user q.supported.toList 1 w.chain v.chain ∧
        wiring.Draws q.supported.toList w.chain v.chain :=
  (after_withdrawShares_leaves h hSelf hAgree).mono fun _ _ hDone =>
    h.converts_withdraw hDone.1 hDone.2

theorem after_withdrawValue_leaves (h : wiring.Fixed w.chain q) (hSelf : f.self = wiring.router)
    (hAgree : q.supports config.pool = true → config.adapter = config.pool) :
    After (withdrawValue f config n) w fun received v => ∃ shares,
      q.supports config.pool = true ∧
        wiring.Leaves config.pool shares received w.chain v.chain := by
  simp only [withdrawValue, after_bind, after_view, after_result, ensure_eq_ok, forall_const,
    after_pure]
  intro shares _ _
  exact (after_withdrawShares_leaves h hSelf hAgree).mono fun _ v hDone _ => ⟨shares, hDone⟩

theorem after_withdrawValue_converts (user : Address) (h : wiring.Fixed w.chain q)
    (hSelf : f.self = wiring.router)
    (hAgree : q.supports config.pool = true → config.adapter = config.pool) :
    After (withdrawValue f config n) w fun _ v =>
      wiring.Converts user q.supported.toList 1 w.chain v.chain ∧
        wiring.Draws q.supported.toList w.chain v.chain := by
  refine (after_withdrawValue_leaves h hSelf hAgree).mono fun _ v hDone => ?_
  obtain ⟨shares, hCounts, hLeaves⟩ := hDone
  exact h.converts_withdraw hCounts hLeaves

end Router

end Treasury
