import Treasury.Proofs.DepositPaths
import Treasury.Proofs.Fails
import Treasury.Proofs.LedgerSums
import Treasury.Proofs.PoolLimits

/-! Redemptions within the advertised limit. A pool that can pay for all its shares pays whatever
the shares in custody are worth, since books that add up never stand in the way of a transfer. So
nothing but the limit, and the range of amounts, decides whether a redemption is made. -/
namespace Treasury

open Exec Chain

/-- Where held shares are worth an amount, no more than those are asked for it. -/
theorem Rate.sharesForAmount_ok {amount rate held : Nat} (hSome : amount ≠ 0)
    (hWorth : amount ≤ held * rate / rateScale) (hRange : held * rate < Amount.bound) :
    ∃ shares, sharesForAmount amount rate = .ok shares ∧ shares ≠ 0 ∧ shares ≤ held := by
  have hLess : amount * rateScale ≤ held * rate := (Nat.le_div_iff_mul_le rateScale_pos).1 hWorth
  have hPos : 0 < amount * rateScale := Nat.mul_pos (Nat.pos_of_ne_zero hSome) rateScale_pos
  have hRate : rate ≠ 0 := by
    rintro rfl
    omega
  obtain ⟨shares, hShares⟩ := Amount.mulDivCeil_ok (Nat.lt_of_le_of_lt hLess hRange) hRate
  refine ⟨shares, hShares, ?_, (Amount.mulDivCeil_le_iff hShares).2 hLess⟩
  rintro rfl
  have hCovers := Amount.le_mulDivCeil_mul hShares
  rw [Nat.zero_mul] at hCovers
  exact Nat.not_le.2 hPos hCovers

/-- A pool can take back whatever shares a keeper has. -/
theorem Token.Ledger.Balanced.reclaim_ok {l : Token.Ledger} {keeper : Address} {n : Amount}
    (hl : l.Balanced) (hOwns : n ≤ l.balanceOf keeper) (pool taker : Address) :
    ∃ l', l.reclaim pool keeper taker n = .ok l' := by
  obtain ⟨given, hGive⟩ := hl.transfer_ok hOwns taker
  have hGiven := (transfer_spec hGive).1 taker
  rw [if_pos rfl] at hGiven
  have hHas : n ≤ given.balanceOf taker := by
    split at hGiven
    · next hSame =>
      rw [Nat.add_right_cancel hGiven, hSame]
      exact hOwns
    · rw [Nat.add_zero] at hGiven
      rw [hGiven]
      exact Nat.le_add_left _ _
  have hAllowed : n ≤ (given.approve taker pool n).allowance taker pool := by
    rw [allowance_approve, if_pos ⟨rfl, rfl⟩]
  have hBooks : ((given.approve taker pool n).approve taker pool
      ((given.approve taker pool n).allowance taker pool - n)).Balanced :=
    (hl.transfer hGive).approve.approve
  obtain ⟨burnt, hBurn⟩ := hBooks.burn_ok (show n ≤ given.balanceOf taker from hHas)
  refine ⟨_, Result.bind_eq_ok.2 ⟨given, hGive, Result.bind_eq_ok.2 ⟨burnt, ?_, rfl⟩⟩⟩
  exact Result.bind_eq_ok.2 ⟨_, Result.bind_eq_ok.2 ⟨(), ensure_eq_ok.2 hAllowed, rfl⟩, hBurn⟩

/-- Whoever owns an amount of the stable token can give it away. -/
theorem Chain.transfer_stable_ok {c : Chain} {t giver : Address} {n : Amount} {u : Token.Stable}
    (hu : c.contract? t = some (.stable u)) (hBooks : c.Balanced t)
    (hOwns : n ≤ c.balance t giver) (taker : Address) :
    ∃ c', c.Moves t (.transfer giver taker n) c' := by
  have hLedger := books?_of_contract? hu
  rw [balance, hLedger] at hOwns
  obtain ⟨l, hl⟩ := (hBooks _ hLedger).transfer_ok hOwns taker
  obtain ⟨u', hMove, -⟩ := Result.map_eq_ok.1 ((u.ledger_transfer giver taker n).trans hl)
  exact ⟨_, (moves_stable hu).2 ⟨u', hMove, rfl⟩⟩

namespace Contract

/-- A fixed-rate adapter that is open, deals in a token, and can pay for all its shares with what it
holds of it. -/
def Solvent (token : Address) (held : Amount) : Contract → Prop
  | fixedRate x => x.paused = false ∧ x.stable = some token ∧
      x.ledger.supply * x.rate ≤ held * rateScale
  | _ => False

instance {token : Address} {held : Amount} (x : Contract) : Decidable (x.Solvent token held) := by
  cases x <;> unfold Solvent <;> infer_instance

end Contract

/-- Every registered pool counts as value, and its adapter is an open fixed-rate adapter that can
pay for all its shares in the treasury's stable token. -/
def Wiring.Covered (w : Wiring) (c : Chain) : Prop :=
  ∀ config ∈ (c.routing w.router).registry.toList,
    (c.keeping w.custody).supports config.pool = true ∧
      ∃ x ∈ c.contract? config.adapter, x.Solvent w.stable (c.balance w.stable config.adapter)

instance (w : Wiring) (c : Chain) : Decidable (w.Covered c) := by
  unfold Wiring.Covered
  infer_instance

namespace Wiring

variable {w : Wiring} {c c' : Chain} {s : Router.State} {q : Custody} {config : Pool.Config}
  {f : Router.Frame} {n : Amount}

theorem Covered.fixedRatePools (h : w.Covered c) : w.FixedRatePools c := by
  intro config hMem
  obtain ⟨-, x, hx, hSolvent⟩ := h config hMem
  cases x <;> cases hSolvent
  exact kind?_of_contract? hx

/-- A pool whose stable covers all its shares can take some of them back from custody, and pay. -/
theorem Stands.departs_ok (h : w.Stands c s q) (hCounts : q.supports config.pool = true)
    {x : Strategy.FixedRate} (hx : c.contract? config.pool = some (.fixedRate x))
    (hToken : x.stable = some w.stable)
    (hCovered : x.ledger.supply * x.rate ≤ c.balance w.stable config.pool * rateScale)
    (hShares : x.ledger.Balanced) (hStable : c.Balanced w.stable) {shares paid : Amount}
    (hAny : shares ≠ 0) (hOwns : shares ≤ x.ledger.balanceOf w.custody)
    (hOwed : Rate.assetsForShares shares x.rate = .ok paid) :
    ∃ c', w.Departs config.pool w.stable shares paid c c' ∧ c'.Balanced w.stable ∧
      paid ≤ c'.balance w.stable w.router := by
  have hNe := h.fixed.stable_ne hCounts
  obtain ⟨u, hu⟩ := h.fixed.complete.stable
  obtain ⟨l, hReclaim⟩ := hShares.reclaim_ok hOwns config.pool w.router
  -- The pool's stable covers all its shares, and so these.
  have hPays : paid ≤ c.balance w.stable config.pool := by
    obtain ⟨-, -, rfl⟩ := Amount.mulDiv_eq_ok.1 hOwed
    refine Nat.div_le_of_le_mul (Nat.le_trans ?_ (Nat.mul_comm _ rateScale ▸ hCovered))
    exact Nat.mul_le_mul_right _ (Nat.le_trans hOwns (hShares.le_supply w.custody))
  have hSame : (c.put config.pool (.fixedRate { x with ledger := l })).books? w.stable =
      c.books? w.stable := by
    rw [books?_put hx, if_neg hNe.symm]
  have hStable₁ := hStable.of_books hSame
  have hu₁ := (contract?_put_of_ne c (.fixedRate { x with ledger := l }) hNe.symm).trans hu
  have hHolds : paid ≤
      (c.put config.pool (.fixedRate { x with ledger := l })).balance w.stable config.pool := by
    rw [balance, hSame]
    exact hPays
  obtain ⟨c', hPay⟩ := transfer_stable_ok hu₁ hStable₁ hHolds w.router
  refine ⟨c', (departs_iff hx).2 ⟨l, hAny, hOwed, hToken, .inl rfl, hReclaim, hPay⟩,
    hStable₁.moves hPay, ?_⟩
  have hGained := hPay.balance_transfer w.stable w.router
  rw [if_neg fun hBoth => h.fixed.router_ne hCounts hBoth.2, if_pos ⟨rfl, rfl⟩, Nat.add_zero]
    at hGained
  rw [hGained]
  exact Nat.le_add_left _ _

/-- A solvent pool pays whatever the shares in custody are worth. -/
theorem Stands.withdrawValue_ok (h : w.Stands c s q) (hSelf : f.self = w.router)
    (hGet : s.registry.get? config.pool = some config) (hCounts : q.supports config.pool = true)
    {x : Contract} (hx : c.contract? config.pool = some x)
    (hSolvent : x.Solvent w.stable (c.balance w.stable config.pool))
    (hShares : c.Balanced config.pool) (hStable : c.Balanced w.stable)
    (hRange : c.balance config.pool w.custody * c.rate config.pool < Amount.bound) (hSome : n ≠ 0)
    (hWorth : n ≤ w.worth c config.pool) :
    ∃ shares paid c' es, Strategy.previewShares config.adapter n c = .ok shares ∧
      Strategy.previewWithdraw config.adapter shares c = .ok paid ∧ n ≤ paid ∧
      Ends (Router.withdrawValue f config n) c paid c' es ∧ w.Stands c' s q ∧
      c'.Balanced w.stable ∧ paid ≤ c'.balance w.stable w.router := by
  cases x with
  | fixedRate x =>
    obtain ⟨-, hToken, hCovered⟩ := hSolvent
    have hAdapter := h.adapter_eq hGet hCounts
    have hBooks := books?_of_contract? hx
    have hLedger : x.ledger.Balanced := hShares _ hBooks
    have hHeld : c.balance config.pool w.custody = x.ledger.balanceOf w.custody := by
      rw [balance, hBooks]
      rfl
    rw [worth, hHeld, rate_of hx] at hWorth
    rw [hHeld, rate_of hx] at hRange
    obtain ⟨shares, hQuote, hAny, hOwns⟩ := Rate.sharesForAmount_ok hSome hWorth hRange
    have hOwed : Rate.assetsForShares shares x.rate = .ok (shares * x.rate / rateScale) :=
      Amount.mulDiv_eq_ok.2
        ⟨Nat.lt_of_le_of_lt (Nat.mul_le_mul_right _ hOwns) hRange, by decide, rfl⟩
    obtain ⟨c', hDeparts, hStable', hGained⟩ :=
      h.departs_ok hCounts hx hToken hCovered hLedger hStable hAny hOwns hOwed
    have hLeg := Router.ends_of_departs h hSelf hAdapter hCounts hDeparts
    have hQuoted : Strategy.previewShares config.adapter n c = .ok shares := by
      rw [hAdapter, Strategy.previewShares_fixedRate hx, hQuote]
    have hReceives : n ≤ shares * x.rate / rateScale :=
      (Nat.le_div_iff_mul_le Rate.rateScale_pos).2 (Amount.le_mulDivCeil_mul hQuote)
    have hEnds := Router.ends_withdrawValue.2 ⟨shares, hQuoted, hAny, hLeg, hReceives⟩
    refine ⟨shares, _, c', _, hQuoted, ?_, hReceives, hEnds, ?_, hStable', hGained⟩
    · rw [hAdapter, Strategy.previewWithdraw_fixedRate hx, hOwed]
    · exact Router.stands_of_withdrawValue hSelf h (fun _ => hAdapter) hEnds
  | stable | share | yieldVault | synthetic | wrapped | custody | router | registry | roles
  | ledger => cases hSolvent

end Wiring

namespace Router

variable {f : Frame} {s : State} {initiator receiver owner : Address} {gross : Amount}

/-- What the pool that the router picks would pay for a gross amount. -/
def quoteWithdrawal (s : State) (gross : Amount) : View Amount := do
  let pools ← snapshots s .withdrawal
  let i ← Pool.Ranking.withdrawalPool pools gross
  match s.registry.toList[i]? with
  | none => refuse .liquidityExhausted
  | some config =>
    Strategy.previewWithdraw config.adapter (← Strategy.previewShares config.adapter gross)

/-- Have the picked pool pay for a gross amount, give the receiver the net amount and keep the
rest. -/
def payOut (f : Frame) (s : State) (initiator receiver owner : Address) (gross : Amount)
    (split : Fee.Split) : Exec Fee.Split := do
  let pools ← snapshots s .withdrawal
  let i ← Pool.Ranking.withdrawalPool pools gross
  match s.registry.toList[i]? with
  | none => refuse .liquidityExhausted
  | some config =>
    let received ← withdrawValue f config gross
    Token.transfer f.self (← known s.stable) receiver split.net
    let kept ← Amount.sub received split.net
    Exec.update f.self fun s : State => s.collect kept
    Exec.emit f.self (.withdrawn initiator receiver owner config.pool gross split.net split.fee)
    pure split

instance additive_payOut {split : Fee.Split} :
    Additive (payOut f s initiator receiver owner gross split) := by
  unfold payOut
  refine @Additive.bind _ _ _ _ _ fun pools => @Additive.bind _ _ _ _ _ fun i => ?_
  split <;> infer_instance

/-- A withdrawal of a user is checked and paid out. -/
theorem handleWithdraw_eq {expected : Amount} :
    handleWithdraw f initiator receiver owner gross expected =
      (guarded f "handle_withdraw" fun f s => do
        s.requireRunning
        requireShareToken s f.caller
        ensure (gross ≠ 0) .zeroAmount
        let split ← Fee.split gross s.withdrawalFee
        ensure (expected ≤ split.net) .netBelowMinimum
        payOut f s initiator receiver owner gross split) := rfl

end Router

namespace Router

variable {f : Frame} {s s₂ s₃ : State} {c c₁ c₂ : Chain} {config : Pool.Config}
  {gross paid : Amount} {pools : List Pool.Snapshot} {i : Nat} {split : Fee.Split}
  {t receiver : Address} {es : List (Address × Event)}

theorem quoteWithdrawal_of (hPools : snapshots s .withdrawal c = .ok pools)
    (hPick : Pool.Ranking.withdrawalPool pools gross = .ok i)
    (hConfig : s.registry.toList[i]? = some config) {shares : Amount}
    (hShares : Strategy.previewShares config.adapter gross c = .ok shares)
    (hPaid : Strategy.previewWithdraw config.adapter shares c = .ok paid) :
    quoteWithdrawal s gross c = .ok paid := by
  refine View.bind_eq_ok.2 ⟨pools, hPools, View.bind_eq_ok.2 ⟨i, hPick, ?_⟩⟩
  rw [hConfig]
  exact View.bind_eq_ok.2 ⟨shares, hShares, hPaid⟩

/-- Nothing is paid out where no pool is picked. -/
theorem fails_payOut_of {e : Fault} (hPools : snapshots s .withdrawal c = .ok pools)
    (hPick : Pool.Ranking.withdrawalPool pools gross = .error e) {initiator owner : Address} :
    Fails (payOut f s initiator receiver owner gross split) c e := by
  simp only [payOut, fails_view_bind, fails_result_bind]
  exact .inr ⟨pools, hPools, .inl hPick⟩

/-- A payout ends when all its parts do. -/
theorem ends_payOut_of (hPools : snapshots s .withdrawal c = .ok pools)
    (hPick : Pool.Ranking.withdrawalPool pools gross = .ok i)
    (hConfig : s.registry.toList[i]? = some config)
    (hLeg : Ends (withdrawValue f config gross) c paid c₁ es) (hStable : s.stable = some t)
    (hPay : c₁.Moves t (.transfer f.self receiver split.net) c₂) (hNet : split.net ≤ paid)
    (hs : c₂.contract? f.self = some (.router s₂))
    (hCollect : s₂.collect (paid - split.net) = .ok s₃) (initiator owner : Address) :
    ∃ es', Ends (payOut f s initiator receiver owner gross split) c split
      (c₂.put f.self (.router s₃)) es' := by
  simp only [payOut, ends_view_bind, ends_result_bind, hPools, hPick, Except.ok.injEq,
    exists_eq_left', hConfig]
  refine ⟨_, ends_bind.2 ⟨paid, c₁, es,
    [(f.self, .withdrawn initiator receiver owner config.pool gross split.net split.fee)], hLeg, ?_,
    rfl⟩⟩
  simp only [ends_result_bind, known_eq_ok, Token.ends_transfer_bind, ends_update_bind]
  refine ⟨t, hStable, c₂, hPay, _, Amount.sub_eq_ok.2 ⟨hNet, rfl⟩, s₂, s₃, hs, hCollect, ?_⟩
  exact ends_bind.2 ⟨(), _, _, [], ends_emit.2 ⟨rfl, rfl⟩, ends_pure.2 ⟨rfl, rfl, rfl⟩, rfl⟩

end Router

namespace Wiring

variable {w : Wiring} {c c' : Chain} {s : Router.State} {q : Custody} {config : Pool.Config}
  {f : Router.Frame} {gross : Amount}

/-- What the picked pool would pay depends on the custody contract and the pools only. -/
theorem FixedRatePools.quoteWithdrawal_congr (hPools : w.FixedRatePools c)
    (hComplete : w.Complete c) (hs : c.contract? w.router = some (.router s))
    (hCustody : c'.contract? w.custody = c.contract? w.custody)
    (hFixed : ∀ p, c.kind? p = some .fixedRate → c'.contract? p = c.contract? p) :
    Router.quoteWithdrawal s gross c' = Router.quoteWithdrawal s gross c := by
  refine View.bind_congr (hPools.snapshots_congr hComplete hs hCustody hFixed) fun pools _ => ?_
  refine View.bind_congr rfl fun i _ => ?_
  cases hConfig : s.registry.toList[i]? with
  | none => rfl
  | some config =>
    have hMem : config ∈ (c.routing w.router).registry.toList := by
      rw [routing_of hs]
      exact List.mem_of_getElem? hConfig
    have hKind := hPools config hMem
    obtain ⟨x, hx⟩ := fixedRate_of_kind hKind
    have hx' := (hFixed _ hKind).trans hx
    refine View.bind_congr ?_ fun shares _ => ?_
    · rw [Strategy.previewShares_fixedRate hx, Strategy.previewShares_fixedRate hx']
    · rw [Strategy.previewWithdraw_fixedRate hx, Strategy.previewWithdraw_fixedRate hx']

/-- The arithmetic of a redemption stays in range: what the fee is computed from, and all fees
collected once the rest of what the pool pays has been kept. -/
structure Fits (w : Wiring) (c : Chain) (gross : Amount) : Prop where
  fee : gross * (c.routing w.router).withdrawalFee < Amount.bound
  kept : ∀ paid, Router.quoteWithdrawal (c.routing w.router) gross c = .ok paid →
    (c.routing w.router).fees.collected +
      (paid - (gross - gross * (c.routing w.router).withdrawalFee / weightScale)) < Amount.bound

instance (w : Wiring) (c : Chain) (gross : Amount) : Decidable (w.Fits c gross) :=
  decidable_of_iff (gross * (c.routing w.router).withdrawalFee < Amount.bound ∧
      ∀ paid ∈ (Router.quoteWithdrawal (c.routing w.router) gross c).toOption,
        (c.routing w.router).fees.collected +
          (paid - (gross - gross * (c.routing w.router).withdrawalFee / weightScale)) <
            Amount.bound)
    ⟨fun h => ⟨h.1, fun paid hPaid => h.2 paid (by rw [hPaid]; rfl)⟩,
      fun h => ⟨h.fee, fun paid hPaid => h.kept paid (Result.of_toOption hPaid)⟩⟩

/-- A treasury that can pay: its pools cover their shares, the books of the pools and of the stable
token add up, and what counts as value can be found out. -/
structure Liquid (w : Wiring) (c : Chain) (s : Router.State) (q : Custody) : Prop where
  stands : w.Stands c s q
  covered : w.Covered c
  pools : ∀ p, c.kind? p = some .fixedRate → c.Balanced p
  stable : c.Balanced w.stable
  range : ∀ p, q.supports p = true → c.balance p w.custody * c.rate p < Amount.bound

/-- A registered pool counts as value, and is a fixed-rate adapter that covers its shares. -/
theorem Liquid.pool (h : w.Liquid c s q) (hMem : config ∈ s.registry.toList) :
    q.supports config.pool = true ∧ ∃ x, c.contract? config.pool = some (.fixedRate x) ∧
      (Contract.fixedRate x).Solvent w.stable (c.balance w.stable config.pool) := by
  have hRegistered : config ∈ (c.routing w.router).registry.toList := by
    rw [routing_of h.stands.router]
    exact hMem
  obtain ⟨hCounts, x, hx, hSolvent⟩ := h.covered config hRegistered
  rw [keeping_of h.stands.fixed.custody] at hCounts
  rw [h.stands.adapter_eq (h.stands.agree.registry.get?_of_mem hMem) hCounts] at hx hSolvent
  obtain ⟨-, y, hy⟩ := h.stands.fixed.pools _ hCounts
  cases hy.symm.trans hx
  exact ⟨hCounts, y, hy, hSolvent⟩

/-- Where a pool is picked, a gross amount is paid out. -/
theorem Liquid.payOut_ok (h : w.Liquid c s q) (hSelf : f.self = w.router)
    {pools : List Pool.Snapshot} (hPools : Router.snapshots s .withdrawal c = .ok pools) {i : Nat}
    (hPick : Pool.Ranking.withdrawalPool pools gross = .ok i) (hSome : gross ≠ 0)
    {split : Fee.Split} (hNet : split.net ≤ gross)
    (hKept : ∀ paid, Router.quoteWithdrawal s gross c = .ok paid →
      s.fees.collected + (paid - split.net) < Amount.bound) (initiator receiver owner : Address) :
    ∃ c' es, Ends (Router.payOut f s initiator receiver owner gross split) c split c' es := by
  have hStands := h.stands
  obtain ⟨found, hFound, hEligible, hEnough⟩ := Pool.Ranking.withdrawalPool_spec hPick
  obtain ⟨config, value, weight, hConfig, hProbe, rfl⟩ := Router.snapshots_spec hPools hFound
  have hMem := List.mem_of_getElem? hConfig
  have hGet := hStands.agree.registry.get?_of_mem hMem
  obtain ⟨hCounts, x, hx, hSolvent⟩ := h.pool hMem
  have hRange := h.range _ hCounts
  rw [hStands.probe_withdrawal hGet hCounts hx hSolvent.1 hRange] at hProbe
  -- An eligible pool has been found to be worth something, and that is what it offers.
  have hWorth : gross ≤ w.worth c config.pool := by
    rw [← Except.ok.inj hProbe] at hEnough
    exact w.offer_getD c config.pool ▸ hEnough
  obtain ⟨shares, paid, c₁, es, hShares, hPaid, hReceives, hLeg, h₁, hStable₁, hOwns⟩ :=
    hStands.withdrawValue_ok hSelf hGet hCounts hx hSolvent (h.pools _ (kind?_of_contract? hx))
      h.stable hRange hSome hWorth
  have hLess : split.net ≤ paid := Nat.le_trans hNet hReceives
  obtain ⟨u, hu⟩ := h₁.fixed.complete.stable
  obtain ⟨c₂, hPay⟩ := transfer_stable_ok hu hStable₁ (Nat.le_trans hLess hOwns) receiver
  have hRouter : c₂.contract? f.self = some (.router s) := hSelf ▸ hPay.alike.router h₁.router
  have hCollect : s.collect (paid - split.net) =
      .ok { s with fees := { s.fees with collected := s.fees.collected + (paid - split.net) } } :=
    Result.bind_eq_ok.2 ⟨_, Amount.add_eq_ok.2
      ⟨hKept paid (Router.quoteWithdrawal_of hPools hPick hConfig hShares hPaid), rfl⟩, rfl⟩
  obtain ⟨hToken, -, -⟩ := hStands.fixed.complete.links hStands.router
  exact ⟨_, Router.ends_payOut_of hPools hPick hConfig hLeg hToken (hSelf ▸ hPay) hLess hRouter
    hCollect initiator owner⟩

end Wiring

section Redeem

variable {w : Wiring} {c c' : Chain} {s : Router.State} {t t' : ShareToken} {gross shares : Amount}
  {split : Fee.Split} {caller owner receiver : Address} {es : List (Address × Event)} {e : Fault}

section Handle

variable (hs : c.contract? w.router = some (.router s)) (hRuns : s.paused = false)
  (hToken : s.shareToken = some w.share) (hWorth : gross ≠ 0)
  (hSplit : Fee.split gross s.withdrawalFee = .ok split)

include hs hRuns hToken hWorth hSplit

theorem Router.ends_handleWithdraw_of (hPaid : Ends (payOut ⟨w.router, w.share, [w.router]⟩ s caller
      receiver owner gross split) c split c' es) :
    Ends (handleWithdraw ⟨w.router, w.share, []⟩ caller receiver owner gross split.net) c split c'
      es := by
  simp only [handleWithdraw_eq, ends_guarded, ends_result_bind, State.requireRunning,
    requireShareToken, ensure_eq_ok]
  exact ⟨s, hs, List.not_mem_nil, (), hRuns, (), hToken, (), hWorth, split, hSplit, (),
    Nat.le_refl _, hPaid⟩

theorem Router.fails_handleWithdraw_of
    (hPaid : Fails (payOut ⟨w.router, w.share, [w.router]⟩ s caller receiver owner gross split) c
      e) :
    Fails (handleWithdraw ⟨w.router, w.share, []⟩ caller receiver owner gross split.net) c e := by
  rw [handleWithdraw_eq, Router.fails_guarded hs List.not_mem_nil]
  simp only [fails_result_bind, State.requireRunning, requireShareToken, ensure_eq_ok]
  exact .inr ⟨(), hRuns, .inr ⟨(), hToken, .inr ⟨(), hWorth, .inr ⟨split, hSplit,
    .inr ⟨(), Nat.le_refl _, hPaid⟩⟩⟩⟩⟩

end Handle

section Retired

variable (ht : c.contract? w.share = some (.share t)) (hRouter : t.router = some w.router)
  (hs : c.contract? w.router = some (.router s)) (hSome : shares ≠ 0)
  (hGross : t.worth shares c = .ok gross) (hWorth : gross ≠ 0)
  (hRetire : t.retire caller owner shares = .ok t')
  (hSplit : Fee.split gross s.withdrawalFee = .ok split)

include ht hs hSplit in
/-- The fee is previewed after the shares are gone, by a router that does not know of it. -/
theorem ShareToken.previewFee_retired (t' : ShareToken) :
    Router.previewFee w.router gross (c.put w.share (.share t')) = .ok split := by
  have hNe : w.router ≠ w.share := ne_of_contracts hs ht (by simp)
  have hs' := (contract?_put_of_ne c (.share t') hNe).trans hs
  exact View.bind_eq_ok.2 ⟨s, View.callee_eq_ok.2 hs', hSplit⟩

include ht hRouter hs hSome hGross hWorth hRetire hSplit

/-- A redemption ends as the router's part in it does. -/
theorem ShareToken.ends_redeem_of
    (hPaid : Ends (Router.handleWithdraw ⟨w.router, w.share, []⟩ caller receiver owner gross
      split.net) (c.put w.share (.share t')) split c' es) :
    Ends (redeem w.share caller shares receiver owner) c split.net c' es := by
  have hFee := previewFee_retired ht hs hSplit t'
  simp only [redeem, ends_entering, ends_view_bind, ends_result_bind, ends_update_bind,
    View.callee_eq_ok, ensure_eq_ok, known_eq_ok]
  refine ⟨t, ht, (), hSome, gross, hGross, (), hWorth, t, t', ht, hRetire, w.router, hRouter, split,
    hFee, ends_bind.2 ⟨split, c', es, [], hPaid, ends_pure.2 ⟨rfl, rfl, rfl⟩, List.append_nil es⟩⟩

/-- A redemption fails as the router's part in it does. -/
theorem ShareToken.fails_redeem_of
    (hPaid : Fails (Router.handleWithdraw ⟨w.router, w.share, []⟩ caller receiver owner gross
      split.net) (c.put w.share (.share t')) e) :
    Fails (redeem w.share caller shares receiver owner) c e := by
  have hFee := previewFee_retired ht hs hSplit t'
  simp only [redeem, fails_entering, fails_view_bind, fails_result_bind, fails_update_bind,
    View.callee_eq_ok, ensure_eq_ok, known_eq_ok]
  exact .inr ⟨t, ht, .inr ⟨(), hSome, .inr ⟨gross, hGross, .inr ⟨(), hWorth, .inr ⟨t, ht, .inr ⟨t',
    hRetire, .inr ⟨w.router, hRouter, .inr ⟨split, hFee, fails_bind.2 (.inl hPaid)⟩⟩⟩⟩⟩⟩⟩⟩

end Retired

end Redeem

/-- What an amount is worth is found out from all managed value, so all pools can be valued. -/
theorem Wiring.Fixed.countable_of_worth {w : Wiring} {c : Chain} {q : Custody} {t : ShareToken}
    {shares gross : Amount} (h : w.Fixed c q) (ht : c.contract? w.share = some (.share t))
    (hGross : t.worth shares c = .ok gross) (hSupply : t.ledger.supply ≠ 0) :
    w.Countable c q.supported.toList := by
  obtain ⟨t', ht', hRouter⟩ := h.complete.share
  obtain rfl : t = t' := storage_unique ht ht'
  obtain ⟨b, hBacking, -⟩ := ShareToken.worth_spec hGross hSupply
  obtain ⟨s, nav, -, hNav, -⟩ := (ShareToken.backing_eq_ok hRouter).1 hBacking
  exact (h.totalManagedAssets_ok hNav).1

section Retired

variable {w : Wiring} {c : Chain} {s : Router.State} {q : Custody} {t t' : ShareToken}
  {initiator owner : Address} {shares : Amount} (ht : c.contract? w.share = some (.share t))
  (hRetire : t.retire initiator owner shares = .ok t')

include ht hRetire

/-- A treasury stands as before when an owner's shares are gone. -/
theorem Wiring.Stands.retired (h : w.Stands c s q) :
    w.Stands (c.put w.share (.share t')) s q := by
  obtain ⟨l, hBurn, rfl⟩ := ShareToken.retire_spec hRetire
  have hAlike : Alike c (c.put w.share (.share { t with ledger := l })) := alike_put ht (by rfl)
  refine h.alike hAlike fun b spender hKind => ?_
  rw [hAlike.kind?] at hKind
  have hAllowance := h.reserved b spender hKind
  rw [allowance, books?_put ht]
  split
  · next hAt =>
    subst hAt
    obtain ⟨-, hSpent, -⟩ := Token.Ledger.burnFrom_spec hBurn
    rw [allowance, books?_of_contract? ht] at hAllowance
    exact Nat.le_zero.1 (hAllowance ▸ Nat.le.intro (hSpent w.router spender))
  · exact hAllowance

/-- A treasury can pay as before when an owner's shares are gone. -/
theorem Wiring.Liquid.retired (h : w.Liquid c s q) :
    w.Liquid (c.put w.share (.share t')) s q := by
  have hStands := h.stands.retired ht hRetire
  have hOther : ∀ p, c.kind? p = some .fixedRate ∨ c.kind? p = some .stable → p ≠ w.share := by
    rintro p hKind rfl
    rw [kind?_of_contract? ht] at hKind
    simp [Contract.kind] at hKind
  have hBooks : ∀ p, c.kind? p = some .fixedRate ∨ c.kind? p = some .stable →
      (c.put w.share (.share t')).books? p = c.books? p := fun p hKind => by
    rw [books?_put ht, if_neg (hOther p hKind)]
  obtain ⟨u, hu⟩ := h.stands.fixed.complete.stable
  have hStable := hBooks w.stable (.inr (kind?_of_contract? hu))
  have hPools : ∀ {p}, q.supports p = true → c.kind? p = some .fixedRate := fun hp => by
    obtain ⟨-, x, hx⟩ := h.stands.fixed.pools _ hp
    exact kind?_of_contract? hx
  refine ⟨hStands, fun config hMem => ?_, fun p hKind => ?_, h.stable.of_books hStable,
    fun p hp => ?_⟩
  · rw [routing_of hStands.router, ← routing_of h.stands.router] at hMem
    obtain ⟨hCounts, x, hx, hSolvent⟩ := h.covered config hMem
    rw [keeping_of hStands.fixed.custody, ← keeping_of h.stands.fixed.custody, balance, hStable]
    refine ⟨hCounts, x, ?_, hSolvent⟩
    exact (contract?_put_of_ne c _ (hOther _ (.inl (h.covered.fixedRatePools config hMem)))).trans
      hx
  · have hBefore : c.kind? p = some .fixedRate := by
      rwa [kind?_put ht (by rfl)] at hKind
    exact (h.pools p hBefore).of_books (hBooks p (.inl hBefore))
  · have hRate : (c.put w.share (.share t')).rate p = c.rate p := rate_put ht (by rfl) p
    rw [balance, hBooks p (.inl (hPools hp)), hRate]
    exact h.range p hp

end Retired

section Replaced

variable {w : Wiring} {c : Chain} {s : Router.State} {q : Custody} {t : ShareToken}
  (h : w.Liquid c s q) (ht : c.contract? w.share = some (.share t)) (new : Contract)

include h ht

/-- Neither the custody contract nor a pool is replaced with the share token. -/
theorem Wiring.Liquid.frame :
    (c.put w.share new).contract? w.custody = c.contract? w.custody ∧
      ∀ p, c.kind? p = some .fixedRate → (c.put w.share new).contract? p = c.contract? p := by
  constructor
  · exact contract?_put_of_ne c new (ne_of_contracts h.stands.fixed.custody ht (by simp))
  · intro p hKind
    obtain ⟨x, hx⟩ := fixedRate_of_kind hKind
    exact contract?_put_of_ne c new (ne_of_contracts hx ht (by simp))

theorem Wiring.Liquid.snapshots_replaced :
    Router.snapshots s .withdrawal (c.put w.share new) = Router.snapshots s .withdrawal c :=
  h.covered.fixedRatePools.snapshots_congr h.stands.fixed.complete h.stands.router
    (h.frame ht new).1 (h.frame ht new).2

theorem Wiring.Liquid.quoteWithdrawal_replaced (gross : Amount) :
    Router.quoteWithdrawal s gross (c.put w.share new) = Router.quoteWithdrawal s gross c :=
  h.covered.fixedRatePools.quoteWithdrawal_congr h.stands.fixed.complete h.stands.router
    (h.frame ht new).1 (h.frame ht new).2

end Replaced

/-- In a wired run, a treasury whose pools cover their shares can pay. -/
theorem WiredRun.liquid {w : Wiring} {c : Chain} {s : Router.State} {q : Custody}
    (hRun : WiredRun w c)
    (h : w.Stands c s q) (hCovered : w.Covered c) (hCountable : w.Countable c q.supported.toList) :
    w.Liquid c s q where
  stands := h
  covered := hCovered
  pools _ hKind := hRun.run.balanced (.of_kind hKind (by decide))
  stable := by
    obtain ⟨u, hu⟩ := h.fixed.complete.stable
    refine hRun.run.balanced ⟨by simp [kind?_of_contract? hu, Contract.kind], fun _ => ?_⟩
    exact hRun.kept.constructed _ (by simp [Wiring.places])
  range _ hp := hCountable.1 _ (h.fixed.supported.mem_toList.2 hp)

/-- Whatever has been done before, an account that redeems shares of its own gets their net worth as
long as the gross worth is within the limit that the router advertises, and is refused for want of
liquidity if it is not. The router has to run, its pools have to be open and able to pay for all
their shares, and no result may leave the range of amounts. The limit can always be found out. -/
theorem WiredRun.redeems_within_limit {w : Wiring} {c : Chain} (hRun : WiredRun w c)
    (hComplete : w.Complete c) (hRuns : (c.routing w.router).paused = false)
    (hCovered : w.Covered c)
    {owner : Digest} {shares gross : Amount} (hSome : shares ≠ 0)
    (hOwns : shares ≤ c.balance w.share (.account owner))
    (hGross : ShareToken.convertToAssets w.share shares c = .ok gross) (hWorth : gross ≠ 0)
    (hFits : w.Fits c gross) (receiver : Address) :
    ∃ limit, Router.maxSinglePoolWithdrawal w.router c = .ok limit ∧
      (gross ≤ limit → ∃ out, c.submit (.account owner) w.share
        (.share (.redeem shares receiver (.account owner))) = .ok out ∧ out.answer =
          .amount (gross - gross * (c.routing w.router).withdrawalFee / weightScale)) ∧
      (limit < gross → c.submit (.account owner) w.share
        (.share (.redeem shares receiver (.account owner))) =
          .error (.refused .liquidityExhausted)) := by
  obtain ⟨s, q, hStands⟩ := hRun.stands hComplete hCovered.fixedRatePools
  have hs := hStands.router
  obtain ⟨t, ht, hRouter⟩ := hComplete.share
  obtain ⟨hFee, hKept⟩ := hFits
  rw [routing_of hs] at hRuns hFee hKept
  rw [routing_of hs]
  obtain ⟨-, -, hToken⟩ := hComplete.links hs
  have hBooks := books?_of_contract? ht
  have hKind : c.kind? w.share = some .share := kind?_of_contract? ht
  have hShares : t.ledger.Balanced := hRun.run.balanced (.of_kind hKind (by decide)) _ hBooks
  rw [balance, hBooks] at hOwns
  have hSupply : t.ledger.supply ≠ 0 := fun hNone =>
    hSome (Nat.le_zero.1 (hNone ▸ Nat.le_trans hOwns (hShares.le_supply _)))
  have hPrice := (ShareToken.convertToAssets_eq_ok ht).1 hGross
  have hCountable := hStands.fixed.countable_of_worth ht hPrice hSupply
  have hLiquid := hRun.liquid hStands hCovered hCountable
  obtain ⟨l, hBurn⟩ := hShares.burn_ok hOwns
  have hRetire : t.retire (.account owner) (.account owner) shares =
      .ok { t with ledger := l } := by
    rw [ShareToken.retire, if_pos rfl, pure_bind]
    exact Result.bind_eq_ok.2 ⟨l, hBurn, rfl⟩
  have hSplit := Fee.split_ok hStands.agree.fee hFee
  obtain ⟨pools, hPools⟩ := hStands.snapshots_ok (fun config hMem => by
    obtain ⟨hCounts, x, hx, hHealthy, -⟩ := hLiquid.pool hMem
    exact ⟨hCounts, x, hx, hHealthy⟩) hCountable
  -- The router and the pools are the same when the shares are gone.
  have hLiquid₁ := hLiquid.retired ht hRetire
  have hPools₁ := hLiquid.snapshots_replaced ht (.share { t with ledger := l })
  have hQuote₁ := hLiquid.quoteWithdrawal_replaced ht (.share { t with ledger := l }) gross
  obtain ⟨hPicks, hRefuses⟩ := Pool.Ranking.withdrawalPool_of_limit pools hWorth
  refine ⟨_, Router.maxSinglePoolWithdrawal_eq hs hPools, fun hWithin => ?_, fun hAbove => ?_⟩
  · obtain ⟨i, hPick⟩ := hPicks hWithin
    obtain ⟨c', es, hPaid⟩ := hLiquid₁.payOut_ok (f := ⟨w.router, w.share, [w.router]⟩) rfl
      (hPools₁.trans hPools) hPick hWorth (Fee.net_le hSplit)
      (fun paid hPaid => hKept paid (hQuote₁.symm.trans hPaid)) (.account owner) receiver
      (.account owner)
    have hEnds := ShareToken.ends_redeem_of ht hRouter hs hSome hPrice hWorth hRetire hSplit
      (Router.ends_handleWithdraw_of hLiquid₁.stands.router hRuns hToken hWorth hSplit hPaid)
    have hRun : (Command.share (.redeem shares receiver (.account owner))).run c.callback w.share
        (.account owner) = _ := rfl
    obtain ⟨out, hCall, hAnswer, -⟩ := submit_amount_of_ends hRun hEnds
    exact ⟨out, hCall, hAnswer⟩
  · refine submit_eq_error.2 (fails_map.2 ?_)
    refine ShareToken.fails_redeem_of ht hRouter hs hSome hPrice hWorth hRetire hSplit ?_
    refine Router.fails_handleWithdraw_of hLiquid₁.stands.router hRuns hToken hWorth hSplit ?_
    exact Router.fails_payOut_of (hPools₁.trans hPools) (hRefuses hAbove)

/-- Two pools are worth 6000 and 4000. Of 10000 shares, 5000 are redeemed for 4950 after the fee,
and 9000 are refused. -/
theorem WiredRun.redeems_within_limit_of_two : ∃ c out,
    WiredRun Standard.places c ∧ Standard.places.Complete c ∧
      (c.routing Standard.router).paused = false ∧ Standard.places.Covered c ∧
      ShareToken.convertToAssets Standard.share 5000 c = .ok 5000 ∧ Standard.places.Fits c 5000 ∧
      ShareToken.convertToAssets Standard.share 9000 c = .ok 9000 ∧ Standard.places.Fits c 9000 ∧
      Router.maxSinglePoolWithdrawal Standard.router c = .ok 6000 ∧
      c.submit (.account 1) Standard.share (.share (.redeem 5000 (.account 2) (.account 1))) =
        .ok out ∧ out.answer = .amount 4950 ∧
      c.submit (.account 1) Standard.share (.share (.redeem 9000 (.account 2) (.account 1))) =
        .error (.refused .liquidityExhausted) := by
  have hEnd : (Standard.places.follow {} (Standard.pooled 0 1
      { admin := .account 0, withdrawalFee := 10_000 } 1_500_000_000_000_000_000 10_000 ++
      [.call 0 Standard.router (.router (.updatePoolTarget Standard.pool 500_000)),
        .deploy 0 (.fixedRate (.account 0) Standard.stable Standard.custody rateScale),
        .call 0 Standard.router (.router (.registerAdapter (.ofNumber 6) (.ofNumber 6))),
        .call 0 Standard.router (.router (.addPool (.ofNumber 6) 500_000)),
        .call 0 Standard.router (.router (.grantRole Roles.solver (.account 1))),
        .call 1 Standard.router (.router (.solverDepositByAssets
          [⟨Standard.pool, 6000⟩, ⟨.ofNumber 6, 4000⟩] 0 (.account 1)))])).any (fun c =>
      Standard.places.completes c && (!(c.routing Standard.router).paused &&
        decide (Standard.places.Covered c) &&
        decide (10_000 ≤ c.balance Standard.share (.account 1)) &&
        (ShareToken.convertToAssets Standard.share 5000 c).toOption == some 5000 &&
        decide (Standard.places.Fits c 5000) &&
        (ShareToken.convertToAssets Standard.share 9000 c).toOption == some 9000 &&
        decide (Standard.places.Fits c 9000) &&
        (Router.maxSinglePoolWithdrawal Standard.router c).toOption == some 6000 &&
        (c.routing Standard.router).withdrawalFee == 10_000)) = true := by decide +kernel
  obtain ⟨c, hRun, hComplete, hHolds⟩ := Wiring.exists_reached hEnd
  simp only [Bool.and_eq_true, Bool.not_eq_true', decide_eq_true_eq, beq_iff_eq] at hHolds
  obtain ⟨⟨⟨⟨⟨⟨⟨⟨hRuns, hCovered⟩, hOwns⟩, hPrice⟩, hFits⟩, hPrice'⟩, hFits'⟩, hLimit⟩, hFee⟩ :=
    hHolds
  have hGross := Result.of_toOption hPrice
  have hGross' := Result.of_toOption hPrice'
  have hMost := Result.of_toOption hLimit
  obtain ⟨limit, hFound, hPaid, -⟩ := redeems_within_limit hRun hComplete hRuns hCovered
    (show (5000 : Nat) ≠ 0 by decide) (Nat.le_trans (by decide) hOwns) hGross (by decide) hFits
    (.account 2)
  obtain rfl : 6000 = limit := Except.ok.inj (hMost.symm.trans hFound)
  obtain ⟨out, hCall, hAnswer⟩ := hPaid (by decide)
  obtain ⟨limit, hFound, -, hRefused⟩ := redeems_within_limit hRun hComplete hRuns hCovered
    (show (9000 : Nat) ≠ 0 by decide) (Nat.le_trans (by decide) hOwns) hGross' (by decide) hFits'
    (.account 2)
  obtain rfl : 6000 = limit := Except.ok.inj (hMost.symm.trans hFound)
  refine ⟨c, out, hRun, hComplete, hRuns, hCovered, hGross, hFits, hGross', hFits', hMost, hCall,
    ?_, hRefused (by decide)⟩
  rw [hAnswer]
  change Answer.amount (5000 - 5000 * (c.routing Standard.router).withdrawalFee / weightScale) = _
  rw [hFee]
  rfl

end Treasury
