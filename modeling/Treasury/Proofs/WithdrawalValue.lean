import Treasury.Proofs.Legs
import Treasury.Proofs.Pricing

/-! Withdrawals conserve value. What a withdrawal pays leaves the treasury, and with it at most one
unit for each pool that was drawn on. -/
namespace Treasury

open Exec Chain

namespace Wiring

variable {w : Wiring} {c c' : Chain} {q : Custody} {paid loss : Nat}

/-- All managed value can be found out on both chains. It falls by what is paid, and by no more than
the loss besides. -/
def FallsBy (w : Wiring) (paid loss : Nat) (c c' : Chain) : Prop :=
  ∃ nav nav', Router.totalManagedAssets w.router c = .ok nav ∧
    Router.totalManagedAssets w.router c' = .ok nav' ∧ nav' + paid ≤ nav ∧
      nav ≤ nav' + paid + loss

/-- What conserves value and draws on pools only leaves value that can be found out again. -/
theorem Fixed.fallsBy (h : w.Fixed c q)
    (hConserves : w.Conserves q.supported.toList 0 paid loss c c')
    (hDraws : w.Draws q.supported.toList c c')
    (hNav : ∃ nav, Router.totalManagedAssets w.router c = .ok nav) : w.FallsBy paid loss c c' := by
  obtain ⟨nav, hNav⟩ := hNav
  obtain ⟨⟨hProducts, hTotal⟩, rfl⟩ := h.totalManagedAssets_ok hNav
  have hUpper := hConserves.upper
  have hLower := hConserves.lower
  have hCountable : w.Countable c' q.supported.toList := by
    refine ⟨fun p hp => ?_, by omega⟩
    rw [hConserves.steady.rates]
    exact Nat.lt_of_le_of_lt (Nat.mul_le_mul_right _ (hDraws p hp)) (hProducts p hp)
  refine ⟨_, w.managed c' q.supported.toList, hNav, ?_, by omega, by omega⟩
  rw [(hConserves.steady.fixed h).totalManagedAssets_eq, if_pos hCountable]

end Wiring

namespace Router

variable {wiring : Wiring} {user : Address} {w : World} {f : Frame} {q : Custody} {s : State}
  {receiver owner initiator : Address}

/-- The router pays stable to a receiver, and changes its own storage. -/
theorem conserves_payment {c c₁ c₂ : Chain} {loss : Nat} {net : Amount}
    (h : wiring.Fixed c q)
    (hConverts : wiring.Converts user q.supported.toList loss c c₁)
    (hDraws : wiring.Draws q.supported.toList c c₁) (hReceiver : receiver ≠ wiring.router)
    (hMove : c₁.Moves wiring.stable (.transfer wiring.router receiver net) c₂) :
    wiring.Conserves q.supported.toList 0 net loss c c₂ ∧
      wiring.Draws q.supported.toList c c₂ := by
  obtain ⟨hPay, hSame⟩ := (hConverts.conserves.steady.fixed h).conserves_pay hReceiver hMove
  exact ⟨hConverts.then_pays hPay, hDraws.trans hSame⟩

/-- Fees that are kept are only written down. -/
theorem conserves_collect {c c₁ : Chain} {paid loss : Nat} {kept : Amount} {s' s'' : State}
    (h : wiring.Fixed c q) (hSoFar : wiring.Conserves q.supported.toList 0 paid loss c c₁)
    (hDraws : wiring.Draws q.supported.toList c c₁) (hs' : c₁.contract? f.self = some (.router s'))
    (hCollect : s'.collect kept = .ok s'') :
    wiring.Conserves q.supported.toList 0 paid loss c (c₁.put f.self (.router s'')) ∧
      wiring.Draws q.supported.toList c (c₁.put f.self (.router s'')) := by
  obtain ⟨hPut, hSame, -⟩ := (hSoFar.steady.fixed h).conserves_put (.router s'') hs'
    (Records.collected hCollect).face (.inr (by rfl))
  exact ⟨hSoFar.then_same hPut, hDraws.trans hSame⟩

/-- A user's withdrawal pays its net amount to the receiver, and to no other account. -/
theorem after_handleWithdraw_conserves {gross expected : Amount} (h : wiring.Fixed w.chain q)
    (hs : w.chain.contract? wiring.router = some (.router s)) (hSelf : f.self = wiring.router)
    (hKnown : ∀ config ∈ s.registry.toList, q.supports config.pool = true →
      config.adapter = config.pool) (hReceiver : receiver ≠ wiring.router) :
    After (handleWithdraw f initiator receiver owner gross expected) w fun split v =>
      wiring.Conserves q.supported.toList 0 split.net 1 w.chain v.chain ∧
        wiring.Draws q.supported.toList w.chain v.chain ∧
          ∀ x, w.chain.kind? x = none → v.chain.balance wiring.stable x =
            w.chain.balance wiring.stable x + if x = receiver then split.net else 0 := by
  obtain ⟨hStable, -⟩ := h.complete.links hs
  simp only [handleWithdraw, after_guarded, after_bind, after_view, after_result, ensure_eq_ok,
    State.requireRunning, requireShareToken, forall_const]
  intro s' hs' _ _ _ _ split _ _ pools _ i _
  obtain rfl : s = s' := storage_unique hs (hSelf ▸ hs')
  split
  · simp only [refuse, reduceCtorEq, after_result, false_implies, implies_true]
  · next config hConfig =>
    simp only [after_bind, after_result, known_eq_ok, after_update, after_emit, after_pure]
    have hMem := List.mem_of_getElem? hConfig
    refine After.mono (after_withdrawValue_converts f.caller (by exact h) (by exact hSelf)
      (by exact hKnown config hMem)) ?_
    rintro received u ⟨hConverts, hDraws⟩ stable hst
    obtain rfl : wiring.stable = stable := Option.some.inj (hStable.symm.trans hst)
    refine Token.after_transfer.mono fun _ v hMove kept _ s' t hs' hCollect => ?_
    rw [hSelf] at hMove
    obtain ⟨hPaid, hDrawn⟩ := conserves_payment h hConverts hDraws hReceiver hMove
    obtain ⟨hConserves, hDrawn'⟩ := conserves_collect h hPaid hDrawn hs' hCollect
    refine ⟨hConserves, hDrawn', fun x hx => ?_⟩
    have hMoved := hMove.balance_transfer wiring.stable x
    have hNotRouter := ne_of_contract? hs hx
    simp only [true_and, hNotRouter, if_false, Nat.add_zero] at hMoved
    rw [balance, books?_put_same hs' (by rfl), ← balance, hMoved, hConverts.outside x hx]

/-- A solver's withdrawal is settled: the receiver is paid, shares are destroyed, and the fee is
written down. -/
theorem after_settleWithdrawal_conserves {c : Chain} {loss : Nat} {token : Address}
    {split : Fee.Split} {kept shares : Amount} {legs : Nat} (h : wiring.Fixed c q)
    (hConverts : wiring.Converts user q.supported.toList loss c w.chain)
    (hDraws : wiring.Draws q.supported.toList c w.chain) (hSelf : f.self = wiring.router)
    (hStable : s.stable = some wiring.stable) (hReceiver : receiver ≠ wiring.router) :
    After (settleWithdrawal f s token receiver owner split kept shares legs) w fun _ v =>
      wiring.Conserves q.supported.toList 0 split.net loss c v.chain ∧
        wiring.Draws q.supported.toList c v.chain := by
  simp only [settleWithdrawal, after_bind, after_result, known_eq_ok, after_update, after_emit]
  intro stable hst
  obtain rfl : wiring.stable = stable := Option.some.inj (hStable.symm.trans hst)
  refine Token.after_transfer.mono fun _ u hMove => ?_
  rw [hSelf] at hMove
  obtain ⟨hPaid, hDrawn⟩ := conserves_payment h hConverts hDraws hReceiver hMove
  refine ShareToken.after_burnFor.mono ?_
  rintro _ v ⟨t, t', hOld, -, -, hRetire, hv⟩ s' s'' hs' hCollect
  obtain ⟨l, -, rfl⟩ := ShareToken.retire_spec hRetire
  obtain ⟨hBurn, hSame, -⟩ := (hPaid.steady.fixed h).conserves_put
    (.share { t with ledger := l }) hOld (by rfl) (.inl (by rfl))
  rw [← hv] at hBurn hSame
  exact conserves_collect h (hPaid.then_same hBurn) (hDrawn.trans hSame) hs' hCollect

variable {legs : List Pool.Leg} {maxShares : Amount}

theorem after_solverWithdrawByAssets_fallsBy (h : wiring.Stands w.chain s q)
    (hSelf : f.self = wiring.router) (hReceiver : receiver ≠ wiring.router) :
    After (solverWithdrawByAssets f legs maxShares receiver owner) w fun net v =>
      wiring.FallsBy net legs.length w.chain v.chain := by
  obtain ⟨hStable, -, hShare⟩ := h.fixed.complete.links h.router
  simp only [solverWithdrawByAssets, after_guarded, State.requireRunning, Roles.requireRole,
    after_bind, after_view, after_result, ensure_eq_ok, forall_const, known_eq_ok, after_pure]
  intro s' hs' _ _ _ parts hParts gross _ token hToken shares hQuote _
  obtain rfl : s = s' := storage_unique h.router (hSelf ▸ hs')
  obtain ⟨hLegs, hKnown⟩ := resolveAll_spec h.agree.registry hParts
  have hLength : parts.length = legs.length := by rw [← hLegs, List.length_map]
  obtain rfl : wiring.share = token := Option.some.inj (hShare.symm.trans hToken)
  have hNav := h.fixed.complete.managed_of_previewWithdraw hQuote
  refine After.mono (after_withdrawals_converts (by exact h.fixed) (fun part hp u hFixed =>
    after_withdrawValue_converts f.caller hFixed (by exact hSelf)
      (h.adapter_eq (hKnown part hp).1)) 0) ?_
  rintro received u ⟨hConverts, hDraws⟩ split _ kept _
  rw [hLength] at hConverts
  refine (after_settleWithdrawal_conserves h.fixed hConverts hDraws hSelf hStable hReceiver).mono ?_
  rintro _ v ⟨hPaid, hDrawn⟩
  exact h.fixed.fallsBy hPaid hDrawn hNav

theorem after_solverWithdrawByShares_fallsBy (h : wiring.Stands w.chain s q)
    (hSelf : f.self = wiring.router) (hReceiver : receiver ≠ wiring.router) :
    After (solverWithdrawByShares f legs maxShares receiver owner) w fun split v =>
      wiring.FallsBy split.net legs.length w.chain v.chain := by
  obtain ⟨hStable, -, hShare⟩ := h.fixed.complete.links h.router
  simp only [solverWithdrawByShares, after_guarded, State.requireRunning, Roles.requireRole,
    after_bind, after_view, after_result, after_foldlM_view, ensure_eq_ok, forall_const,
    known_eq_ok, after_pure]
  intro s' hs' _ _ _ parts hParts gross _ _ split _ token hToken shares hQuote _ netByShares _ _
  obtain rfl : s = s' := storage_unique h.router (hSelf ▸ hs')
  obtain ⟨hLegs, hKnown⟩ := resolveAll_spec h.agree.registry hParts
  have hLength : parts.length = legs.length := by rw [← hLegs, List.length_map]
  obtain rfl : wiring.share = token := Option.some.inj (hShare.symm.trans hToken)
  have hNav := h.fixed.complete.managed_of_previewWithdraw hQuote
  refine After.mono (after_withdrawals_converts (by exact h.fixed) (fun part hp u hFixed =>
    after_withdrawShares_converts f.caller hFixed (by exact hSelf)
      (h.adapter_eq (hKnown part hp).1)) 0) ?_
  rintro received u ⟨hConverts, hDraws⟩ surplus _ fee _
  rw [hLength] at hConverts
  refine (after_settleWithdrawal_conserves h.fixed hConverts hDraws hSelf hStable hReceiver).mono ?_
  rintro _ v ⟨hPaid, hDrawn⟩
  exact h.fixed.fallsBy hPaid hDrawn hNav

end Router

namespace ShareToken

variable {wiring : Wiring} {w : World} {s : Router.State} {q : Custody}
  {caller receiver owner : Address} {shares : Amount}

/-- A redemption pays its net amount to the receiver, and to no other account. -/
theorem after_redeem_pays (h : wiring.Stands w.chain s q) (hReceiver : receiver ≠ wiring.router) :
    After (ShareToken.redeem wiring.share caller shares receiver owner) w fun net v =>
      wiring.FallsBy net 1 w.chain v.chain ∧
        ∀ x, w.chain.kind? x = none → v.chain.balance wiring.stable x =
          w.chain.balance wiring.stable x + if x = receiver then net else 0 := by
  obtain ⟨token, hToken, hKnown⟩ := h.fixed.complete.share
  simp only [ShareToken.redeem, after_entering, after_bind, after_view, after_result,
    View.callee_eq_ok, ensure_eq_ok, forall_const, known_eq_ok, after_update, after_pure]
  intro t hShare hAmount gross hGross _ t' t'' hOld hRetire router hRouter expected _
  obtain rfl : token = t := storage_unique hToken hShare
  obtain rfl : token = t' := storage_unique hToken hOld
  obtain rfl : wiring.router = router := Option.some.inj (hKnown.symm.trans hRouter)
  obtain ⟨l, hRetired, rfl⟩ := ShareToken.retire_spec hRetire
  -- The shares exist, so they were priced by the backing.
  have hSupply : token.ledger.supply ≠ 0 := by
    obtain ⟨-, -, hLess⟩ := Token.Ledger.burnFrom_spec hRetired
    intro hNone
    rw [hNone] at hLess
    exact hAmount (Nat.add_eq_zero_iff.1 hLess).2
  obtain ⟨b, hBacking, -⟩ := ShareToken.worth_spec hGross hSupply
  have hNav := h.fixed.complete.managed_of_backing hToken hBacking
  obtain ⟨hBurn, hSame, hStable⟩ := h.fixed.conserves_put
    (.share { token with ledger := l }) hOld (by rfl) (.inl (by rfl))
  have hFixed := hBurn.steady.fixed h.fixed
  have hStays : (w.chain.put wiring.share (.share { token with ledger := l })).contract?
      wiring.router = some (.router s) := by
    refine contract?_put_other ?_ h.router
    intro hPlace
    rw [hPlace, h.router] at hToken
    cases hToken
  refine After.mono (Router.after_handleWithdraw_conserves (by exact hFixed) (by exact hStays)
    (by rfl) (fun config hMem => ?_) hReceiver) ?_
  · exact h.adapter_eq (h.agree.registry.get?_of_mem hMem)
  intro split v hDone
  obtain ⟨hConserves, hDraws, hPays⟩ := hDone
  have hBoth := hBurn.trans hConserves
  simp only [Nat.zero_add] at hBoth
  refine ⟨h.fixed.fallsBy hBoth (hSame.trans hDraws) hNav, fun x hx => ?_⟩
  rw [← hStable x]
  exact hPays x ((kind?_put hOld (by rfl) x).trans hx)

theorem after_redeem_fallsBy (h : wiring.Stands w.chain s q)
    (hReceiver : receiver ≠ wiring.router) :
    After (ShareToken.redeem wiring.share caller shares receiver owner) w fun net v =>
      wiring.FallsBy net 1 w.chain v.chain :=
  (after_redeem_pays h hReceiver).mono fun _ _ hDone => hDone.1

end ShareToken

namespace Wiring

/-- A call to a target that gives up shares, with its answer, the receiver, the net amount that the
receiver gets, and how many pools are drawn on. -/
inductive Withdraws (w : Wiring) (target receiver : Address) (net : Amount) :
    Command → Answer → Nat → Prop where
  | redeem (hTarget : target = w.share) (shares : Amount) (owner : Address) :
      Withdraws w target receiver net (.share (.redeem shares receiver owner)) (.amount net) 1
  | byAssets (hTarget : target = w.router) (legs : List Pool.Leg) (maxShares : Amount)
      (owner : Address) :
      Withdraws w target receiver net
        (.router (.solverWithdrawByAssets legs maxShares receiver owner)) (.amount net) legs.length
  | byShares (hTarget : target = w.router) (legs : List Pool.Leg) (maxShares fee : Amount)
      (owner : Address) :
      Withdraws w target receiver net
        (.router (.solverWithdrawByShares legs maxShares receiver owner)) (.amounts net fee)
        legs.length

end Wiring

/-- A withdrawal from fixed-rate pools pays its net amount out of all managed value, and loses at
most one unit for each pool that is drawn on. -/
theorem WiredRun.withdrawals_conserve_value {w : Wiring} {c : Chain} (hRun : WiredRun w c)
    (hComplete : w.Complete c) (hPools : w.FixedRatePools c) {caller : Digest}
    {target receiver : Address} {command : Command} {out : Outcome} {net : Amount} {legs : Nat}
    (hCall : c.submit (.account caller) target command = .ok out)
    (hWithdraws : w.Withdraws target receiver net command out.answer legs)
    (hReceiver : receiver ≠ w.router) :
    ∃ nav nav', Router.totalManagedAssets w.router c = .ok nav ∧
      Router.totalManagedAssets w.router out.chain = .ok nav' ∧
      nav' + net ≤ nav ∧ nav ≤ nav' + net + legs := by
  obtain ⟨s, q, hStands⟩ := hRun.stands hComplete hPools
  have hAfter : After (command.run c.callback target (.account caller)) { chain := c }
      fun answer v => w.Withdraws target receiver net command answer legs →
        w.FallsBy net legs c v.chain := by
    generalize out.answer = answer at hWithdraws
    cases hWithdraws with
    | redeem hTarget shares owner =>
      subst hTarget
      refine after_map.2 ((ShareToken.after_redeem_fallsBy hStands hReceiver).mono ?_)
      intro net' v hFalls hWithdraws
      cases hWithdraws
      exact hFalls
    | byAssets hTarget pools maxShares owner =>
      refine after_map.2 ((Router.after_solverWithdrawByAssets_fallsBy hStands (by exact hTarget)
        hReceiver).mono ?_)
      intro net' v hFalls hWithdraws
      cases hWithdraws
      exact hFalls
    | byShares hTarget pools maxShares fee owner =>
      refine after_bind.2 ((Router.after_solverWithdrawByShares_fallsBy hStands (by exact hTarget)
        hReceiver).mono ?_)
      intro split v hFalls
      refine after_pure.2 fun hWithdraws => ?_
      cases hWithdraws
      exact hFalls
  exact of_submit hAfter hCall hWithdraws

/-- At a rate of 1.5, of 100 that were deposited, 41 shares are redeemed for 40. -/
theorem WiredRun.withdrawals_conserve_value_redeemed : ∃ c out nav nav',
    WiredRun Standard.places c ∧ Standard.places.Complete c ∧
      Standard.places.FixedRatePools c ∧
      c.submit (.account 1) Standard.share (.share (.redeem 41 (.account 2) (.account 1))) =
        .ok out ∧
      out.answer = .amount 40 ∧
      Router.totalManagedAssets Standard.router c = .ok nav ∧
      Router.totalManagedAssets Standard.router out.chain = .ok nav' ∧
      nav' + 40 ≤ nav ∧ nav ≤ nav' + 40 + 1 := by
  have hEnd : (Standard.places.follow {} (Standard.pooled 0 1 { admin := .account 0 }
      1_500_000_000_000_000_000 100 ++
      [.call 1 Standard.share (.share (.deposit 100 (.account 1)))])).any (fun c =>
      Standard.places.completes c && (c.submit (.account 1) Standard.share
        (.share (.redeem 41 (.account 2) (.account 1)))).toOption.any fun out =>
          decide (Standard.places.FixedRatePools c) &&
            out.answer.amount? == some 40) = true := by decide +kernel
  obtain ⟨c, out, hRun, hComplete, hCall, hHolds⟩ := Wiring.exists_submit hEnd
  simp only [Bool.and_eq_true, decide_eq_true_eq, beq_iff_eq] at hHolds
  obtain ⟨hPools, hAnswer⟩ := hHolds
  have hNet := Answer.of_amount? hAnswer
  have hRedeems : Standard.places.Withdraws Standard.share (.account 2) 40
      (.share (.redeem 41 (.account 2) (.account 1))) out.answer 1 :=
    hNet ▸ .redeem (by rfl) 41 (.account 1)
  have hReceiver : Address.account 2 ≠ Standard.places.router := by decide
  obtain ⟨nav, nav', hValue⟩ :=
    withdrawals_conserve_value hRun hComplete hPools hCall hRedeems hReceiver
  exact ⟨c, out, nav, nav', hRun, hComplete, hPools, hCall, hNet, hValue⟩

end Treasury
