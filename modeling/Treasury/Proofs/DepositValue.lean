import Treasury.Proofs.Intake

/-! Deposits conserve value. What a deposit takes in is added to all managed value, but for what a
share of each pool is worth at most. Reinvested fees change all managed value by the incentive only,
in the same way. -/
namespace Treasury

open Exec Chain

namespace Router

variable {wiring : Wiring} {w : World} {f : Frame} {back : Callback} {q : Custody} {s : State}

/-- Reinvested fees stay in the treasury, but for the incentive. -/
theorem after_reinvestFees_conserves (h : wiring.Stands w.chain s q)
    (hSelf : f.self = wiring.router) (hCaller : f.caller ≠ wiring.router) :
    After (reinvestFees back f) w fun done v => ∃ pool, s.defaultPool = some pool ∧
      wiring.Conserves q.supported.toList 0 done.incentive (w.chain.units [pool]) w.chain
        v.chain := by
  obtain ⟨hStable, -⟩ := h.fixed.complete.links h.router
  simp only [reinvestFees, after_guarded, after_bind, after_view, after_result, ensure_eq_ok,
    State.requireRunning, forall_const]
  intro s' hs' _ _ idle _ _
  obtain rfl : s = s' := storage_unique h.router (hSelf ▸ hs')
  split
  · simp only [refuse, reduceCtorEq, after_result, false_implies, implies_true]
  · next pool hDefault =>
    simp only [after_bind, after_result, ensure_eq_ok, forall_const,
      Pool.Registry.require_eq_ok]
    intro config hConfig hStatus incentive _ reinvested _ _
    have hPool : config.pool = pool := h.agree.registry.keyed pool config hConfig
    rw [← hPool] at hConfig
    have hCounts := h.counts hConfig hStatus
    -- The rest is the same with an incentive or without one.
    have hRest : ∀ u : World, wiring.Conserves q.supported.toList 0 incentive 0 w.chain u.chain →
        (∀ t spender, u.chain.kind? t ≠ some .ledger →
          u.chain.allowance t wiring.router spender = 0) →
        After (depositIntoPool back { f with locked := f.self :: f.locked } config reinvested) u
          fun _ v => ∀ s' t, v.chain.contract? f.self = some (.router s') →
            State.reinvest s' reinvested incentive = .ok t →
              wiring.Conserves q.supported.toList 0 incentive (w.chain.units [pool]) w.chain
                (v.chain.put f.self (.router t)) := by
      intro u hPaid hReserved
      have hFixed := hPaid.steady.fixed h.fixed
      refine (after_depositIntoPool_converts f.caller hFixed (by exact hSelf) hCounts
        (h.adapter_eq hConfig) hReserved).mono ?_
      intro _ v hConverts s' t hs' hReinvest
      rw [hPaid.steady.rates, hPool, ← units_singleton] at hConverts
      have hDeposited := hPaid.then_converts hConverts
      obtain ⟨hPut, -, -⟩ := (hDeposited.steady.fixed h.fixed).conserves_put (.router t) hs'
        (Records.reinvested hReinvest).face (.inr (by rfl))
      exact hDeposited.then_same hPut
    split
    · simp only [after_bind, after_result, known_eq_ok, after_discard, after_update, after_emit,
        after_pure]
      intro stable hst
      obtain rfl : wiring.stable = stable := Option.some.inj (hStable.symm.trans hst)
      refine Token.after_transfer.mono fun _ u hMove => ?_
      rw [hSelf] at hMove
      obtain ⟨hPaid, -⟩ := h.fixed.conserves_pay hCaller hMove
      refine (hRest u hPaid (h.reserved_of_move hMove (by simp))).mono ?_
      exact fun _ v hDone s' t hs' hReinvest => ⟨pool, hDefault, hDone s' t hs' hReinvest⟩
    · next hNone =>
      simp only [after_bind, after_discard, after_update, after_emit, after_pure]
      obtain rfl : incentive = 0 := Classical.byContradiction hNone
      refine After.mono (hRest _ (.refl _ _ _) h.reserved) ?_
      exact fun _ v hDone s' t hs' hReinvest => ⟨pool, hDefault, hDone s' t hs' hReinvest⟩

end Router

namespace Wiring

/-- A call that deposits. -/
inductive Deposits (w : Wiring) (target : Address) : Command → Prop where
  | user (hTarget : target = w.share) (assets : Amount) (receiver : Address) :
      Deposits w target (.share (.deposit assets receiver))
  | byAssets (hTarget : target = w.router) (legs : List Pool.Leg) (minShares : Amount)
      (receiver : Address) :
      Deposits w target (.router (.solverDepositByAssets legs minShares receiver))
  | byShares (hTarget : target = w.router) (legs : List Pool.Leg) (minShares : Amount)
      (receiver : Address) :
      Deposits w target (.router (.solverDepositByShares legs minShares receiver))

/-- How much a deposit takes, and into which pools it goes. The pool of a user's deposit is the one
that the router announces. Legs that name pool shares leave the amount open. -/
inductive Fills (w : Wiring) (events : List (Address × Event)) :
    Command → Nat → List Address → Prop where
  | user {initiator receiver pool : Address} {assets minted : Amount}
      (hPool : (w.router, .deposited initiator receiver pool assets minted) ∈ events) :
      Fills w events (.share (.deposit assets receiver)) assets [pool]
  | byAssets (legs : List Pool.Leg) (minShares : Amount) (receiver : Address) :
      Fills w events (.router (.solverDepositByAssets legs minShares receiver))
        (Pool.Leg.total legs) (legs.map Pool.Leg.pool)
  | byShares (legs : List Pool.Leg) (minShares : Amount) (receiver : Address) (taken : Nat) :
      Fills w events (.router (.solverDepositByShares legs minShares receiver)) taken
        (legs.map Pool.Leg.pool)

variable {w : Wiring} {c c' : Chain} {q : Custody} {taken paid loss nav : Nat}

/-- The pools that count as value. -/
def valued (w : Wiring) (c : Chain) : List Address := (c.keeping w.custody).supported.toList

/-- All managed value becomes what it was, with what is taken and without what is paid, but for a
loss. It can be found out just when no number on the way is too large. -/
structure Becomes (w : Wiring) (nav taken paid loss : Nat) (c' : Chain) : Prop where
  upper : w.managed c' (w.valued c') + paid ≤ nav + taken
  lower : nav + taken ≤ w.managed c' (w.valued c') + paid + loss
  found : Router.totalManagedAssets w.router c' =
    if w.Countable c' (w.valued c') then .ok (w.managed c' (w.valued c')) else .error .overflow

theorem Fixed.becomes (h : w.Fixed c q) (hNav : Router.totalManagedAssets w.router c = .ok nav)
    (hConserves : w.Conserves q.supported.toList taken paid loss c c') :
    w.Becomes nav taken paid loss c' := by
  obtain ⟨-, rfl⟩ := h.totalManagedAssets_ok hNav
  have hFixed := hConserves.steady.fixed h
  have hValued : w.valued c' = q.supported.toList := by
    rw [valued, keeping_of hFixed.custody]
  constructor
  · rw [hValued]
    exact hConserves.upper
  · rw [hValued]
    exact hConserves.lower
  · rw [hValued, hFixed.totalManagedAssets_eq]

/-- What a deposit takes in leaves the value within the cap. -/
theorem TakesIn.within_cap {s : Router.State} {payer : Address}
    (h : w.TakesIn s q payer taken loss c c') (hFixed : w.Fixed c q) (hCap : s.depositCap ≠ 0) :
    w.managed c' (w.valued c') ≤ s.depositCap := by
  obtain ⟨nav, hBefore, hRoom⟩ := h.room hCap
  obtain ⟨-, rfl⟩ := hFixed.totalManagedAssets_ok hBefore
  rw [valued, keeping_of (h.conserves.steady.fixed hFixed).custody]
  exact Nat.le_trans h.conserves.upper hRoom

/-- What is known of a deposit once it is made. -/
def Deposited (w : Wiring) (payer : Address) (command : Command)
    (events : List (Address × Event)) (c c' : Chain) : Prop :=
  ∃ taken pools nav, w.Fills events command taken pools ∧
    c'.balance w.stable payer + taken = c.balance w.stable payer ∧
    Router.totalManagedAssets w.router c = .ok nav ∧
    w.Becomes nav taken 0 (c.units pools) c' ∧
    ((c.routing w.router).depositCap ≠ 0 →
      w.managed c' (w.valued c') ≤ (c.routing w.router).depositCap)

theorem Stands.deposited {s : Router.State} {payer : Address} {command : Command}
    {events : List (Address × Event)} {pools : List Address} (h : w.Stands c s q)
    (hNav : Router.totalManagedAssets w.router c = .ok nav)
    (hFills : w.Fills events command taken pools)
    (hTaken : w.TakesIn s q payer taken (c.units pools) c c') :
    w.Deposited payer command events c c' := by
  refine ⟨taken, pools, nav, hFills, hTaken.paid, hNav, h.fixed.becomes hNav hTaken.conserves, ?_⟩
  rw [routing_of h.router]
  exact hTaken.within_cap h.fixed

/-- What is known of fees once they are reinvested. -/
def Reinvested (w : Wiring) (incentive : Amount) (c c' : Chain) : Prop :=
  ∃ pool, (c.routing w.router).defaultPool = some pool ∧
    ∀ nav, Router.totalManagedAssets w.router c = .ok nav →
      w.Becomes nav 0 incentive (c.units [pool]) c'

end Wiring

/-- A deposit into fixed-rate pools adds what it takes to all managed value, but for what a share of
each pool is worth at most, and stays within the cap. Reinvested fees leave all managed value as it
is but for the incentive, in the same way. -/
theorem WiredRun.deposits_conserve_value {w : Wiring} {c : Chain} (hRun : WiredRun w c)
    (hComplete : w.Complete c) (hPools : w.FixedRatePools c) {caller : Digest} {target : Address}
    {command : Command} {out : Outcome}
    (hCall : c.submit (.account caller) target command = .ok out) :
    (w.Deposits target command →
      w.Deposited (.account caller) command out.events c out.chain) ∧
    ∀ reinvested incentive, target = w.router → command = .router .reinvestFees →
      out.answer = .amounts reinvested incentive → w.Reinvested incentive c out.chain := by
  obtain ⟨s, q, hStands⟩ := hRun.stands hComplete hPools
  have hPayer := hRun.account_free caller
  constructor
  · intro hDeposits
    have hAfter : After (command.run c.callback target (.account caller)) { chain := c }
        fun _ v => w.Deposited (.account caller) command v.events c v.chain := by
      cases hDeposits with
      | user hTarget assets receiver =>
        subst hTarget
        refine after_map.2 ((ShareToken.after_deposit_takesIn hStands hPayer).mono ?_)
        rintro _ v ⟨pool, minted, nav, hEvent, hNav, hTaken⟩
        exact hStands.deposited hNav (.user hEvent) hTaken
      | byAssets hTarget legs minShares receiver =>
        refine after_map.2 ((Router.after_solverDepositByAssets_takesIn hStands (by exact hTarget)
          (by exact hPayer)).mono ?_)
        rintro _ v ⟨nav, hNav, hTaken⟩
        exact hStands.deposited hNav (.byAssets legs minShares receiver) hTaken
      | byShares hTarget legs minShares receiver =>
        refine after_map.2 ((Router.after_solverDepositByShares_takesIn hStands (by exact hTarget)
          (by exact hPayer)).mono ?_)
        rintro _ v ⟨total, nav, hNav, hTaken⟩
        exact hStands.deposited hNav (.byShares legs minShares receiver total) hTaken
    exact of_submit hAfter hCall
  · rintro reinvested incentive rfl rfl hAnswer
    have hCaller := hStands.payer_ne hPayer
    have hAfter : After ((Command.router .reinvestFees).run c.callback w.router (.account caller))
        { chain := c } fun answer v => answer = .amounts reinvested incentive →
          w.Reinvested incentive c v.chain := by
      refine after_bind.2 ((Router.after_reinvestFees_conserves hStands (by rfl) hCaller).mono ?_)
      rintro done v ⟨pool, hDefault, hConserves⟩
      refine after_pure.2 ?_
      rintro ⟨⟩
      refine ⟨pool, ?_, fun nav hNav => hStands.fixed.becomes hNav hConserves⟩
      rw [routing_of hStands.router, hDefault]
    exact of_submit hAfter hCall hAnswer

/-- At a rate of 1.5, of 300 an account has deposited 100 and given 20 to the router. It deposits
another 100, and another account reinvests the 20. -/
theorem WiredRun.deposits_conserve_value_deposited :
    (∃ c out, WiredRun Standard.places c ∧ Standard.places.Complete c ∧
      Standard.places.FixedRatePools c ∧
      c.submit (.account 1) Standard.share (.share (.deposit 100 (.account 1))) = .ok out ∧
      Standard.places.Deposited (.account 1) (.share (.deposit 100 (.account 1))) out.events c
        out.chain) ∧
    ∃ c out, WiredRun Standard.places c ∧ Standard.places.Complete c ∧
      Standard.places.FixedRatePools c ∧
      c.submit (.account 2) Standard.router (.router .reinvestFees) = .ok out ∧
      out.answer = .amounts 19 1 ∧ Standard.places.Reinvested 1 c out.chain := by
  have hDeposit : (Standard.places.follow {} (Standard.pooled 0 1 { admin := .account 0 }
      1_500_000_000_000_000_000 300 ++
      [.call 1 Standard.share (.share (.deposit 100 (.account 1)))])).any (fun c =>
      Standard.places.completes c && (c.submit (.account 1) Standard.share
        (.share (.deposit 100 (.account 1)))).toOption.any fun _ =>
          decide (Standard.places.FixedRatePools c)) = true := by decide +kernel
  have hReinvest : (Standard.places.follow {} (Standard.pooled 0 1
      { admin := .account 0, reinvestIncentive := 50_000 } 1_500_000_000_000_000_000 300 ++
      [.call 1 Standard.share (.share (.deposit 100 (.account 1))),
        .call 1 Standard.stable (.token (.transfer Standard.router 20)),
        .call 0 Standard.router (.router (.setDefaultPool (some Standard.pool)))])).any (fun c =>
      Standard.places.completes c && (c.submit (.account 2) Standard.router
        (.router .reinvestFees)).toOption.any fun out =>
          decide (Standard.places.FixedRatePools c) &&
            out.answer.amounts? == some (19, 1)) = true := by decide +kernel
  constructor
  · obtain ⟨c, out, hRun, hComplete, hCall, hHolds⟩ := Wiring.exists_submit hDeposit
    have hPools := of_decide_eq_true hHolds
    obtain ⟨hGrows, -⟩ := deposits_conserve_value hRun hComplete hPools hCall
    exact ⟨c, out, hRun, hComplete, hPools, hCall, hGrows (.user (by rfl) 100 (.account 1))⟩
  · obtain ⟨c, out, hRun, hComplete, hCall, hHolds⟩ := Wiring.exists_submit hReinvest
    simp only [Bool.and_eq_true, decide_eq_true_eq, beq_iff_eq] at hHolds
    obtain ⟨hPools, hDone⟩ := hHolds
    have hAnswer := Answer.of_amounts? hDone
    obtain ⟨-, hSteady⟩ := deposits_conserve_value hRun hComplete hPools hCall
    exact ⟨c, out, hRun, hComplete, hPools, hCall, hAnswer,
      hSteady 19 1 (by rfl) (by rfl) hAnswer⟩

/-- The value can become too large to be found out. At a rate of 1, an account has deposited the
largest amount whose value can be, and deposits one more. -/
theorem WiredRun.deposits_overflow_value : ∃ c out,
    WiredRun Standard.places c ∧ Standard.places.Complete c ∧
      Standard.places.FixedRatePools c ∧
      Standard.places.Deposits Standard.share (.share (.deposit 1 (.account 1))) ∧
      c.submit (.account 1) Standard.share (.share (.deposit 1 (.account 1))) = .ok out ∧
      Router.totalManagedAssets Standard.router c = .ok ((Amount.bound - 1) / rateScale) ∧
      Router.totalManagedAssets Standard.router out.chain = .error .overflow := by
  have hEnd : (Standard.places.follow {} (Standard.pooled 0 1 { admin := .account 0 } rateScale
      ((Amount.bound - 1) / rateScale + 1) ++ [.call 1 Standard.share
        (.share (.deposit ((Amount.bound - 1) / rateScale) (.account 1)))])).any (fun c =>
      Standard.places.completes c && (c.submit (.account 1) Standard.share
        (.share (.deposit 1 (.account 1)))).toOption.any fun out =>
          decide (Standard.places.FixedRatePools c) &&
            ((Router.totalManagedAssets Standard.router c).toOption ==
              some ((Amount.bound - 1) / rateScale) &&
            (Router.totalManagedAssets Standard.router out.chain).fault? ==
              some .overflow)) = true := by decide +kernel
  obtain ⟨c, out, hRun, hComplete, hCall, hHolds⟩ := Wiring.exists_submit hEnd
  simp only [Bool.and_eq_true, decide_eq_true_eq, beq_iff_eq] at hHolds
  obtain ⟨hPools, hNav, hAfter⟩ := hHolds
  exact ⟨c, out, hRun, hComplete, hPools, .user (by rfl) 1 (.account 1), hCall,
    Result.of_toOption hNav, Result.of_fault? hAfter⟩

end Treasury
