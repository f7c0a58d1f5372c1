import Treasury.Proofs.Calls
import Treasury.Proofs.Pricing
import Treasury.Proofs.RouterFunds

/-! The flows of value on the fee ledger. Whatever the router takes in the course of a flow, it
gives away again or keeps as a fee, down to the last unit: what pools pay above their quotes is
kept, and what they pay less fails the flow. -/
namespace Treasury

open Exec Chain

namespace Wiring

variable {w : Wiring} {u : World} {s t : Router.State} {n m : Amount}

/-- The router writes down what has become of fees. -/
theorem shifts_recorded (hOld : u.chain.contract? w.router = some (.router s)) :
    w.Shifts (t.fees.reinvested + t.fees.incentives - t.fees.collected -
        (s.fees.reinvested + s.fees.incentives - s.fees.collected)) u
      { u with chain := u.chain.put w.router (.router t) } := by
  refine ⟨rfl, ?_⟩
  have hIdle : (u.chain.put w.router (.router t)).balance w.stable w.router =
      u.chain.balance w.stable w.router := by
    rw [balance, books?_put_same hOld (by rfl), balance]
  rw [excess, excess, fees, fees, routing_of hOld, routing_of (contract?_put_self _ hOld), hIdle]
  dsimp only
  omega

theorem shifts_collected (hOld : u.chain.contract? w.router = some (.router s))
    (h : s.collect n = .ok t) :
    w.Shifts (-n) u { u with chain := u.chain.put w.router (.router t) } := by
  obtain ⟨_, hAdd, ⟨⟩⟩ := Result.bind_eq_ok.1 h
  obtain ⟨-, rfl⟩ := Amount.add_eq_ok.1 hAdd
  refine (shifts_recorded hOld).of_eq ?_
  dsimp only
  omega

theorem shifts_reinvested (hOld : u.chain.contract? w.router = some (.router s))
    (h : s.reinvest n m = .ok t) :
    w.Shifts (n + m) u { u with chain := u.chain.put w.router (.router t) } := by
  simp only [Router.State.reinvest, Result.bind_eq_ok] at h
  obtain ⟨_, hAdd, _, hAdd', ⟨⟩⟩ := h
  obtain ⟨-, rfl⟩ := Amount.add_eq_ok.1 hAdd
  obtain ⟨-, rfl⟩ := Amount.add_eq_ok.1 hAdd'
  refine (shifts_recorded hOld).of_eq ?_
  dsimp only
  omega

end Wiring

namespace Router

variable {w : Wiring} {user : Address} {u : World} {f : Frame} {back : Callback}

/-- A guarded entry point adds nothing if its body does not. -/
theorem after_guarded_shifts {α : Type} {entry : String} {body : Frame → State → Exec α}
    (hReady : w.Ready u.chain) (hQuiet : ¬w.Paying u) (hEntry : entry ≠ "withdraw_from_strategy")
    (h : ∀ g s v, w.AtWork g v → g.caller = f.caller →
      v.chain.contract? w.router = some (.router s) →
        After (body g s) v fun _ x => w.Shifts 0 v x) :
    After (guarded f entry body) u fun _ v => w.Shifts 0 u v := by
  refine after_guarded.2 fun s hs _ => ?_
  have hSelf : f.self = w.router :=
    ((hReady.admits _ _ hs).2.2.2.2 rfl)
  rw [hSelf] at hs ⊢
  refine After.mono (h _ s _ ⟨?_, ?_, ?_, ?_, ?_⟩ rfl ?_) fun _ _ => .of_entered
  · exact hReady
  · exact Wiring.not_paying_entered hQuiet _ _ hEntry
  · exact kind?_of_contract? hs
  · rfl
  · exact List.mem_cons_self
  · exact hs

theorem after_handleDeposit_shifts {initiator receiver : Address} {assets shares : Amount}
    (hReady : w.Ready u.chain) (hQuiet : ¬w.Paying u) (hBack : w.Shielded user back)
    (hUser : user ≠ w.router) (hInitiator : initiator = user ∨ f.caller = user) :
    After (handleDeposit back f initiator assets shares receiver) u fun _ v => w.Shifts 0 u v := by
  refine after_guarded_shifts hReady hQuiet (by decide) fun g s v hWork hCaller hs => ?_
  simp only [requireShareToken, after_bind, after_view, after_result, ensure_eq_ok, forall_const]
  intro _ _ hShare _ _ _
  have hPayer : v.chain.Payer user g.self initiator := by
    rcases hInitiator with rfl | hDirect
    · exact .inl (acts_user _ _)
    · rw [hWork.self]
      exact .inr ⟨s, hs, by rw [hShare, hCaller, hDirect]⟩
  refine (after_pullStable_shifts hWork hUser hPayer).mono ?_
  rintro _ x ⟨hPulled, hWork⟩ pools _
  split
  · simp only [refuse, reduceCtorEq, after_result, false_implies, implies_true]
  · simp only [after_bind, after_emit]
    refine (after_depositIntoPool_shifts hWork hBack hUser).mono ?_
    rintro _ y ⟨hTaken, -⟩
    exact ((hPulled.trans hTaken).of_eq (Int.add_right_neg _)).announced _

theorem after_handleWithdraw_shifts {initiator receiver owner : Address} {gross expected : Amount}
    (hReady : w.Ready u.chain) (hQuiet : ¬w.Paying u) (hUser : user ≠ w.router) :
    After (handleWithdraw f initiator receiver owner gross expected) u fun _ v =>
      w.Shifts 0 u v := by
  refine after_guarded_shifts hReady hQuiet (by decide) fun g s v hWork hCaller hs => ?_
  simp only [after_bind, after_view, after_result]
  intro _ _ _ _ _ _ split _ _ _ pools _ i _
  obtain ⟨-, hKnown, -⟩ := hWork.ready.router hs
  split
  · simp only [refuse, reduceCtorEq, after_result, false_implies, implies_true]
  · simp only [after_bind, after_result, known_eq_ok, after_update, after_emit, after_pure]
    refine (after_withdrawValue_shifts hWork hUser).mono ?_
    rintro received x ⟨hReceived, hWork⟩ stable hStable
    obtain rfl : w.stable = stable := Option.some.inj (hKnown.symm.trans hStable)
    refine (after_payment_shifts hWork hUser).mono ?_
    rintro _ y ⟨hPaid, hWork⟩ kept hKept s' t hs' hCollect
    rw [hWork.self] at hs' ⊢
    have hWhole := (hReceived.trans hPaid).trans (Wiring.shifts_collected hs' hCollect)
    obtain ⟨hLess, rfl⟩ := Amount.sub_eq_ok.1 hKept
    refine (hWhole.of_eq ?_).announced _
    rw [Int.ofNat_sub hLess]
    omega

theorem after_reinvestFees_shifts (hReady : w.Ready u.chain) (hQuiet : ¬w.Paying u)
    (hBack : w.Shielded user back) (hUser : user ≠ w.router) :
    After (reinvestFees back f) u fun _ v => w.Shifts 0 u v := by
  refine after_guarded_shifts hReady hQuiet (by decide) fun g s v hWork hCaller hs => ?_
  simp only [after_bind, after_view, after_result, ensure_eq_ok, forall_const]
  intro _ _ idle _ _
  obtain ⟨-, hKnown, -⟩ := hWork.ready.router hs
  split
  · simp only [refuse, reduceCtorEq, after_result, false_implies, implies_true]
  · next pool _ =>
    simp only [after_bind, after_result, ensure_eq_ok, forall_const]
    intro config _ _ incentive _ reinvested _ _
    -- What follows the payment of the incentive, if there is one.
    have hRest : ∀ x, w.AtWork g x → w.Shifts (-incentive) v x →
        After (depositIntoPool back g config reinvested) x fun _ y => ∀ s' t,
          y.chain.contract? g.self = some (.router s') → s'.reinvest reinvested incentive = .ok t →
            w.Shifts 0 v { y with
              chain := y.chain.put g.self (.router t)
              events := y.events ++
                [(g.self, .feesReinvested g.caller pool reinvested incentive)] } := by
      intro x hWork hPaid
      refine (after_depositIntoPool_shifts hWork hBack hUser).mono ?_
      rintro _ y ⟨hTaken, hWork⟩ s' t hs' hReinvest
      rw [hWork.self] at hs' ⊢
      have hWhole := (hPaid.trans hTaken).trans (Wiring.shifts_reinvested hs' hReinvest)
      refine (hWhole.of_eq ?_).announced _
      omega
    split
    · simp only [after_bind, after_result, known_eq_ok, after_discard, after_update, after_emit,
        after_pure]
      intro stable hStable
      obtain rfl : w.stable = stable := Option.some.inj (hKnown.symm.trans hStable)
      refine (after_payment_shifts hWork hUser).mono ?_
      rintro _ x ⟨hPaid, hWork⟩
      exact hRest x hWork hPaid
    · next hNone =>
      simp only [after_bind, after_discard, after_update, after_emit, after_pure]
      obtain rfl : incentive = 0 := Classical.not_not.1 hNone
      exact hRest v hWork (.refl w v)

/-- Purchases take what they come to together. -/
theorem after_purchases_shifts {purchases : List Purchase} {start total : Amount}
    (h : w.AtWork f u) (hBack : w.Shielded user back) (hUser : user ≠ w.router)
    (hSum : (purchases.map Purchase.pay).foldlM Amount.add start = .ok total) :
    After (purchases.forM (purchase back f)) u fun _ v =>
      w.Shifts (start - total) u v ∧ w.AtWork f v := by
  -- The sum is computed before the first purchase; `start` is what of it has been spent.
  induction purchases generalizing u start with
  | nil =>
    cases hSum
    exact after_pure.2 ⟨(Wiring.Shifts.refl w u).of_eq (Int.sub_self _).symm, h⟩
  | cons p rest ih =>
    change After (purchase back f p >>= fun _ => rest.forM (purchase back f)) u _
    rw [List.map_cons, List.foldlM_cons, Result.bind_eq_ok] at hSum
    obtain ⟨next, hNext, hSum⟩ := hSum
    obtain ⟨-, rfl⟩ := Amount.add_eq_ok.1 hNext
    simp only [after_bind, purchase, after_result]
    refine (after_depositIntoPool_shifts h hBack hUser).mono ?_
    rintro minted v ⟨hTaken, hWork⟩ _ _
    refine (ih hWork hSum).mono ?_
    rintro _ x ⟨hRest, hWork⟩
    refine ⟨(hTaken.trans hRest).of_eq ?_, hWork⟩
    omega

/-- Withdrawals bring in what they come to together. -/
theorem after_withdrawals_shifts {parts : List Part} {withdraw : Part → Exec Amount}
    (h : w.AtWork f u)
    (hWithdraw : ∀ part v, w.AtWork f v →
      After (withdraw part) v fun n x => w.Shifts n v x ∧ w.AtWork f x) (start : Amount) :
    After (parts.foldlM (fun received part => do Amount.add received (← withdraw part)) start) u
      fun received v => w.Shifts (received - start) u v ∧ w.AtWork f v := by
  induction parts generalizing u start with
  | nil => exact after_pure.2 ⟨(Wiring.Shifts.refl w u).of_eq (Int.sub_self _).symm, h⟩
  | cons part rest ih =>
    simp only [List.foldlM_cons, after_bind, after_result]
    refine (hWithdraw part u h).mono ?_
    rintro paid v ⟨hPaid, hWork⟩ received hAdd
    obtain ⟨-, rfl⟩ := Amount.add_eq_ok.1 hAdd
    refine (ih hWork _).mono ?_
    rintro total x ⟨hRest, hWork⟩
    refine ⟨(hPaid.trans hRest).of_eq ?_, hWork⟩
    omega

theorem after_solverDeposit_shifts {s : State} {purchases : List Purchase} {minShares : Amount}
    {receiver : Address} (h : w.AtWork f u) (hBack : w.Shielded user back)
    (hUser : user ≠ w.router) (hCaller : u.chain.Acts user f.caller) :
    After (solverDeposit back f s purchases minShares receiver) u fun _ v => w.Shifts 0 u v := by
  simp only [solverDeposit, after_bind, after_view, after_result, after_emit, after_pure]
  intro total hTotal _ _ _ _ token _ shares _ _ _ _ _
  refine (after_pullStable_shifts h hUser (hCaller.payer f.self)).mono ?_
  rintro _ v ⟨hPulled, hWork⟩
  refine (after_purchases_shifts hWork hBack hUser hTotal).mono ?_
  rintro _ x ⟨hTaken, hWork⟩
  refine (hWork.ready.placed.after_amend_still (by exact fun _ _ => rfl)
    (by exact fun _ => by simp [Storage.wrap, Contract.kind])).mono fun _ y hIssued => ?_
  refine (((hPulled.trans hTaken).then_none hIssued.shifts).of_eq ?_).announced _
  omega

theorem after_solverDepositByAssets_shifts {legs : List Pool.Leg} {minShares : Amount}
    {receiver : Address} (hReady : w.Ready u.chain) (hQuiet : ¬w.Paying u)
    (hBack : w.Shielded user back) (hUser : user ≠ w.router) (hCaller : f.caller = user) :
    After (solverDepositByAssets back f legs minShares receiver) u fun _ v =>
      w.Shifts 0 u v := by
  refine after_guarded_shifts hReady hQuiet (by decide) fun g s v hWork hSame hs => ?_
  simp only [after_bind, after_result]
  intro _ _ _ _ parts _
  exact after_solverDeposit_shifts hWork hBack hUser (.inl (hSame.trans hCaller))

theorem after_solverDepositByShares_shifts {legs : List Pool.Leg} {minShares : Amount}
    {receiver : Address} (hReady : w.Ready u.chain) (hQuiet : ¬w.Paying u)
    (hBack : w.Shielded user back) (hUser : user ≠ w.router) (hCaller : f.caller = user) :
    After (solverDepositByShares back f legs minShares receiver) u fun _ v =>
      w.Shifts 0 u v := by
  refine after_guarded_shifts hReady hQuiet (by decide) fun g s v hWork hSame hs => ?_
  simp only [after_bind, after_view, after_result]
  intro _ _ _ _ parts _ purchases _
  exact after_solverDeposit_shifts hWork hBack hUser (.inl (hSame.trans hCaller))

/-- What a settlement does not pay out it writes down as kept. -/
theorem after_settleWithdrawal_shifts {s : State} {token receiver owner : Address}
    {split : Fee.Split} {kept shares : Amount} {legs : Nat} (h : w.AtWork f u)
    (hUser : user ≠ w.router) (hStable : s.stable = some w.stable) :
    After (settleWithdrawal f s token receiver owner split kept shares legs) u fun _ v =>
      w.Shifts (-split.net - kept) u v := by
  simp only [settleWithdrawal, after_bind, after_result, known_eq_ok, after_update, after_emit,
    hStable, Option.some.injEq]
  rintro _ rfl
  refine (after_payment_shifts h hUser).mono ?_
  rintro _ v ⟨hPaid, hWork⟩
  refine (hWork.ready.placed.after_amend_still (by exact fun _ _ => rfl)
    (by exact fun _ => by simp [Storage.wrap, Contract.kind])).mono ?_
  intro _ x hBurned s' t hs' hCollect
  rw [h.self] at hs' ⊢
  have hWhole := (hPaid.then_none hBurned.shifts).trans (Wiring.shifts_collected hs' hCollect)
  exact hWhole.announced _

theorem after_solverWithdrawByAssets_shifts {legs : List Pool.Leg} {maxShares : Amount}
    {receiver owner : Address} (hReady : w.Ready u.chain) (hQuiet : ¬w.Paying u)
    (hUser : user ≠ w.router) :
    After (solverWithdrawByAssets f legs maxShares receiver owner) u fun _ v =>
      w.Shifts 0 u v := by
  refine after_guarded_shifts hReady hQuiet (by decide) fun g s v hWork _ hs => ?_
  obtain ⟨-, hKnown, -⟩ := hWork.ready.router hs
  simp only [after_bind, after_view, after_result, after_pure]
  intro _ _ _ _ parts _ gross _ token _ shares _ _ _
  refine (after_withdrawals_shifts hWork (fun part x hWork =>
    after_withdrawValue_shifts hWork hUser) 0).mono ?_
  rintro received x ⟨hReceived, hWork⟩ split _ kept hKept
  refine (after_settleWithdrawal_shifts hWork hUser hKnown).mono fun _ y hSettled => ?_
  obtain ⟨hLess, rfl⟩ := Amount.sub_eq_ok.1 hKept
  refine (hReceived.trans hSettled).of_eq ?_
  rw [Int.ofNat_sub hLess]
  omega

theorem after_solverWithdrawByShares_shifts {legs : List Pool.Leg} {maxShares : Amount}
    {receiver owner : Address} (hReady : w.Ready u.chain) (hQuiet : ¬w.Paying u)
    (hUser : user ≠ w.router) :
    After (solverWithdrawByShares f legs maxShares receiver owner) u fun _ v =>
      w.Shifts 0 u v := by
  refine after_guarded_shifts hReady hQuiet (by decide) fun g s v hWork _ hs => ?_
  obtain ⟨-, hKnown, -⟩ := hWork.ready.router hs
  simp only [after_bind, after_view, after_result, after_foldlM_view, after_pure]
  intro _ _ _ _ parts _ gross _ _ _ split hSplit token _ shares _ _ _ netByShares _ _ _
  refine (after_withdrawals_shifts hWork (fun part x hWork =>
    after_withdrawShares_shifts hWork hUser) 0).mono ?_
  rintro received x ⟨hReceived, hWork⟩ surplus hSurplus fee hFee
  refine (after_settleWithdrawal_shifts hWork hUser hKnown).mono fun _ y hSettled => ?_
  obtain ⟨hLess, rfl⟩ := Amount.sub_eq_ok.1 hSurplus
  obtain ⟨-, rfl⟩ := Amount.add_eq_ok.1 hFee
  obtain ⟨hGross, -⟩ := Fee.split_spec hSplit
  refine (hReceived.trans hSettled).of_eq ?_
  rw [Int.natCast_add, Int.ofNat_sub hLess, ← hGross]
  dsimp only
  omega

/-- What is pulled out of one pool is deposited into the other. -/
theorem after_redeposited_shifts {s : State} {pair : Pair} {minResult : Amount}
    {withdraw : Exec Amount} (hBack : w.Shielded user back) (hUser : user ≠ w.router)
    (hWithdraw : After withdraw u fun n v => w.Shifts n u v ∧ w.AtWork f v) :
    After (do redeposit back f s pair (← withdraw) minResult) u fun _ v => w.Shifts 0 u v := by
  simp only [redeposit, after_bind, after_view, after_result, after_emit, after_pure]
  refine hWithdraw.mono ?_
  rintro pulled v ⟨hPulled, hWork⟩
  refine (after_depositIntoPool_shifts hWork hBack hUser).mono ?_
  rintro _ x ⟨hTaken, -⟩ _ _ _ _
  exact ((hPulled.trans hTaken).of_eq (Int.add_right_neg _)).announced _

theorem after_rebalanceByShares_shifts {giver taker : Address} {shares minResult : Amount}
    (hReady : w.Ready u.chain) (hQuiet : ¬w.Paying u) (hBack : w.Shielded user back)
    (hUser : user ≠ w.router) :
    After (rebalanceByShares back f giver taker shares minResult) u fun _ v =>
      w.Shifts 0 u v := by
  refine after_guarded_shifts hReady hQuiet (by decide) fun g s v hWork _ hs => ?_
  simp only [after_bind, after_view, after_result]
  intro _ _ _ _ pair _ _ _ value _
  split
  · exact after_pure.2 (.refl w v)
  · exact after_redeposited_shifts hBack hUser (after_withdrawShares_shifts hWork hUser)

theorem after_rebalanceByValue_shifts {giver taker : Address} {value minResult : Amount}
    (hReady : w.Ready u.chain) (hQuiet : ¬w.Paying u) (hBack : w.Shielded user back)
    (hUser : user ≠ w.router) :
    After (rebalanceByValue back f giver taker value minResult) u fun _ v =>
      w.Shifts 0 u v := by
  refine after_guarded_shifts hReady hQuiet (by decide) fun g s v hWork _ hs => ?_
  simp only [after_bind, after_result]
  intro _ _ _ _ pair _ _ _
  split
  · exact after_pure.2 (.refl w v)
  · exact after_redeposited_shifts hBack hUser (after_withdrawValue_shifts hWork hUser)

theorem after_rebalanceExternally_shifts {giver taker : Address} {n minResult : Amount}
    (hReady : w.Ready u.chain) (hQuiet : ¬w.Paying u) (hBack : w.Shielded user back)
    (hUser : user ≠ w.router) (hCaller : f.caller = user) :
    After (rebalanceExternally back f giver taker n minResult) u fun _ v => w.Shifts 0 u v := by
  refine after_guarded_shifts hReady hQuiet (by decide) fun g s v hWork hSame hs => ?_
  obtain ⟨-, -, hKeeper, -⟩ := hWork.ready.router hs
  simp only [after_bind, after_result]
  intro _ _ _ _ pair _ _ _
  split
  · exact after_pure.2 (.refl w v)
  · simp only [after_bind, after_view, after_result, known_eq_ok]
    have hPayer : v.chain.Payer user g.self g.caller := .inl (.inl (hSame.trans hCaller))
    refine (after_pullStable_shifts hWork hUser hPayer).mono ?_
    rintro _ x ⟨hPulled, hWork⟩
    refine (after_depositIntoPool_shifts hWork hBack hUser).mono ?_
    rintro minted y ⟨hTaken, hWork⟩ deposited _ _ _ custody hCustody released _
    obtain rfl : w.custody = custody := Option.some.inj (hKeeper.symm.trans hCustody)
    have hWhole := (hPulled.trans hTaken).of_eq (Int.add_right_neg _)
    split
    · simp only [after_bind, after_emit, after_pure, hWork.self]
      refine (after_transferShares_still hWork.ready).mono fun _ z hGiven => ?_
      exact (hWhole.then_none hGiven.shifts).announced _
    · simp only [after_bind, after_emit, after_pure]
      exact hWhole.announced _

/-- Stopping the router costs it nothing. -/
theorem after_pause_shifts (hReady : w.Ready u.chain) (hQuiet : ¬w.Paying u) :
    After (pause f) u fun _ v => w.Shifts 0 u v := by
  refine after_guarded_shifts hReady hQuiet (by decide) fun g s v hWork _ hs => ?_
  simp only [after_bind, after_result, store, after_put, after_emit, hWork.self]
  intro _ _ _ _
  refine ((Wiring.shifts_recorded hs).of_eq ?_).announced _
  exact Int.sub_self _

end Router

namespace ShareToken

variable {w : Wiring} {user self caller : Address} {u : World}

theorem after_deposit_shifts {back : Router.Callback} {assets : Amount} {receiver : Address}
    (hReady : w.Ready u.chain) (hQuiet : ¬w.Paying u) (hBack : w.Shielded user back)
    (hUser : user ≠ w.router) (hCaller : caller = user) :
    After (ShareToken.deposit back self caller assets receiver) u fun _ v => w.Shifts 0 u v := by
  have hQuiet' := Wiring.not_paying_entered hQuiet caller self
    (by decide : "deposit" ≠ "withdraw_from_strategy")
  simp only [ShareToken.deposit, after_entering, after_bind, after_view, after_result,
    after_update, after_pure]
  intro t _ _ _ shares _ _ _ router _
  refine ((Router.after_handleDeposit_shifts (by exact hReady) hQuiet' hBack hUser
    (.inl hCaller)).and (Router.after_handleDeposit hBack.toCallsBack (.inl hCaller))).mono ?_
  rintro _ v ⟨hTaken, hFlow⟩ t' _ hOld hMint
  obtain ⟨l, -, ⟨⟩⟩ := Result.bind_eq_ok.1 hMint
  have hStill := (hReady.placed.of_kinds hFlow.kind?).still_put (u := v) hOld
    (.share { t' with ledger := l }) rfl (by simp [Storage.wrap, Contract.kind])
  exact (hTaken.then_none hStill.shifts).of_entered

theorem after_redeem_shifts {shares : Amount} {receiver owner : Address}
    (hReady : w.Ready u.chain) (hQuiet : ¬w.Paying u) (hUser : user ≠ w.router)
    (hCaller : caller = user) :
    After (ShareToken.redeem self caller shares receiver owner) u fun _ v => w.Shifts 0 u v := by
  have hQuiet' := Wiring.not_paying_entered hQuiet caller self
    (by decide : "redeem" ≠ "withdraw_from_strategy")
  simp only [ShareToken.redeem, after_entering, after_bind, after_view, after_result,
    after_update, after_pure]
  intro t _ _ _ gross _ _ _ t' t'' hOld hRetire router _ expected _
  have hStill := hReady.placed.still_put
    (u := { u with marks := u.marks ++ [.entered caller self "redeem"] }) hOld
    (.share t'') rfl (by simp [Storage.wrap, Contract.kind])
  have hReady' := hReady.flow hUser (.retired hOld (.inl hCaller) hRetire)
  refine (Router.after_handleWithdraw_shifts (by exact hReady') (mt hStill.paying.1 hQuiet')
    hUser).mono fun split v hPaid => ?_
  exact (hPaid.after_none hStill.shifts).of_entered

end ShareToken

/-- No calls that come back to a router get through the ledger, at whatever depth. -/
theorem Wiring.shielded_nested {w : Wiring} {user : Address} (hUser : user ≠ w.router)
    (depth : Nat) : w.Shielded user (Router.nested depth) := by
  -- Fees may be reinvested in a pool that calls back itself, one level down.
  induction depth with
  | zero =>
    exact ⟨Router.callsBack_nested user 0, fun _ _ _ _ _ _ => after_throw.2 trivial,
      fun _ _ _ _ _ _ => after_throw.2 trivial⟩
  | succ depth ih =>
    refine ⟨Router.callsBack_nested user (depth + 1), ?_, ?_⟩
    · intro f u hReady hQuiet command hCommand
      simp only [List.mem_cons, List.not_mem_nil, or_false] at hCommand
      rcases hCommand with rfl | rfl <;>
        simp only [Router.nested, Router.run, after_discard, after_bind, after_pure]
      · exact Router.after_pause_shifts hReady hQuiet
      · exact Router.after_reinvestFees_shifts hReady hQuiet ih hUser
    · intro f u hKept hLocked command hCommand
      simp only [List.mem_cons, List.not_mem_nil, or_false] at hCommand
      rcases hCommand with rfl | rfl <;>
        simp only [Router.nested, Router.run, Router.pause, Router.reinvestFees, after_discard,
          after_bind, after_pure, Router.after_guarded]
      all_goals
        intro s hs hFree
        rw [(hKept.admits _ _ hs).2.2.2.2 rfl] at hFree
        exact absurd hLocked hFree

end Treasury
