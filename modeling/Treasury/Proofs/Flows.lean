import Treasury.Proofs.PoolCycle
import Treasury.Share.Exchange

/-! The flows of value: deposits and withdrawals of users and solvers, and reinvested fees. In each
of them the router collects from whoever called, or from the initiator that its share token names.
-/
namespace Treasury

open Exec Chain

namespace Router

variable {user : Address} {w : World} {f : Frame} {back : Callback}

theorem after_handleDeposit {initiator receiver : Address} {assets shares : Amount}
    (hBack : CallsBack user back) (hInitiator : initiator = user ∨ f.caller = user) :
    After (handleDeposit back f initiator assets shares receiver) w fun _ v =>
      Flow user w.chain v.chain := by
  simp only [handleDeposit, after_guarded, after_bind, after_view, after_result, ensure_eq_ok,
    State.requireRunning, requireShareToken, forall_const]
  intro s hs _ _ hShare _ _ _
  have hPayer : w.chain.Payer user f.self initiator := by
    rcases hInitiator with rfl | hCaller
    · exact .inl (acts_user _ _)
    · exact .inr ⟨s, hs, hCaller ▸ hShare⟩
  refine After.mono (after_pullStable hPayer) fun _ u hPull pools _ => ?_
  split
  · simp only [refuse, reduceCtorEq, after_result, false_implies, implies_true]
  · simp only [after_bind, after_emit]
    exact (after_depositIntoPool hBack).mono fun _ v hFlow => .trans (.trade hPull) hFlow

/-- A router stays where it is and as it is while others trade. -/
theorem router_of_trade {c c' : Chain} {s : State} (h : Trade user c c')
    (hs : c.contract? f.self = some (.router s)) : c'.contract? f.self = some (.router s) :=
  h.alike.router hs

theorem after_handleWithdraw (user : Address) {initiator receiver owner : Address}
    {gross expected : Amount} :
    After (handleWithdraw f initiator receiver owner gross expected) w fun _ v =>
      Flow user w.chain v.chain := by
  simp only [handleWithdraw, after_guarded, after_bind, after_view, after_result, ensure_eq_ok,
    State.requireRunning, requireShareToken, forall_const]
  intro s hs _ _ _ _ split _ _ pools _ i _
  split
  · simp only [refuse, reduceCtorEq, after_result, false_implies, implies_true]
  · simp only [after_bind, after_result, known_eq_ok, after_update, after_emit, after_pure]
    refine (after_withdrawValue user).mono fun received u hTrade stable _ => ?_
    refine Token.after_transfer.mono fun _ v hMove kept _ s' t hs' hCollect => ?_
    have hDesk := desk_of_router (router_of_trade hTrade hs)
    exact .trans (.trade (.trans hTrade (.sent (.inr hDesk) hMove)))
      (.recorded hs' (.collected hCollect))

theorem after_reinvestFees (hBack : CallsBack user back) :
    After (reinvestFees back f) w fun _ v => Flow user w.chain v.chain := by
  simp only [reinvestFees, after_guarded, after_bind, after_view, after_result, ensure_eq_ok,
    State.requireRunning, forall_const]
  intro s hs _ _ idle _ _
  split
  · simp only [refuse, reduceCtorEq, after_result, false_implies, implies_true]
  · next pool _ =>
    simp only [after_bind, after_result, ensure_eq_ok, forall_const]
    intro config _ _ incentive _ reinvested _ _
    have hRest : ∀ u : World, Trade user w.chain u.chain →
        After (depositIntoPool back { f with locked := f.self :: f.locked } config reinvested) u
          fun _ v => ∀ s' t, v.chain.contract? f.self = some (.router s') →
            State.reinvest s' reinvested incentive = .ok t →
              Flow user w.chain (v.chain.put f.self (.router t)) := by
      intro u hTrade
      refine (after_depositIntoPool hBack).mono fun _ v hFlow s' t hs' hReinvest => ?_
      exact .trans (.trans (.trade hTrade) hFlow)
        (.recorded hs' (.reinvested hReinvest))
    split
    · simp only [after_bind, after_result, known_eq_ok, after_discard, after_update, after_emit,
        after_pure]
      intro stable _
      refine Token.after_transfer.mono fun _ u hMove => ?_
      exact hRest u (.sent (.inr (desk_of_router hs)) hMove)
    · simp only [after_bind, after_discard, after_update, after_emit, after_pure]
      exact hRest _ (.refl _)

end Router

namespace ShareToken

open Router (Callback Frame)

variable {user self caller : Address} {w : World}

/-- A share token issues shares for its router. -/
theorem after_mintFor_moves {receiver : Address} {shares : Amount} :
    After (mintFor self caller receiver shares) w fun _ v =>
      ∃ t l, w.chain.contract? self = some (.share t) ∧ t.ledger.mint receiver shares = .ok l ∧
        t.router = some caller ∧ v.chain = w.chain.put self (.share { t with ledger := l }) := by
  apply after_amend
  intro t t' v hOld hIssue hv
  simp only [issue, requireRouter, Result.bind_eq_ok, ensure_eq_ok] at hIssue
  obtain ⟨_, hRouter, _, _, l, hMint, ⟨⟩⟩ := hIssue
  exact ⟨t, l, hOld, hMint, hRouter, hv⟩

theorem after_mintFor {receiver : Address} {shares : Amount} :
    After (mintFor self caller receiver shares) w fun _ v => Flow user w.chain v.chain := by
  refine after_mintFor_moves.mono ?_
  rintro _ v ⟨t, l, hOld, hMint, -, hv⟩
  rw [hv]
  exact .issued hOld hMint

/-- A share token destroys shares for its router, which says on whose behalf. -/
theorem after_burnFor {initiator owner : Address} {shares : Amount} :
    After (burnFor self caller initiator owner shares) w fun _ v =>
      ∃ t t', w.chain.contract? self = some (.share t) ∧ t.router = some caller ∧ shares ≠ 0 ∧
        t.retire initiator owner shares = .ok t' ∧ v.chain = w.chain.put self (.share t') := by
  apply after_amend
  intro t t' v hOld hRetire hv
  simp only [retireFor, requireRouter, Result.bind_eq_ok, ensure_eq_ok] at hRetire
  obtain ⟨_, hRouter, _, hShares, hRetire⟩ := hRetire
  exact ⟨t, t', hOld, hRouter, hShares, hRetire, hv⟩

theorem after_deposit {back : Callback} {assets : Amount} {receiver : Address}
    (hBack : Router.CallsBack user back) (hCaller : caller = user) :
    After (ShareToken.deposit back self caller assets receiver) w fun _ v =>
      Flow user w.chain v.chain := by
  simp only [ShareToken.deposit, after_entering, after_bind, after_view, after_result,
    View.callee_eq_ok, ensure_eq_ok, forall_const, known_eq_ok, after_update, after_pure]
  intro t _ _ shares _ _ router _
  refine After.mono (Router.after_handleDeposit hBack (.inl hCaller)) fun _ u hFlow => ?_
  intro t' _ hOld hMint
  obtain ⟨l, hl, ⟨⟩⟩ := Result.bind_eq_ok.1 hMint
  exact hFlow.trans (.issued hOld hl)

theorem after_redeem {shares : Amount} {receiver owner : Address} (hCaller : caller = user) :
    After (ShareToken.redeem self caller shares receiver owner) w fun _ v =>
      Flow user w.chain v.chain := by
  simp only [ShareToken.redeem, after_entering, after_bind, after_view, after_result,
    View.callee_eq_ok, ensure_eq_ok, forall_const, known_eq_ok, after_update, after_pure]
  intro t _ _ gross _ _ t' _ hOld hRetire router _ expected _
  refine (Router.after_handleWithdraw user).mono fun split v hFlow => ?_
  exact .trans (.retired hOld (.inl hCaller) hRetire) hFlow

end ShareToken

namespace Router

variable {user : Address} {w : World} {f : Frame} {back : Callback}

theorem after_solverDeposit {s : State} {purchases : List Purchase} {minShares : Amount}
    {receiver : Address} (hBack : CallsBack user back) (hCaller : w.chain.Acts user f.caller) :
    After (solverDeposit back f s purchases minShares receiver) w fun _ v =>
      Flow user w.chain v.chain := by
  simp only [solverDeposit, after_bind, after_view, after_result, ensure_eq_ok, forall_const,
    known_eq_ok, after_emit, after_pure]
  intro total _ _ _ _ token _ shares _ _ _
  refine (after_pullStable (hCaller.payer f.self)).mono fun _ u hPull => ?_
  have hLoop : After (purchases.forM (purchase back f)) u fun _ v =>
      Flow user w.chain v.chain := by
    refine after_forM (I := fun v => Flow user w.chain v.chain) purchases ?_ (.trade hPull)
    intro p _ v hSoFar
    simp only [purchase, after_bind, after_result, ensure_eq_ok]
    exact (after_depositIntoPool hBack).mono fun _ x hFlow _ _ => hSoFar.trans hFlow
  refine hLoop.mono fun _ v hFlow => ?_
  exact ShareToken.after_mintFor.mono fun _ x hIssue => hFlow.trans hIssue

theorem after_solverDepositByAssets {legs : List Pool.Leg} {minShares : Amount}
    {receiver : Address} (hBack : CallsBack user back) (hCaller : w.chain.Acts user f.caller) :
    After (solverDepositByAssets back f legs minShares receiver) w fun _ v =>
      Flow user w.chain v.chain := by
  simp only [solverDepositByAssets, after_guarded, State.requireRunning,
    Roles.requireRole, after_bind, after_result, ensure_eq_ok, forall_const]
  intro s hs _ _ _ parts _
  exact after_solverDeposit hBack hCaller

theorem after_solverDepositByShares {legs : List Pool.Leg} {minShares : Amount}
    {receiver : Address} (hBack : CallsBack user back) (hCaller : w.chain.Acts user f.caller) :
    After (solverDepositByShares back f legs minShares receiver) w fun _ v =>
      Flow user w.chain v.chain := by
  simp only [solverDepositByShares, after_guarded, State.requireRunning,
    Roles.requireRole, after_bind, after_view, after_result, ensure_eq_ok, forall_const]
  intro s hs _ _ _ parts _ purchases _
  exact after_solverDeposit hBack hCaller

theorem after_settleWithdrawal {s : State} {token receiver owner : Address} {split : Fee.Split}
    {kept shares : Amount} {legs : Nat} (hCaller : f.caller = user)
    (hs : w.chain.contract? f.self = some (.router s)) :
    After (settleWithdrawal f s token receiver owner split kept shares legs) w fun _ v =>
      Flow user w.chain v.chain := by
  simp only [settleWithdrawal, after_bind, after_result, known_eq_ok, after_update, after_emit]
  intro stable _
  refine Token.after_transfer.mono fun _ u hMove => ?_
  refine ShareToken.after_burnFor.mono fun _ v hBurned => ?_
  obtain ⟨t, t', hOld, -, -, hRetire, hv⟩ := hBurned
  intro s' s'' hs' hCollect
  have hBurn : Flow user u.chain v.chain := hv ▸ .retired hOld (.inl hCaller) hRetire
  exact .trans (.trans (.trade (.sent (.inr (desk_of_router hs)) hMove)) hBurn)
    (.recorded hs' (.collected hCollect))

theorem after_solverWithdrawByAssets {legs : List Pool.Leg} {maxShares : Amount}
    {receiver owner : Address} (hCaller : f.caller = user) :
    After (solverWithdrawByAssets f legs maxShares receiver owner) w fun _ v =>
      Flow user w.chain v.chain := by
  simp only [solverWithdrawByAssets, after_guarded, State.requireRunning,
    Roles.requireRole, after_bind, after_view, after_result,
    ensure_eq_ok, forall_const, known_eq_ok, after_pure]
  intro s hs _ _ _ parts _ gross _ token _ shares _ _
  refine After.mono (after_withdrawals user fun part u => after_withdrawValue user)
    fun received u hTrade => ?_
  intro split _ kept _
  refine After.mono (after_settleWithdrawal hCaller (router_of_trade hTrade hs))
    fun _ v hSettle => ?_
  exact .trans (.trade hTrade) hSettle

theorem after_solverWithdrawByShares {legs : List Pool.Leg} {maxShares : Amount}
    {receiver owner : Address} (hCaller : f.caller = user) :
    After (solverWithdrawByShares f legs maxShares receiver owner) w fun _ v =>
      Flow user w.chain v.chain := by
  simp only [solverWithdrawByShares, after_guarded, State.requireRunning,
    Roles.requireRole, after_bind, after_view, after_result,
    after_foldlM_view, ensure_eq_ok, forall_const, known_eq_ok, after_pure]
  intro s hs _ _ _ parts _ gross _ _ split _ token _ shares _ _ netByShares _ _
  refine After.mono (after_withdrawals user fun part u => after_withdrawShares user)
    fun received u hTrade => ?_
  intro surplus _ fee _
  refine After.mono (after_settleWithdrawal hCaller (router_of_trade hTrade hs))
    fun _ v hSettle => ?_
  exact .trans (.trade hTrade) hSettle

end Router

end Treasury
