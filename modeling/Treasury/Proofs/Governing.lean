import Treasury.Proofs.Decisions
import Treasury.Proofs.Flows

/-! What operators and admins do: moves of value between pools, which are flows, and changes of
settings, each of which is one decision about the router. -/
namespace Treasury

open Exec Chain

namespace Router

variable {user : Address} {w : World} {f : Frame} {back : Callback}

section Rebalance

theorem after_redeposit {s : State} {pair : Pair} {pulled minResult : Amount}
    (hBack : CallsBack user back) :
    After (redeposit back f s pair pulled minResult) w fun _ v => Flow user w.chain v.chain := by
  simp only [redeposit, after_bind, after_view, after_result, after_emit, after_pure]
  exact (after_depositIntoPool hBack).mono fun _ u hFlow _ _ _ _ => hFlow

theorem after_rebalanceByShares {giver taker : Address} {shares minResult : Amount}
    (hBack : CallsBack user back) :
    After (rebalanceByShares back f giver taker shares minResult) w fun _ v =>
      Flow user w.chain v.chain := by
  simp only [rebalanceByShares, after_guarded, State.requireRunning, Roles.requireRoleOrAdmin,
    after_bind, after_view, after_result, ensure_eq_ok, forall_const]
  intro s _ _ _ _ pair _ _ value _
  split
  · exact after_pure.2 (.refl _)
  · refine after_bind.2 (After.mono (after_withdrawShares user) fun pulled u hTrade => ?_)
    exact (after_redeposit hBack).mono fun _ v hFlow => .trans (.trade hTrade) hFlow

theorem after_rebalanceByValue {giver taker : Address} {value minResult : Amount}
    (hBack : CallsBack user back) :
    After (rebalanceByValue back f giver taker value minResult) w fun _ v =>
      Flow user w.chain v.chain := by
  simp only [rebalanceByValue, after_guarded, State.requireRunning, Roles.requireRoleOrAdmin,
    after_bind, after_result, ensure_eq_ok, forall_const]
  intro s _ _ _ _ pair _ _
  split
  · exact after_pure.2 (.refl _)
  · refine after_bind.2 (After.mono (after_withdrawValue user) fun pulled u hTrade => ?_)
    exact (after_redeposit hBack).mono fun _ v hFlow => .trans (.trade hTrade) hFlow

theorem after_rebalanceExternally {giver taker : Address} {n minResult : Amount}
    (hBack : CallsBack user back) (hCaller : w.chain.Acts user f.caller) :
    After (rebalanceExternally back f giver taker n minResult) w fun _ v =>
      Flow user w.chain v.chain := by
  simp only [rebalanceExternally, after_guarded, State.requireRunning, Roles.requireRoleOrAdmin,
    after_bind, after_result, ensure_eq_ok, forall_const]
  intro s _ _ _ _ pair _ _
  split
  · exact after_pure.2 (.refl _)
  · simp only [after_bind, after_view, after_result, known_eq_ok]
    refine After.mono (after_pullStable (hCaller.payer f.self)) fun _ u₁ hPull => ?_
    refine (after_depositIntoPool hBack).mono fun minted u₂ hFlow => ?_
    intro deposited _ _ _ custody _ released _
    have hSoFar : Flow user w.chain u₂.chain := .trans (.trade hPull) hFlow
    split
    · simp only [after_bind, after_emit, after_pure]
      refine Custody.after_transferShares.mono fun _ v hGiven => ?_
      obtain ⟨⟨q, hq, -⟩, hMove⟩ := hGiven
      exact hSoFar.trans (.trade (Custody.trade_of_transferShares hq hMove))
    · simp only [after_bind, after_emit, after_pure]
      exact hSoFar

end Rebalance

section Decisions

theorem after_recordShortfall {delta : Amount} :
    After (recordShortfall f delta) w fun _ v => w.chain.Orders f.caller f.self v.chain := by
  simp only [recordShortfall, requireAdmin, Roles.requireAdmin, Roles.requireRole, after_guarded,
    after_bind, after_view, after_result, ensure_eq_ok, forall_const, store, after_put, after_emit]
  intro s hs _ hAdmin
  intros
  exact .decided hs hAdmin (.shortfall _)

theorem after_clearShortfall {delta : Amount} :
    After (clearShortfall f delta) w fun _ v => w.chain.Orders f.caller f.self v.chain := by
  simp only [clearShortfall, requireAdmin, Roles.requireAdmin, Roles.requireRole, after_guarded,
    after_bind, after_result, ensure_eq_ok, forall_const, store, after_put, after_emit]
  intro s hs _ hAdmin
  intros
  exact .decided hs hAdmin (.shortfall _)

theorem after_updatePoolTarget {pool : Address} {target : Nat} :
    After (updatePoolTarget f pool target) w fun _ v =>
      w.chain.Orders f.caller f.self v.chain := by
  simp only [updatePoolTarget, requireAdmin, Roles.requireAdmin, Roles.requireRole, after_guarded,
    after_bind, after_result, ensure_eq_ok, forall_const, Pool.Registry.require_eq_ok, store,
    after_put, after_emit]
  intro s hs _ hAdmin hWhole config hGet hEligible registry hUpdate
  exact .decided hs hAdmin (.targeted hGet hWhole hEligible hUpdate)

theorem after_setPoolStatus {pool : Address} {status : Pool.Status} :
    After (setPoolStatus f pool status) w fun _ v =>
      w.chain.Orders f.caller f.self v.chain := by
  simp only [setPoolStatus, requireAdmin, Roles.requireAdmin, Roles.requireRole, after_guarded,
    after_bind, after_result, ensure_eq_ok, forall_const, Pool.Registry.require_eq_ok]
  intro s hs _ hAdmin config hGet hMove
  split
  · next hActive =>
    obtain rfl := Pool.Status.acceptsDeposits_eq_true.1 hActive
    simp only [after_bind, after_result, store, after_put, after_emit]
    exact fun registry hUpdate => .decided hs hAdmin (.resumed hGet hMove hUpdate)
  · next hInactive =>
    rw [Pool.Status.acceptsDeposits_eq_true] at hInactive
    simp only [after_bind, after_result]
    intro registry hUpdate
    have hStopped := Decides.stopped (c := w.chain) hGet hMove hInactive hUpdate
    split <;> simp only [after_bind, store, after_put, after_emit]
    · next hDefault =>
      rw [if_pos hDefault] at hStopped
      exact .decided hs hAdmin hStopped
    · next hDefault =>
      rw [if_neg hDefault] at hStopped
      exact .decided hs hAdmin hStopped

theorem after_replacePoolTargets {targets : List Pool.Target} :
    After (replacePoolTargets f targets) w fun _ v =>
      w.chain.Orders f.caller f.self v.chain := by
  simp only [replacePoolTargets, requireAdmin, Roles.requireAdmin, Roles.requireRole,
    after_guarded, after_bind, after_result, ensure_eq_ok, forall_const, store, after_put,
    after_emit]
  intro s hs _ hAdmin hLength configs hConfigs hWhole registry hUpdate
  exact .decided hs hAdmin (.replaced hLength hConfigs hWhole hUpdate)

theorem after_setParameter {s s' : State} {name : String} {value : Amount}
    (hs : w.chain.contract? f.self = some (.router s))
    (hAdmin : s.roles.has Roles.admin f.caller = true) (h : Decides w.chain s s') :
    After (setParameter f s' name value) w fun _ v => w.chain.Orders f.caller f.self v.chain := by
  simp only [setParameter, after_bind, store, after_put, after_emit]
  exact .decided hs hAdmin h

theorem after_setDepositCap {cap : Amount} :
    After (setDepositCap f cap) w fun _ v => w.chain.Orders f.caller f.self v.chain := by
  simp only [setDepositCap, requireAdmin, Roles.requireAdmin, Roles.requireRole, after_guarded,
    after_bind, after_result, ensure_eq_ok, forall_const]
  exact fun s hs _ hAdmin => after_setParameter hs hAdmin (.depositCap cap)

theorem after_setDustTolerance {tolerance : Amount} :
    After (setDustTolerance f tolerance) w fun _ v =>
      w.chain.Orders f.caller f.self v.chain := by
  simp only [setDustTolerance, requireAdmin, Roles.requireAdmin, Roles.requireRole, after_guarded,
    after_bind, after_result, ensure_eq_ok, forall_const]
  exact fun s hs _ hAdmin hLimit => after_setParameter hs hAdmin (.dustTolerance hLimit)

theorem after_setReinvestIncentive {incentive : Nat} :
    After (setReinvestIncentive f incentive) w fun _ v =>
      w.chain.Orders f.caller f.self v.chain := by
  simp only [setReinvestIncentive, requireAdmin, Roles.requireAdmin, Roles.requireRole,
    after_guarded, after_bind, after_result, ensure_eq_ok, forall_const]
  exact fun s hs _ hAdmin hLimit => after_setParameter hs hAdmin (.reinvestIncentive hLimit)

theorem after_setWithdrawalFee {fee : Nat} :
    After (setWithdrawalFee f fee) w fun _ v => w.chain.Orders f.caller f.self v.chain := by
  simp only [setWithdrawalFee, requireAdmin, Roles.requireAdmin, Roles.requireRole, after_guarded,
    after_bind, after_result, ensure_eq_ok, forall_const]
  exact fun s hs _ hAdmin hLimit => after_setParameter hs hAdmin (.withdrawalFee hLimit)

theorem after_setMaxPoolCount {count : Nat} :
    After (setMaxPoolCount f count) w fun _ v => w.chain.Orders f.caller f.self v.chain := by
  simp only [setMaxPoolCount, requireAdmin, Roles.requireAdmin, Roles.requireRole, after_guarded,
    after_bind, after_result, ensure_eq_ok, forall_const]
  exact fun s hs _ hAdmin hHard hCount =>
    after_setParameter hs hAdmin (.maxPoolCount hHard hCount.1 hCount.2)

theorem after_setDefaultPool {pool : Option Address} :
    After (setDefaultPool f pool) w fun _ v => w.chain.Orders f.caller f.self v.chain := by
  simp only [setDefaultPool, requireAdmin, Roles.requireAdmin, Roles.requireRole, after_guarded,
    after_bind, after_result, ensure_eq_ok, forall_const]
  intro s hs _ hAdmin
  cases pool with
  | none =>
    simp only [after_bind, store, after_put, after_emit]
    exact .decided hs hAdmin (.defaultPool (by simp))
  | some pool =>
    simp only [after_bind, after_view, after_result, ensure_eq_ok, forall_const,
      Pool.Registry.require_eq_ok, known_eq_ok, store, after_put, after_emit]
    rintro config hGet hActive k hk _ hBound rfl
    rw [Pool.Status.acceptsDeposits_eq_true] at hActive
    refine .decided hs hAdmin (.defaultPool ?_)
    rintro _ ⟨⟩
    exact ⟨config, k, hGet, hActive, hk, hBound⟩

/-- Whoever stops the flows holds a role for it. -/
theorem after_pause (hCaller : w.chain.Acts user f.caller) :
    After (pause f) w fun _ v => Flow user w.chain v.chain := by
  simp only [pause, Roles.requireRoleOrAdmin, after_guarded, after_bind, after_result,
    ensure_eq_ok, forall_const, store, after_put, after_emit]
  exact fun s hs _ hRole _ _ => .paused hs hCaller hRole

theorem after_unpause :
    After (unpause f) w fun _ v => w.chain.Orders f.caller f.self v.chain := by
  simp only [unpause, requireAdmin, Roles.requireAdmin, Roles.requireRole, after_guarded,
    after_bind, after_result, ensure_eq_ok, forall_const, store, after_put, after_emit]
  exact fun s hs _ hAdmin hPaused => .decided hs hAdmin (.unpaused hPaused)

theorem after_changeRoles {entry : String} {change : Roles → Result Roles}
    (hChange : ∀ r r', change r = .ok r' → r.Ruled f.caller r') :
    After (changeRoles f entry change) w fun _ v =>
      w.chain.Governs f.caller f.self v.chain := by
  simp only [changeRoles, after_guarded, after_bind, after_result, store, after_put]
  exact fun s hs _ roles hRoles => .ranked hs (hChange _ _ hRoles)

end Decisions

end Router

end Treasury
