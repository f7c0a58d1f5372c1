import Treasury.Proofs.FlowFunds

/-! Calls that leave the fee ledger untouched. Decisions and changes of settings replace contracts,
but no books, and nothing that a router has recorded about fees; nor do they credit anything to
anyone. -/
namespace Treasury

open Exec Chain

section Fees

variable {user a b : Address} {c c' : Chain} {w : Wiring}

theorem Router.Decides.fees {s s' : State} (h : Decides c s s') : s'.fees = s.fees := by
  cases h <;> rfl

theorem Strategy.Tuned.routing {old new : Contract} (h : Strategy.Tuned user old new) :
    new.routing = old.routing := by
  cases h <;> rfl

theorem Router.Binds.fees {pool adapter : Address} (h : Router.Binds user pool adapter c c') :
    c'.fees b = c.fees b :=
  fees_of_map (h.map (fun _ _ => rfl) (fun _ _ => rfl) b)

theorem Configured.fees (h : Configured user c c') : c'.fees b = c.fees b := by
  cases h with
  | minters hOld | ruled hOld | obeyed hOld => exact fees_put hOld (by rfl) b
  | released _ _ hCustody => exact fees_put hCustody (by rfl) b
  | tuned hOld h => exact fees_put hOld (by rw [h.routing]) b
  | bound h => exact h.fees

theorem Chain.Governs.fees (h : c.Governs user a c') : c'.fees b = c.fees b :=
  fees_of_map (h.map (fun _ _ hDecides => hDecides.fees) (fun _ _ => rfl) (fun _ _ => rfl)
    (fun _ _ => rfl) b)

theorem Rewired.fees (h : Rewired user c c') : c'.fees b = c.fees b := by
  cases h with
  | custody hOld | share hOld | router hOld => exact fees_put hOld (by rfl) b

theorem Configured.calm (h : Configured user c c') : w.Calm c c' := .of_same (h.same _).2 h.fees

theorem Chain.Governs.calm (h : c.Governs user a c') : w.Calm c c' := .of_same (h.same _).2 h.fees

theorem Rewired.calm (h : Rewired user c c') : w.Calm c c' := .of_same (h.same _).2 h.fees

theorem Settled.calm (h : Settled user c c') : w.Calm c c' := by
  induction h with
  | refl => exact .refl w c
  | step _ hThen ih => exact ih.trans hThen.calm

theorem Chain.Arranged.calm (h : c.Arranged user c') : w.Calm c c' := by
  cases h with
  | settled h => exact h.calm
  | governed h => exact h.calm
  | rewired h => exact h.calm

end Fees

/-- What credits nothing and changes neither books nor fees is nothing to the ledger. -/
theorem Exec.Silent.still {α : Type} {m : Exec α} {w : Wiring} {u : World} (h : Silent m)
    (hCalm : After m u fun _ v => w.Calm u.chain v.chain) : After m u fun _ v => w.Still u v :=
  (hCalm.and (h w u)).mono fun _ _ hBoth => ⟨hBoth.1, hBoth.2⟩

section Silent

variable {self caller pool adapter : Address}

theorem Custody.silent_bindAdapter : Silent (bindAdapter self caller pool adapter) := by
  intro w u
  simp [bindAdapter]

theorem Custody.silent_unsupportPool : Silent (unsupportPool self caller pool) := by
  intro w u
  simp [unsupportPool]

theorem Custody.silent_changeRouter {router : Address} :
    Silent (changeRouter self caller router) := by
  intro w u
  simp [changeRouter]

end Silent

namespace Router

variable {f : Frame} {back : Callback} {pool adapter : Address} {target : Nat}

theorem silent_registerAdapter (hBack : ∀ f, Silent (back f (.registerAdapter pool adapter))) :
    Silent (registerAdapter back f pool adapter) := by
  refine silent_guarded fun f s => ?_
  refine silent_bind (silent_result _) fun _ => silent_bind (silent_result _) fun k => ?_
  refine silent_bind (silent_view _) fun x => ?_
  split
  · exact silent_bind (hBack _) fun _ => silent_bind (silent_update _ _) fun _ => silent_emit _ _
  · exact silent_bind Custody.silent_bindAdapter fun _ =>
      silent_bind (silent_update _ _) fun _ => silent_emit _ _

theorem silent_removeAdapter : Silent (removeAdapter f pool) := by
  intro w u
  simp only [removeAdapter, after_guarded, after_bind, after_result]
  intro s _ _ _ _
  split <;> simp only [after_bind, after_view, after_result] <;> intros <;> split <;>
    simp [refuse, Custody.unsupportPool, Custody.unbindAdapter, amend]

theorem silent_addPool : Silent (addPool f pool target) := by
  intro w u
  simp only [addPool, after_guarded, after_bind, after_view, after_result]
  intros
  split <;> simp [refuse, store, Custody.supportPool, amend]

theorem silent_setPoolStatus {status : Pool.Status} : Silent (setPoolStatus f pool status) := by
  intro w u
  simp [setPoolStatus, store]

theorem silent_setDefaultPool {pool : Option Address} : Silent (setDefaultPool f pool) := by
  intro w u
  cases pool <;> simp [setDefaultPool, store]

/-- A command that changes settings credits nothing. -/
theorem silent_run_arranged
    (hBack : ∀ f pool adapter, Silent (back f (.registerAdapter pool adapter))) {command : Command}
    (hNeeds : command.needsRunning = false) : Silent (run back f command) := by
  have hAnswered {α : Type} {m : Exec α} {answer : α → Answer} (h : Silent m) :
      Silent (do let a ← m; pure (answer a)) := silent_bind h fun _ => silent_pure _
  cases command with
  | registerAdapter => exact hAnswered (silent_registerAdapter fun f => hBack f _ _)
  | removeAdapter => exact hAnswered silent_removeAdapter
  | addPool => exact hAnswered silent_addPool
  | setPoolStatus => exact hAnswered silent_setPoolStatus
  | setDefaultPool => exact hAnswered silent_setDefaultPool
  | recordShortfall => exact hAnswered fun _ _ => by simp [recordShortfall, store]
  | clearShortfall => exact hAnswered fun _ _ => by simp [clearShortfall, store]
  | updatePoolTarget => exact hAnswered fun _ _ => by simp [updatePoolTarget, store]
  | removePool => exact hAnswered fun _ _ => by simp [removePool, store]
  | replacePoolTargets => exact hAnswered fun _ _ => by simp [replacePoolTargets, store]
  | setDepositCap => exact hAnswered fun _ _ => by simp [setDepositCap, setParameter, store]
  | setDustTolerance => exact hAnswered fun _ _ => by simp [setDustTolerance, setParameter, store]
  | setReinvestIncentive =>
    exact hAnswered fun _ _ => by simp [setReinvestIncentive, setParameter, store]
  | setWithdrawalFee => exact hAnswered fun _ _ => by simp [setWithdrawalFee, setParameter, store]
  | setMaxPoolCount => exact hAnswered fun _ _ => by simp [setMaxPoolCount, setParameter, store]
  | unpause => exact hAnswered fun _ _ => by simp [unpause, store]
  | grantRole | revokeRole | renounceRole => exact hAnswered fun _ _ => by simp [changeRoles, store]
  | setShareToken => exact hAnswered fun _ _ => by simp [setShareToken, store]
  | _ => cases hNeeds

/-- Calls that come back to a router credit nothing when they have it bind an adapter. -/
theorem silent_nested (depth : Nat) (f : Frame) :
    Silent (nested depth f (.registerAdapter pool adapter)) := by
  induction depth generalizing f with
  | zero => exact silent_throw _
  | succ depth ih =>
    intro w u
    simp only [nested, run, after_discard, after_bind, after_pure]
    exact silent_registerAdapter ih w u

end Router

section Settings

variable {w : Wiring} {user self caller pool adapter : Address} {u : World}

theorem Custody.after_bindAdapter_still (hPlaced : w.Placed u.chain) :
    After (bindAdapter self caller pool adapter) u fun _ v => w.Still u v := by
  refine silent_bindAdapter.still (after_bindAdapter.mono ?_)
  rintro _ v ⟨q, hq, -, -, -, hv⟩
  rw [hv]
  exact hPlaced.calm_put hq rfl (by simp [Contract.kind])

theorem Custody.after_unsupportPool_still (hPlaced : w.Placed u.chain) :
    After (unsupportPool self caller pool) u fun _ v => w.Still u v := by
  refine silent_unsupportPool.still (after_unsupportPool.mono ?_)
  rintro _ v ⟨q, supported, hq, -, -, -, -, hv⟩
  rw [hv]
  exact hPlaced.calm_put hq rfl (by simp [Contract.kind])

theorem Custody.after_changeRouter_still (hPlaced : w.Placed u.chain) {router : Address} :
    After (changeRouter self caller router) u fun _ v => w.Still u v := by
  refine silent_changeRouter.still ?_
  simp only [changeRouter, after_entering, after_bind, after_view, after_result,
    View.callee_eq_ok, after_put, after_emit]
  intro q hq q' _
  exact hPlaced.calm_put hq (by rfl) (by simp [Storage.wrap, Contract.kind])

/-- A custody contract gives shares away, or any token that is none of the router's. -/
theorem Custody.after_transferShares_shifts {recipient : Address} {n : Amount}
    (hPlaced : w.Placed u.chain) (hQuiet : ¬w.Paying u) :
    After (transferShares self caller pool n recipient) u fun _ v => w.Shifts 0 u v := by
  simp only [transferShares, after_entering, after_bind, after_view, after_result,
    View.callee_eq_ok, after_emit]
  intro q hq _ _ _ _ _ _
  have hSelf := (hPlaced.ne hq (by simp [Storage.wrap, Contract.kind])).2
  refine w.after_transfer_sends.mono fun _ v hSend => ?_
  have hNone := hSend.shifts_none hSelf (Wiring.not_paying_entered hQuiet _ _ (by decide))
  exact hNone.of_entered.announced _

/-- The settings of an adapter are changed. -/
theorem Strategy.after_setRate_still (hPlaced : w.Placed u.chain) {rate : Amount} :
    After (setRate self caller rate) u fun _ v => w.Still u v := by
  simp only [setRate, after_entering, after_bind, after_view, View.contract_eq_ok]
  intro x hx
  cases x <;> simp only [after_bind, after_result, after_put, after_throw]
  all_goals
    intro s' _
    exact Wiring.Still.of_entered (Wiring.Placed.still_put (by exact hPlaced) (by exact hx)
      _ (by rfl) (by simp [Contract.kind]))

theorem Strategy.after_setPaused_still (hPlaced : w.Placed u.chain) {paused : Bool} :
    After (setPaused self caller paused) u fun _ v => w.Still u v := by
  simp only [setPaused, after_entering, after_bind, after_view, View.contract_eq_ok]
  intro x hx
  cases x <;> simp only [after_bind, after_result, after_put, after_throw]
  all_goals
    intro s' _
    exact Wiring.Still.of_entered (Wiring.Placed.still_put (by exact hPlaced) (by exact hx)
      _ (by rfl) (by simp [Contract.kind]))

end Settings

end Treasury
