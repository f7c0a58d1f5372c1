import Treasury.Proofs.CallTree

/-! All that contracts do for a caller minds which calls may begin: tokens, vaults, adapters and the
custody contract call no router, but for the adapter that is set to call one back; and a router
takes no call while one is running in it, whichever the call is. So what a router does is mindful
whatever the calls are that come back to routers in the middle of it. -/
namespace Treasury

open Exec Chain

variable {c : Chain} {locked : List Address}

namespace Token

variable {caller token taker owner spender : Address} {n : Amount} {entry : String}
  {onStable : Stable → Result Stable} {onLedger : Ledger → Result Ledger}

/-- A contract whose books change is no router, and looks the same otherwise. -/
theorem guise_keepBooks {x y : Contract} (h : x.keepBooks onStable onLedger = some (.ok y)) :
    y.guise = x.guise ∧ x.kind ≠ .router := by
  cases x <;> simp only [Contract.keepBooks, Option.some.injEq, reduceCtorEq, Result.bind_eq_ok]
    at h
  all_goals
    obtain ⟨_, -, ⟨⟩⟩ := h
    exact ⟨rfl, by simp [Contract.kind]⟩

theorem after_keep_guise {u : World} (hu : c.SameGuise u.chain) :
    After (keep token entry onStable onLedger) u fun _ v =>
      (c.SameGuise v.chain ∧ c.kind? token ≠ some .router) ∧ v = { u with chain := v.chain } := by
  simp only [keep, after_bind, after_view, View.contract_eq_ok]
  intro old hOld
  split
  · next changed hKeep =>
    simp only [after_bind, after_result, after_put]
    rintro new rfl
    obtain ⟨hSame, hKind⟩ := guise_keepBooks hKeep
    refine ⟨⟨hu.put hOld hSame, ?_⟩, trivial⟩
    rw [hu.kind?_of_contract? hOld]
    exact fun h => hKind (Option.some.inj h)
  · simp only [after_throw]

instance heedful_keep : Heedful c locked (keep token entry onStable onLedger) where
  after _ hu := (after_keep_guise hu.guise).mono fun _ _ ⟨hv, hSame⟩ => by
    rw [hSame]
    exact ⟨hu.of_chain hv.1, rfl⟩

theorem apart_token (hEntry : entry ≠ "deposit_into_strategy")
    (h : c.kind? token ≠ some .router) : c.Apart ⟨caller, token, entry⟩ :=
  ⟨h, fun hSame => absurd hSame hEntry⟩

instance heedful_transfer : Heedful c locked (transfer caller token taker n) :=
  Heedful.entering fun _ hu => after_bind.2 <| (after_keep_guise hu).mono fun _ _ hv =>
    after_mark.2 (apart_token (by decide) hv.1.2)

instance heedful_approve : Heedful c locked (approve caller token spender n) :=
  Heedful.entering fun _ hu => (after_keep_guise hu).mono fun _ _ hv =>
    apart_token (by decide) hv.1.2

/-- Giving an allowance on the way is mindful, so only what comes after it counts. -/
instance (priority := high) heedful_approve_bind {β : Type} {f : Unit → Exec β}
    [∀ u, Heedful c locked (f u)] :
    Heedful c locked (approve caller token spender n >>= f) := .bind

instance heedful_transferFrom : Heedful c locked (transferFrom caller token owner taker n) :=
  Heedful.entering fun _ hu => after_bind.2 <| (after_keep_guise hu).mono fun _ _ hv =>
    after_mark.2 (apart_token (by decide) hv.1.2)

end Token

namespace Yield

variable {self caller receiver owner : Address} {n : Amount}

instance heedful_deposit : Heedful c locked (Yield.deposit self caller n receiver) := by
  unfold Yield.deposit
  infer_instance

instance heedful_redeem : Heedful c locked (Yield.redeem self caller n receiver owner) := by
  unfold Yield.redeem
  infer_instance

instance heedful_accrueYield : Heedful c locked (Yield.accrueYield self caller n) := by
  unfold Yield.accrueYield
  infer_instance

end Yield

namespace Custody

variable {self caller pool adapter recipient : Address} {n : Amount}

instance heedful_transferShares :
    Heedful c locked (transferShares self caller pool n recipient) := by
  unfold transferShares
  infer_instance

instance heedful_bindAdapter : Heedful c locked (bindAdapter self caller pool adapter) := by
  unfold bindAdapter
  infer_instance

instance heedful_unbindAdapter : Heedful c locked (unbindAdapter self caller pool) := by
  unfold unbindAdapter
  infer_instance

instance heedful_supportPool : Heedful c locked (supportPool self caller pool) := by
  unfold supportPool
  infer_instance

instance heedful_unsupportPool : Heedful c locked (unsupportPool self caller pool) := by
  unfold unsupportPool
  infer_instance

end Custody

namespace ShareToken

variable {self caller receiver initiator owner : Address} {shares : Amount}

instance heedful_mintFor : Heedful c locked (mintFor self caller receiver shares) := by
  unfold mintFor
  infer_instance

instance heedful_burnFor : Heedful c locked (burnFor self caller initiator owner shares) := by
  unfold burnFor
  infer_instance

end ShareToken

/-- Calls that come back to a router mind which calls may begin, and a router in which a call is
running takes none. -/
class Router.Callback.Heeds (c : Chain) (back : Router.Callback) : Prop where
  heedful : ∀ f command, Heedful c f.locked (back f command)
  refuses : ∀ f command, f.self ∈ f.locked → ∀ u, After (back f command) u fun _ _ => False

namespace Strategy

variable {back : Router.Callback} [hBack : back.Heeds c] {self caller adapter : Address}
  {n : Amount}

instance heedful_callBack {s : Synthetic} : Heedful c locked (s.callBack back locked self) := by
  unfold Synthetic.callBack
  split
  · infer_instance
  · exact hBack.heedful ⟨_, self, locked⟩ _

/-- The shares of a synthetic adapter change, but not the router that it is set to call back. -/
theorem heedful_update (act : Token.Ledger → Result Token.Ledger) :
    Heedful c locked (Exec.update self fun s : Synthetic => do
      pure { s with ledger := ← act s.ledger }) := by
  refine Heedful.update_of_guise fun s t h => ?_
  obtain ⟨l, -, ⟨⟩⟩ := Result.bind_eq_ok.1 h
  rfl

instance FixedRate.heedful_deposit {s : FixedRate} :
    Heedful c locked (s.deposit self caller n) := by
  unfold FixedRate.deposit
  infer_instance

instance Synthetic.heedful_deposit {s : Synthetic} :
    Heedful c locked (s.deposit back locked self caller n) := by
  have (custody : Address) (shares : Amount) : Heedful c locked (Exec.update self
      fun s : Synthetic => do pure { s with ledger := ← s.ledger.mint custody shares }) :=
    heedful_update (·.mint custody shares)
  unfold Synthetic.deposit
  infer_instance

instance Wrapped.heedful_deposit {s : Wrapped} : Heedful c locked (s.deposit self caller n) := by
  unfold Wrapped.deposit
  infer_instance

instance FixedRate.heedful_withdraw {s : FixedRate} :
    Heedful c locked (s.withdraw self caller n) := by
  unfold FixedRate.withdraw
  infer_instance

instance Synthetic.heedful_withdraw {s : Synthetic} :
    Heedful c locked (s.withdraw self caller n) := by
  have : Heedful c locked (Exec.update self
      fun s : Synthetic => do pure { s with ledger := ← takeShares self caller n s.ledger }) :=
    heedful_update (takeShares self caller n)
  unfold Synthetic.withdraw
  infer_instance

instance Wrapped.heedful_withdraw {s : Wrapped} : Heedful c locked (s.withdraw self caller n) := by
  unfold Wrapped.withdraw
  infer_instance

instance heedful_withdraw : Heedful c locked (Strategy.withdraw adapter caller n) := by
  unfold Strategy.withdraw
  refine @Heedful.entering _ _ _ _ _ _ _ (@Heedful.bind _ _ _ _ _ _ _ fun x => ?_) fun u hu => ?_
  · split <;> infer_instance
  · refine after_bind.2 (after_view.2 fun x hx => ?_)
    have hKind := hu.kind?_of_contract? (View.contract_eq_ok.1 hx)
    cases x with
    | fixedRate | synthetic | wrapped =>
      exact fun _ _ _ => Token.apart_token (by decide) (by simp [hKind, Contract.kind])
    | _ => exact after_throw.2 trivial

omit hBack in
/-- An adapter that is set to call back a router that refuses takes no deposit. -/
theorem Synthetic.after_deposit_refused {s : Synthetic} (hTarget : s.callbackTarget = some caller)
    {u : World} (hRefuses : ∀ command,
      After (back ⟨caller, self, locked⟩ command) u fun _ _ => False) :
    After (s.deposit back locked self caller n) u fun _ _ => False := by
  simp only [Synthetic.deposit, Synthetic.callBack, hTarget, after_bind, after_result]
  exact fun _ _ _ _ => (hRefuses _).mono fun _ _ => False.elim

/-- A router that deposits is running. -/
theorem heedful_deposit (hCaller : c.kind? caller = some .router → caller ∈ locked) :
    Heedful c locked (Strategy.deposit back locked adapter caller n) := by
  unfold Strategy.deposit
  refine @Heedful.entering _ _ _ _ _ _ _ (@Heedful.bind _ _ _ _ _ _ _ fun x => ?_) fun u hu => ?_
  · split <;> infer_instance
  · refine after_bind.2 (after_view.2 fun x hx => ?_)
    rw [View.contract_eq_ok] at hx
    have hKind := hu.kind?_of_contract? hx
    have hOther (h : x.kind ≠ .router ∧ x.kind ≠ .synthetic) :
        c.Apart ⟨caller, adapter, "deposit_into_strategy"⟩ := by
      refine ⟨by simpa [hKind] using h.1, ?_⟩
      rintro - - ⟨s, hs, -⟩
      rw [kind?_of_contract? hs] at hKind
      exact h.2 (Option.some.inj hKind).symm
    cases x with
    | fixedRate | wrapped => exact fun _ _ _ => hOther (by simp [Contract.kind])
    | synthetic s =>
      by_cases hTarget : s.callbackTarget = some caller ∧ c.kind? caller = some .router
      · have hLocked := hCaller hTarget.2
        exact (s.after_deposit_refused hTarget.1 fun command =>
          hBack.refuses ⟨caller, adapter, locked⟩ command hLocked u).mono fun _ _ => False.elim
      · refine fun _ _ _ => ⟨by simp [hKind, Contract.kind], ?_⟩
        rintro - hRouter hArmed
        obtain ⟨t, ht, hSet⟩ := hu.armed hArmed
        obtain rfl : s = t := storage_unique hx ht
        exact hTarget ⟨hSet, hRouter⟩
    | _ => exact after_throw.2 trivial

end Strategy

namespace Router

variable {back : Callback} [hBack : back.Heeds c] {f : Frame} {config : Pool.Config} {n : Amount}
  {α : Type} {entry : String} {body : Frame → State → Exec α}

/-- A router that is running has been called and is locked. -/
class Frame.Runs (c : Chain) (f : Frame) : Prop where
  router : c.kind? f.self = some .router
  locked : f.self ∈ f.locked

instance heedful_store [hRuns : f.Runs c] {s : State} : Heedful c f.locked (store f s) where
  after u hu := after_put.2 <| by
    obtain ⟨x, hx, hKind⟩ := Option.map_eq_some_iff.1 ((hu.guise.kind? f.self).trans hRuns.router)
    refine ⟨hu.of_chain (hu.guise.put hx ?_), rfl⟩
    cases x <;> cases hKind
    rfl

instance heedful_deposit [hRuns : f.Runs c] {adapter : Address} :
    Heedful c f.locked (Strategy.deposit back f.locked adapter f.self n) :=
  Strategy.heedful_deposit fun _ => hRuns.locked

/-- A guarded call finds its router free. -/
theorem heedful_guarded (hBody : ∀ f s, f.Runs c → Heedful c f.locked (body f s)) :
    Heedful c f.locked (guarded f entry body) where
  after u hu := after_guarded.2 fun s hs hFree => by
    have hRouter : c.kind? f.self = some .router := hu.guise.kind?_of_contract? hs
    have hMay : c.MayBegin (runningCalls u.marks) ⟨f.caller, f.self, entry⟩ := by
      refine ⟨fun _ other hOther hSame => hFree ?_, ?_⟩
      · have hIn := hu.locked other hOther
        rw [hSame] at hIn
        exact hIn hRouter
      · rintro - - ⟨t, ht, -⟩
        cases (kind?_of_contract? ht).symm.trans hRouter
    have hStart := hu.enter hMay (fun _ => List.mem_cons_self)
      (List.subset_cons_of_subset f.self (List.Subset.refl f.locked))
    have hRuns : Frame.Runs c { f with locked := f.self :: f.locked } :=
      ⟨hRouter, List.mem_cons_self⟩
    refine ((hBody _ s hRuns).after _ hStart).mono fun _ v ⟨hv, hRunning⟩ => ?_
    exact hv.leave hu (hRunning.trans (runningCalls_append _))

theorem after_guarded_locked (h : f.self ∈ f.locked) (u : World) :
    After (guarded f entry body) u fun _ _ => False :=
  after_guarded.2 fun _ _ hFree => absurd h hFree

/-- Every call that may change a router is guarded. -/
theorem after_run_locked (h : f.self ∈ f.locked) (command : Command) (u : World) :
    After (run back f command) u fun _ _ => False := by
  cases command <;> simp only [run, after_bind, after_map]
  all_goals exact (after_guarded_locked h u).mono fun _ _ => False.elim

section Flows

variable [f.Runs c]

instance heedful_depositIntoPool : Heedful c f.locked (depositIntoPool back f config n) := by
  unfold depositIntoPool
  infer_instance

set_option synthInstance.maxSize 256 in
instance heedful_withdrawShares : Heedful c f.locked (withdrawShares f config n) := by
  unfold withdrawShares
  infer_instance

instance heedful_withdrawValue : Heedful c f.locked (withdrawValue f config n) := by
  unfold withdrawValue
  infer_instance

instance heedful_pullStable {owner : Address} : Heedful c f.locked (pullStable f owner n) := by
  unfold pullStable
  infer_instance

instance heedful_purchase {p : Purchase} : Heedful c f.locked (purchase back f p) := by
  unfold purchase
  infer_instance

instance heedful_solverDeposit {s : State} {purchases : List Purchase} {least : Amount}
    {receiver : Address} :
    Heedful c f.locked (solverDeposit back f s purchases least receiver) := by
  unfold solverDeposit
  infer_instance

instance heedful_settleWithdrawal {s : State} {token receiver owner : Address}
    {split : Fee.Split} {kept shares : Amount} {legs : Nat} :
    Heedful c f.locked (settleWithdrawal f s token receiver owner split kept shares legs) := by
  unfold settleWithdrawal
  infer_instance

instance heedful_redeposit {s : State} {pair : Pair} {pulled least : Amount} :
    Heedful c f.locked (redeposit back f s pair pulled least) := by
  unfold redeposit
  infer_instance

instance heedful_setParameter {s : State} {name : String} :
    Heedful c f.locked (setParameter f s name n) := by
  unfold setParameter
  infer_instance

end Flows

instance heedful_handleDeposit {initiator receiver : Address} {assets shares : Amount} :
    Heedful c f.locked (handleDeposit back f initiator assets shares receiver) := by
  unfold handleDeposit
  refine heedful_guarded fun f s _ => ?_
  refine @Heedful.bind _ _ _ _ _ _ _ fun _ => @Heedful.bind _ _ _ _ _ _ _ fun _ =>
    @Heedful.bind _ _ _ _ _ _ _ fun _ => @Heedful.bind _ _ _ _ _ _ _ fun _ =>
    @Heedful.bind _ _ _ _ _ _ _ fun _ => @Heedful.bind _ _ _ _ _ _ _ fun pools => ?_
  split <;> infer_instance

instance heedful_handleWithdraw {initiator receiver owner : Address} {gross net : Amount} :
    Heedful c f.locked (handleWithdraw f initiator receiver owner gross net) := by
  unfold handleWithdraw
  refine heedful_guarded fun f s _ => ?_
  refine @Heedful.bind _ _ _ _ _ _ _ fun _ => @Heedful.bind _ _ _ _ _ _ _ fun _ =>
    @Heedful.bind _ _ _ _ _ _ _ fun _ => @Heedful.bind _ _ _ _ _ _ _ fun split =>
    @Heedful.bind _ _ _ _ _ _ _ fun _ => @Heedful.bind _ _ _ _ _ _ _ fun pools =>
    @Heedful.bind _ _ _ _ _ _ _ fun i => ?_
  split <;> infer_instance

instance heedful_reinvestFees : Heedful c f.locked (reinvestFees back f) := by
  unfold reinvestFees
  refine heedful_guarded fun f s _ => ?_
  refine @Heedful.bind _ _ _ _ _ _ _ fun _ => @Heedful.bind _ _ _ _ _ _ _ fun idle =>
    @Heedful.bind _ _ _ _ _ _ _ fun _ => ?_
  split <;> infer_instance

/-- Binding an adapter calls the custody contract, or the router that stands in its place. -/
instance heedful_registerAdapter {pool adapter : Address} :
    Heedful c f.locked (registerAdapter back f pool adapter) := by
  unfold registerAdapter
  refine heedful_guarded fun f s _ => ?_
  refine @Heedful.bind _ _ _ _ _ _ _ fun _ => @Heedful.bind _ _ _ _ _ _ _ fun custody =>
    @Heedful.bind _ _ _ _ _ _ _ fun x => ?_
  have := hBack.heedful ⟨custody, f.self, f.locked⟩ (.registerAdapter pool adapter)
  split <;> infer_instance

instance heedful_removeAdapter {pool : Address} : Heedful c f.locked (removeAdapter f pool) := by
  unfold removeAdapter
  refine heedful_guarded fun f s _ => ?_
  have hRest : Heedful c f.locked (do
      let custody ← known s.custody
      match ← Custody.boundAdapter custody pool with
      | none => refuse .adapterNotRegistered
      | some adapter =>
        if ← Custody.isSupported custody pool then
          Custody.unsupportPool custody f.self pool
        Custody.unbindAdapter custody f.self pool
        Exec.emit f.self (.adapterRemoved pool adapter)) := by
    refine @Heedful.bind _ _ _ _ _ _ _ fun custody => @Heedful.bind _ _ _ _ _ _ _ fun bound => ?_
    split <;> infer_instance
  refine @Heedful.bind _ _ _ _ _ _ _ fun _ => ?_
  split <;> infer_instance

instance heedful_addPool {pool : Address} {target : Nat} :
    Heedful c f.locked (addPool f pool target) := by
  unfold addPool
  refine heedful_guarded fun f s _ => ?_
  refine @Heedful.bind _ _ _ _ _ _ _ fun _ => @Heedful.bind _ _ _ _ _ _ _ fun _ =>
    @Heedful.bind _ _ _ _ _ _ _ fun _ => @Heedful.bind _ _ _ _ _ _ _ fun custody =>
    @Heedful.bind _ _ _ _ _ _ _ fun bound => ?_
  split <;> infer_instance

instance heedful_setDefaultPool {pool : Option Address} :
    Heedful c f.locked (setDefaultPool f pool) := by
  unfold setDefaultPool
  refine heedful_guarded fun f s _ => @Heedful.bind _ _ _ _ _ _ _ fun _ => ?_
  split <;> infer_instance

set_option synthInstance.maxSize 512 in
theorem heedful_run (command : Command) : Heedful c f.locked (run back f command) := by
  cases command with
  | handleDeposit | handleWithdraw | reinvestFees | registerAdapter | removeAdapter | addPool
  | setDefaultPool =>
    unfold run
    infer_instance
  | solverDepositByAssets | solverDepositByShares | solverWithdrawByAssets | rebalanceByShares
  | rebalanceByValue | rebalanceExternally =>
    exact @Heedful.map _ _ _ _ _ _ (heedful_guarded fun f s _ => inferInstance)
  | solverWithdrawByShares | recordShortfall | clearShortfall | updatePoolTarget | setPoolStatus
  | removePool | replacePoolTargets | setDepositCap | setDustTolerance | setReinvestIncentive
  | setWithdrawalFee | setMaxPoolCount | setShareToken | pause | unpause | grantRole | revokeRole
  | renounceRole =>
    exact @Heedful.bind _ _ _ _ _ _ (heedful_guarded fun f s _ => inferInstance)
      fun _ => Heedful.pure _

/-- Calls that come back to routers are mindful, however deep they go. -/
instance heeds_nested (depth : Nat) : (nested depth).Heeds c := by
  induction depth with
  | zero => exact ⟨fun _ _ => Heedful.throw _, fun _ _ _ _ => after_throw.2 trivial⟩
  | succ depth ih =>
    refine ⟨fun f command => ?_, fun f command h u => ?_⟩
    · have : Heedful c f.locked (run (nested depth) f command) := heedful_run command
      exact Heedful.discard
    · exact after_discard.2 ((after_run_locked h command u).mono fun _ _ => False.elim)

end Router

namespace ShareToken

variable {back : Router.Callback} [back.Heeds c] {self caller receiver owner : Address} {n : Amount}

instance heedful_deposit : Heedful c [] (ShareToken.deposit back self caller n receiver) := by
  have (router : Address) (shares : Amount) : Heedful c []
      (Router.handleDeposit back ⟨router, self, []⟩ caller n shares receiver) :=
    Router.heedful_handleDeposit (f := ⟨router, self, []⟩)
  unfold ShareToken.deposit
  infer_instance

instance heedful_redeem : Heedful c [] (ShareToken.redeem self caller n receiver owner) := by
  have (router : Address) (gross net : Amount) : Heedful c []
      (Router.handleWithdraw ⟨router, self, []⟩ caller receiver owner gross net) :=
    Router.heedful_handleWithdraw (f := ⟨router, self, []⟩)
  unfold ShareToken.redeem
  infer_instance

end ShareToken

end Treasury
