import Treasury.Proofs.Untouched

/-! The fee ledger of a treasury. Whatever accounts do, the router's own stable, with what it has
reinvested and paid out of fees, comes to the fees that it has kept back and to what it was
given. -/
namespace Treasury

open Exec Chain

section Commands

variable {w : Wiring} {user self : Address} {u v : World} {back : Router.Callback}

/-- What the use of an allowance by others adds. The router has allowed nothing. -/
theorem Wiring.Collects.shifts_drawn {t owner taker : Address} {n : Amount}
    (h : w.Collects user t owner taker n u v) (hReady : w.Ready u.chain) (hUser : user ≠ w.router)
    (hQuiet : ¬w.Paying u) : w.Shifts 0 u v := by
  by_cases hOwner : owner = w.router
  · subst hOwner
    obtain rfl := hReady.nothing_collected h.move
    exact h.shifts.of_eq (by simp)
  · exact h.shifts_none hUser hOwner hQuiet

theorem Token.Command.after_run_shifts (hReady : w.Ready u.chain) (hQuiet : ¬w.Paying u)
    (hUser : user ≠ w.router) (command : Token.Command) :
    After (command.run self user) u fun _ v => w.Shifts 0 u v := by
  cases command with
  | transfer taker n =>
    simp only [Token.Command.run, after_bind, after_pure]
    exact w.after_transfer_sends.mono fun _ _ hSend => hSend.shifts_none hUser hQuiet
  | approve spender n =>
    simp only [Token.Command.run, after_bind, after_pure]
    exact w.after_approve_still.mono fun _ _ hDone => hDone.2.shifts
  | transferFrom owner taker n =>
    simp only [Token.Command.run, after_bind, after_pure]
    exact w.after_transferFrom_collects.mono fun _ _ hTake =>
      hTake.shifts_drawn hReady hUser hQuiet

/-- What a stable token mints for the router is given to it. -/
theorem Token.Stable.after_mint_shifts {account : Address} {n : Amount} (hQuiet : ¬w.Paying u)
    (hUser : user ≠ w.router) :
    After (Token.Stable.Command.run self user (.mint account n)) u fun _ v => w.Shifts 0 u v := by
  simp only [Token.Stable.Command.run, after_entering, after_bind, after_view, after_result,
    View.callee_eq_ok, after_put, after_mark]
  intro t hOld t' hMint
  obtain ⟨l, _, hLedger, rfl⟩ := Token.Stable.mint_spec hMint
  obtain ⟨hMore, -⟩ := Token.Ledger.mint_spec hLedger
  -- Nobody is in a withdrawal of the router's, so the record counts whatever is minted for it.
  refine .of_given (n := if self = w.stable ∧ account = w.router then n else 0)
    (fees_put hOld (by rfl) w.router) ?_ ?_
  · rw [balance, books?_put hOld]
    by_cases hSelf : w.stable = self
    · subst hSelf
      rw [balance, books?_of_contract? hOld, if_pos rfl]
      change l.balanceOf w.router = t.ledger.balanceOf w.router + _
      simp [hMore w.router, eq_comm]
    · simp [hSelf, Ne.symm hSelf, balance]
  · rw [Wiring.tally_left, Wiring.tally_credited, Wiring.tally_entered]
    have hPulls : w.pulls (⟨user, self, "mint"⟩ :: (w.tally u.marks).calls) = false := by
      simp [Wiring.pulls, hUser]
    have hPays : w.paysOut (⟨user, self, "mint"⟩ :: (w.tally u.marks).calls) = false := by
      simpa [Wiring.Paying, Wiring.paysOut, hUser] using hQuiet
    simp only [hPulls, hPays, and_true]
    rfl

/-- Nobody burns stable of the router's. -/
theorem Token.Stable.calm_burned {n : Amount} {t t' : Token.Stable} {c : Chain}
    (hUser : user ≠ w.router) (hOld : c.contract? self = some (.stable t))
    (h : t.burn user n = .ok t') : w.Calm c (c.put self (.stable t')) := by
  obtain ⟨l, _, hLedger, rfl⟩ := Token.Stable.burn_spec h
  obtain ⟨hLess, -⟩ := Token.Ledger.burn_spec hLedger
  refine ⟨?_, fees_put hOld (by rfl) w.router⟩
  rw [balance, books?_put hOld]
  by_cases hSelf : w.stable = self
  · subst hSelf
    rw [balance, books?_of_contract? hOld, if_pos rfl]
    change l.balanceOf w.router = t.ledger.balanceOf w.router
    simpa [hUser.symm] using hLess w.router
  · rw [if_neg hSelf, balance]

theorem Token.Stable.Command.after_run_shifts (hQuiet : ¬w.Paying u) (hUser : user ≠ w.router)
    (command : Token.Stable.Command) :
    After (command.run self user) u fun _ v => w.Shifts 0 u v := by
  have hAmends {entry : String} {change : Token.Stable → Result Token.Stable}
      (h : ∀ t t', u.chain.contract? self = some (.stable t) → change t = .ok t' →
        w.Calm u.chain (u.chain.put self (.stable t'))) :
      After (amend user self entry change) u fun _ v => w.Shifts 0 u v := by
    refine Wiring.Still.after_shifts (silent_amend.still ?_)
    refine after_amend fun t t' v hOld hChange hv => ?_
    exact hv ▸ h t t' hOld hChange
  cases command with
  | mint => exact after_mint_shifts hQuiet hUser
  | burn => exact hAmends fun _ _ hOld h => calm_burned hUser hOld h
  | addMinter | removeMinter => exact hAmends fun _ _ hOld h => (Configured.minters hOld h).calm

theorem Yield.Command.after_run_shifts (hPlaced : w.Placed u.chain) (hQuiet : ¬w.Paying u)
    (hUser : user ≠ w.router) (command : Yield.Command) :
    After (command.run self user) u fun _ v => w.Shifts 0 u v := by
  cases command <;> simp only [Yield.Command.run, after_map, after_bind, after_pure]
  · exact Yield.after_deposit_shifts hPlaced hUser hQuiet
  · exact (Yield.after_redeem_remits hPlaced).mono fun _ _ hDone => hDone.outside hQuiet
  · exact Yield.after_accrueYield_shifts hPlaced hUser hQuiet

theorem Strategy.Command.after_run_shifts (hReady : w.Ready u.chain) (hQuiet : ¬w.Paying u)
    (hBack : w.Shielded user back) (hUser : user ≠ w.router) (command : Strategy.Command) :
    After (command.run back self user) u fun _ v => w.Shifts 0 u v := by
  have hStill {m : Exec Unit} (h : After m u fun _ v => w.Still u v) :
      After (do m; pure Answer.unit) u fun _ v => w.Shifts 0 u v :=
    (Wiring.Still.after_shifts h).answered
  cases command with
  | deposit n =>
    simp only [Strategy.Command.run, after_bind, after_pure]
    refine (Strategy.after_deposit_shifts hBack hReady.toKept (.inr ⟨hUser, hReady⟩) hQuiet
      fun hSame => absurd hSame hUser).mono fun _ _ hDone => ?_
    rwa [Wiring.cost, if_neg hUser] at hDone
  | withdraw shares =>
    simp only [Strategy.Command.run, after_map]
    exact Strategy.after_withdraw_shifts hReady.placed hReady.vaulted hUser hQuiet
  | fund n =>
    simp only [Strategy.Command.run, after_bind, after_pure]
    exact Strategy.FixedRate.after_fund_shifts hReady.placed hUser hQuiet
  | setRate => exact hStill (Strategy.after_setRate_still hReady.placed)
  | setPaused => exact hStill (Strategy.after_setPaused_still hReady.placed)
  | turn =>
    exact hStill (hReady.placed.after_amend_still (by exact fun _ _ => rfl)
      (by exact fun _ => by simp [Storage.wrap, Contract.kind]))

theorem Custody.Command.after_run_shifts (hPlaced : w.Placed u.chain) (hQuiet : ¬w.Paying u)
    (command : Custody.Command) :
    After (command.run self user) u fun _ v => w.Shifts 0 u v := by
  cases command with
  | transferShares => exact Custody.after_transferShares_shifts hPlaced hQuiet
  | bindAdapter => exact Wiring.Still.after_shifts (Custody.after_bindAdapter_still hPlaced)
  | unsupportPool => exact Wiring.Still.after_shifts (Custody.after_unsupportPool_still hPlaced)
  | setRouter => exact Wiring.Still.after_shifts (Custody.after_changeRouter_still hPlaced)
  | unbindAdapter | supportPool | setDust | setAdmin =>
    exact Wiring.Still.after_shifts (hPlaced.after_amend_still (by exact fun _ _ => rfl)
      (by exact fun _ => by simp [Storage.wrap, Contract.kind]))

theorem ShareToken.Command.after_run_shifts (hReady : w.Ready u.chain) (hQuiet : ¬w.Paying u)
    (hBack : w.Shielded user back) (hUser : user ≠ w.router) (command : ShareToken.Command) :
    After (command.run back self user) u fun _ v => w.Shifts 0 u v := by
  cases command with
  | deposit =>
    simp only [ShareToken.Command.run, after_map]
    exact ShareToken.after_deposit_shifts hReady hQuiet hBack hUser rfl
  | redeem =>
    simp only [ShareToken.Command.run, after_map]
    exact ShareToken.after_redeem_shifts hReady hQuiet hUser rfl
  | mintFor | burnFor | setRouter =>
    exact After.answered (Wiring.Still.after_shifts (hReady.placed.after_amend_still
      (by exact fun _ _ => rfl) (by exact fun _ => by simp [Storage.wrap, Contract.kind])))

/-- Whatever accounts have a router do adds nothing. -/
theorem Router.after_run_shifts {f : Frame} (hReady : w.Ready u.chain) (hQuiet : ¬w.Paying u)
    (hBack : w.Shielded f.caller back) (hUser : f.caller ≠ w.router)
    (hBinds : ∀ f pool adapter, Silent (back f (.registerAdapter pool adapter)))
    (command : Router.Command) : After (run back f command) u fun _ v => w.Shifts 0 u v := by
  have hArranged (hNeeds : command.needsRunning = false) :
      After (run back f command) u fun _ v => w.Shifts 0 u v :=
    Wiring.Still.after_shifts ((silent_run_arranged hBinds hNeeds).still
      ((after_run_arranged hBack.toCallsBack hNeeds).mono fun _ _ hDone => hDone.calm))
  cases command with
  | handleDeposit =>
    exact After.answered (after_handleDeposit_shifts hReady hQuiet hBack hUser (.inr rfl))
  | handleWithdraw => exact After.answered (after_handleWithdraw_shifts hReady hQuiet hUser)
  | solverDepositByAssets =>
    exact after_map.2 (after_solverDepositByAssets_shifts hReady hQuiet hBack hUser rfl)
  | solverDepositByShares =>
    exact after_map.2 (after_solverDepositByShares_shifts hReady hQuiet hBack hUser rfl)
  | solverWithdrawByAssets =>
    exact after_map.2 (after_solverWithdrawByAssets_shifts hReady hQuiet hUser)
  | solverWithdrawByShares =>
    exact After.answered (after_solverWithdrawByShares_shifts hReady hQuiet hUser)
  | rebalanceByShares =>
    exact after_map.2 (after_rebalanceByShares_shifts hReady hQuiet hBack hUser)
  | rebalanceByValue => exact after_map.2 (after_rebalanceByValue_shifts hReady hQuiet hBack hUser)
  | rebalanceExternally =>
    exact after_map.2 (after_rebalanceExternally_shifts hReady hQuiet hBack hUser rfl)
  | reinvestFees => exact After.answered (after_reinvestFees_shifts hReady hQuiet hBack hUser)
  | pause => exact After.answered (after_pause_shifts hReady hQuiet)
  | _ => exact hArranged rfl

/-- Constructors credit nothing to anyone. -/
theorem Construction.silent_run (construction : Construction) :
    Silent (construction.run self user) := by
  cases construction with
  | wrapped =>
    intro w u
    simp [Construction.run]
  | _ => exact silent_amend

/-- Neither the stable token nor the router is set up again. -/
theorem Construction.after_run_still (hKept : w.Kept u.chain) (hBlank : self ∈ u.chain.blank)
    (construction : Construction) :
    After (construction.run self user) u fun _ v => w.Still u v := by
  refine (silent_run construction).still ((Construction.after_run construction).mono ?_)
  rintro _ v ⟨old, new, hOld, hBuilds, hv⟩
  have hStable : self ≠ w.stable := by
    rintro rfl
    exact hKept.constructed _ (by simp [Wiring.places]) hBlank
  have hRouter : self ≠ w.router := by
    rintro rfl
    exact hKept.constructed _ (by simp [Wiring.places]) hBlank
  rw [hv]
  refine .of_same ?_ ?_
  · rw [books?_put hOld, if_neg hStable.symm]
  · rw [fees, routing, contract?_put_of_ne _ _ hRouter.symm, fees, routing]

/-- No call of others adds to the excess: what it changes of the router's stable is accounted
for. -/
theorem Command.after_run_shifts (hReady : w.Ready u.chain) (hQuiet : ¬w.Paying u)
    (hBack : w.Shielded user back) (hUser : user ≠ w.router)
    (hBinds : ∀ f pool adapter, Silent (back f (.registerAdapter pool adapter)))
    (command : Command) : After (command.run back self user) u fun _ v => w.Shifts 0 u v := by
  have hAmends {σ : Type} [Storage σ] {entry : String} {change : σ → Result σ}
      (hSame : ∀ s t : σ, (Storage.wrap t).kind = (Storage.wrap s).kind)
      (hKind : ∀ s : σ, (Storage.wrap s).kind ∉ [.stable, .router]) :
      After (amend user self entry change) u fun _ v => w.Shifts 0 u v :=
    Wiring.Still.after_shifts (hReady.placed.after_amend_still hSame hKind)
  cases command with
  | token command => exact Token.Command.after_run_shifts hReady hQuiet hUser command
  | stable command =>
    exact After.answered (Token.Stable.Command.after_run_shifts hQuiet hUser command)
  | ledger command =>
    refine After.answered ?_
    cases command <;>
      exact hAmends (fun _ _ => rfl) fun _ => by simp [Storage.wrap, Contract.kind]
  | registry command =>
    cases command with
    | push | update =>
      exact After.answered (hAmends (by exact fun _ _ => rfl)
        (by exact fun _ => by simp [Storage.wrap, Contract.kind]))
    | swapRemove pool =>
      simp only [Command.run, Pool.Registry.Command.run, after_entering, after_bind, after_view,
        after_result, View.callee_eq_ok, after_put, after_pure]
      intro r hOld _ _
      exact (Wiring.Still.of_entered (Wiring.Placed.still_put (by exact hReady.placed)
        (by exact hOld) _ (by rfl) (by simp [Storage.wrap, Contract.kind]))).shifts
  | roles command =>
    refine After.answered ?_
    cases command <;>
      exact hAmends (fun _ _ => rfl) fun _ => by simp [Storage.wrap, Contract.kind]
  | share command => exact ShareToken.Command.after_run_shifts hReady hQuiet hBack hUser command
  | yieldVault command => exact Yield.Command.after_run_shifts hReady.placed hQuiet hUser command
  | strategy command => exact Strategy.Command.after_run_shifts hReady hQuiet hBack hUser command
  | custody command =>
    exact After.answered (Custody.Command.after_run_shifts hReady.placed hQuiet command)
  | router command => exact Router.after_run_shifts hReady hQuiet hBack hUser hBinds command
  | construct construction =>
    simp only [Command.run, after_bind, after_view, after_get]
    intro _ _
    split
    · next hBlank =>
      exact After.answered (Wiring.Still.after_shifts
        (Construction.after_run_still hReady.toKept hBlank construction))
    · exact after_throw.2 trivial
  | unlisted entry =>
    simp only [Command.run, after_bind, after_throw, after_view, implies_true]

end Commands

namespace Wiring

variable {w : Wiring} {c c' : Chain}

/-- What the router's stable and its record of fees say about how much it was given. -/
def Accounts (w : Wiring) (c : Chain) (given : Nat) : Prop :=
  c.balance w.stable w.router + (c.fees w.router).reinvested + (c.fees w.router).incentives =
    (c.fees w.router).collected + given

/-- A call of an account changes what the router was given by what the call's record says. -/
theorem Accounts.submit {d : Nat} {user : Digest} {target : Address} {command : Command}
    {out : Outcome} (h : w.Accounts c d) (hReady : w.Ready c) (hUser : .account user ≠ w.router)
    (hCall : c.submit (.account user) target command = .ok out) :
    w.Accounts out.chain (d + w.given out.marks) := by
  have hQuiet : ¬w.Paying { chain := c } := by simp [Paying, paysOut, tally]
  have hShifts := of_submit (Command.after_run_shifts (by exact hReady) hQuiet
    (shielded_nested hUser c.contracts.length) hUser
    (fun f _ _ => Router.silent_nested c.contracts.length f) command) hCall
  have hExcess := hShifts.excess
  have hStart : (w.tally []).given = 0 := rfl
  simp only [Wiring.excess, hStart] at hExcess
  simp only [Accounts, given] at h ⊢
  omega

theorem Accounts.calm {d : Nat} (h : w.Accounts c d) (hCalm : w.Calm c c') : w.Accounts c' d := by
  rw [Accounts, hCalm.idle, hCalm.fees]
  exact h

end Wiring

/-- No fees have gone through a new contract. -/
theorem Construction.Builds.fees {c : Chain} {kind : Contract.Kind} {x : Contract}
    (h : Construction.Builds c kind.blank x) : x.routing.fees = {} := by
  generalize hOld : kind.blank = old at h
  cases h with
  | router hConstruct =>
    simp only [Router.State.construct, Result.bind_eq_ok] at hConstruct
    obtain ⟨_, _, _, _, ⟨⟩⟩ := hConstruct
    rfl
  | _ => rfl

/-- A new contract has no part in the fee ledger yet. -/
theorem Chain.Gains.calm {w : Wiring} {c c' : Chain} {a : Address} {x : Contract}
    (h : c.Gains a x c') : w.Calm c c' := by
  constructor
  · by_cases hStable : w.stable = a
    · have hNone : c.books? a = none := by rw [Chain.books?, h.free, Option.bind_none]
      rw [hStable, balance, balance, hNone]
      cases hNew : c'.books? a with
      | none => rfl
      | some l => rw [Option.getD_some, Token.Ledger.balanceOf, (h.books_new hNew).1]; rfl
    · rw [balance, h.books? hStable, balance]
  · by_cases hRouter : w.router = a
    · rw [hRouter, Chain.fees, routing, h.contracts, if_pos rfl, Chain.fees, routing, h.free]
      obtain ⟨kind, hBuilds | ⟨rfl, -⟩⟩ := h.new
      · exact hBuilds.fees
      · cases kind <;> rfl
    · rw [Chain.fees, routing, h.contracts, if_neg hRouter, Chain.fees, routing]

/-- How much stable the router is given in the course of an action. Only calls move any. -/
def Action.given (w : Wiring) (c : Chain) : Action → Nat
  | call user target command =>
    match c.submit (.account user) target command with
    | .ok out => w.given out.marks
    | .error _ => 0
  | _ => 0

/-- The chains that can be reached without changing the wiring while the router is given this much
stable in total. -/
inductive CountedRun (w : Wiring) : Nat → Chain → Prop where
  | start : CountedRun w 0 {}
  | step {d : Nat} {c c' : Chain} {action : Action} (hRun : CountedRun w d c)
      (hAction : action.run c = .ok c') (hKept : w.Kept c') :
      CountedRun w (d + action.given w c) c'

namespace CountedRun

variable {w : Wiring} {d : Nat} {c : Chain}

theorem wiredRun (h : CountedRun w d c) : WiredRun w c := by
  induction h with
  | start => exact .start
  | step _ hAction hKept ih => exact .step ih hAction hKept

/-- What the router was given can be counted along every wired run. -/
theorem of_wiredRun (h : WiredRun w c) : ∃ d, CountedRun w d c := by
  induction h with
  | start => exact ⟨0, .start⟩
  | step _ hAction hKept ih =>
    obtain ⟨d, hCounted⟩ := ih
    exact ⟨_, .step hCounted hAction hKept⟩

theorem accounts (h : CountedRun w d c) (hPlace : ∃ p, w.router = .contract p) :
    w.Accounts c d := by
  induction h with
  | start => rfl
  | @step d c c' action hRun hAction hKept ih =>
    cases action with
    | call user target command =>
      obtain ⟨out, hCall, ⟨⟩⟩ := Result.bind_eq_ok.1 hAction
      have hReady := hRun.wiredRun.ready hPlace
      obtain ⟨place, hAt⟩ := hPlace
      simp only [Action.given, hCall]
      exact ih.submit hReady (by simp [hAt]) hCall
    | deploy user construction =>
      obtain ⟨x, hGains⟩ := gains_of_deploy hAction
      exact ih.calm hGains.calm
    | deployBlank kind => exact ih.calm (gains_of_deployBlank hAction).calm
    | placeRegistry | placeLedger => exact ih.calm (gains_of_place (by simp) hAction).calm
    | skip =>
      cases hAction
      exact ih

end CountedRun

/-- The fee ledger of a treasury in a wired run. The router's idle stable, with all that it has
reinvested and paid out as incentives, comes to the fees that it has kept back and to all that it
was given in the course of the run. -/
theorem WiredRun.fees_accounted_for {w : Wiring} {c : Chain} (h : WiredRun w c)
    (hComplete : w.Complete c) :
    ∃ (idle : Amount) (stats : Router.FeeStats),
      (∀ user, c.ask user w.router .idleBalance = .ok (.amount idle)) ∧
      (∀ user, c.ask user w.router .feeStats = .ok (.fees stats)) ∧
      (∃ d, CountedRun w d c) ∧
      ∀ d, CountedRun w d c →
        idle + stats.reinvested + stats.incentives = stats.collected + d := by
  obtain ⟨s, hs, -⟩ := hComplete.router
  refine ⟨c.balance w.stable w.router, s.fees, fun user => ?_, fun user => ?_,
    CountedRun.of_wiredRun h, fun d hCounted => ?_⟩
  · change (Answer.amount <$> Router.idleBalance w.router : View Answer) c = _
    rw [map_eq_pure_bind, View.bind_apply, hComplete.idleBalance_eq]
    rfl
  · exact View.bind_eq_ok.2 ⟨s, View.callee_eq_ok.2 hs, rfl⟩
  · have hAccounts := hCounted.accounts (h.router_place hComplete)
    rwa [Wiring.Accounts, fees, routing_of hs] at hAccounts

/-- A fee is kept back, and reinvested with a part of what the router was given directly. -/
theorem WiredRun.fees_accounted_for_reinvested : ∃ c d, WiredRun Standard.places c ∧
    Standard.places.Complete c ∧ CountedRun Standard.places d c ∧
    (∀ user, c.ask user Standard.router .idleBalance = .ok (.amount 7)) ∧
    (∀ user, c.ask user Standard.router .feeStats = .ok (.fees ⟨40, 95, 5⟩)) ∧ d = 60 + 7 := by
  have hEnd : (Standard.places.follow {} (Standard.pooled 0 1
      { admin := .account 0, withdrawalFee := 10_000, reinvestIncentive := 50_000 } rateScale
      10_000 ++
      [.call 0 Standard.router (.router (.setDefaultPool (some Standard.pool))),
        .call 1 Standard.share (.share (.deposit 5_000 (.account 1))),
        .call 1 Standard.share (.share (.redeem 4_000 (.account 1) (.account 1))),
        .call 1 Standard.stable (.token (.transfer Standard.router 60)),
        .call 2 Standard.router (.router .reinvestFees),
        .call 1 Standard.stable (.token (.transfer Standard.router 7))])).any (fun c =>
      Standard.places.completes c &&
        ((c.ask (.account 0) Standard.router .idleBalance).toOption.bind Answer.amount? == some 7 &&
          (c.ask (.account 0) Standard.router .feeStats).toOption.bind Answer.fees? ==
            some ⟨40, 95, 5⟩)) = true := by decide +kernel
  obtain ⟨c, hRun, hComplete, hHolds⟩ := Wiring.exists_reached hEnd
  obtain ⟨idle, stats, hIdle, hStats, ⟨d, hCounted⟩, hLedger⟩ := hRun.fees_accounted_for hComplete
  have hIdleAsked : c.ask (.account 0) Standard.router .idleBalance = .ok (.amount idle) := hIdle _
  have hStatsAsked : c.ask (.account 0) Standard.router .feeStats = .ok (.fees stats) := hStats _
  rw [hIdleAsked, hStatsAsked, Bool.and_eq_true, beq_iff_eq, beq_iff_eq] at hHolds
  obtain ⟨⟨⟩, ⟨⟩⟩ := hHolds
  have hSum := hLedger d hCounted
  refine ⟨c, d, hRun, hComplete, hCounted, hIdle, hStats, ?_⟩
  change 7 + 95 + 5 = 40 + d at hSum
  omega

end Treasury
