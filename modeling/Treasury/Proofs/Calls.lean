import Treasury.Proofs.PoolSet
import Treasury.Submission

/-! What a call can do, whatever it is. It deals without a router, it has a running router move
value, or it changes one contract; or it has an effect on settings, is a decision about a router, or
points a contract at another one. No call does two of these. -/
namespace Treasury

open Exec Chain

/-- A contract is pointed at another one. -/
inductive Rewired (user : Address) (c : Chain) : Chain → Prop where
  | custody {k router : Address} {q q' : Custody} (hOld : c.contract? k = some (.custody q))
      (h : q.setRouter user router = .ok q') : Rewired user c (c.put k (.custody q'))
  | share {a router : Address} {t t' : ShareToken} (hOld : c.contract? a = some (.share t))
      (h : t.setRouter user router = .ok t') : Rewired user c (c.put a (.share t'))
  | router {a token : Address} {s : Router.State} (hOld : c.contract? a = some (.router s))
      (hAdmin : s.roles.has Roles.admin user = true) :
      Rewired user c (c.put a (.router { s with shareToken := some token }))

/-- Settings change, and books do not. -/
inductive Chain.Arranged (user : Address) (c : Chain) : Chain → Prop where
  | settled {c' : Chain} (h : Settled user c c') : Arranged user c c'
  | governed {c' : Chain} {a : Address} (h : c.Governs user a c') : Arranged user c c'
  | rewired {c' : Chain} (h : Rewired user c c') : Arranged user c c'

/-- A custody contract heeds the user, who is its router. -/
def Chain.Heeds (user : Address) (c : Chain) (a : Address) : Prop :=
  ∃ q, c.contract? a = some (.custody q) ∧ q.router = some user

/-- What a call of a user does. -/
inductive Chain.Performs (user : Address) (c : Chain) : Chain → Prop where
  /-- Nobody gives or lends anything but the user, pools, and custody contracts that heed the user.
  -/
  | dealt {c' : Chain} (h : Deal (Chain.Heeds user) user c c') : Performs user c c'
  | flowed {c' : Chain} (hRunning : ¬c.Paused) (h : Flow user c c') : Performs user c c'
  /-- The user is the router of a share token, and has it issue shares. -/
  | issued {a receiver : Address} {n : Amount} {t : ShareToken} {l : Token.Ledger}
      (hOld : c.contract? a = some (.share t)) (hRouter : t.router = some user)
      (h : t.ledger.mint receiver n = .ok l) :
      Performs user c (c.put a (.share { t with ledger := l }))
  /-- The user is the router of a share token, and has it destroy shares. -/
  | retired {a initiator owner : Address} {n : Amount} {t t' : ShareToken}
      (hOld : c.contract? a = some (.share t)) (hRouter : t.router = some user)
      (h : t.retire initiator owner n = .ok t') : Performs user c (c.put a (.share t'))
  | deed {c' : Chain} (h : Deed user c c') : Performs user c c'
  | arranged {c' : Chain} (h : c.Arranged user c') : Performs user c c'

/-- What a chain undergoes by a call of a user. -/
inductive Chain.Undergoes (user : Address) (c : Chain) : Chain → Prop where
  | effect {c' : Chain} (h : Effect user c c') : Undergoes user c c'
  | governed {c' : Chain} {a : Address} (h : c.Governs user a c') : Undergoes user c c'
  | rewired {c' : Chain} (h : Rewired user c c') : Undergoes user c c'

namespace Token.Ledger

/-- The operations of a ledger that stands by itself. It does as it is told by anyone. -/
inductive Operates : Ledger → Ledger → Prop where
  | moved {l l' : Ledger} (m : Move) (h : m.onLedger l = .ok l') : Operates l l'
  | spent {l l' : Ledger} {owner spender : Address} {n : Amount}
      (h : l.spendAllowance owner spender n = .ok l') : Operates l l'
  | minted {l l' : Ledger} {account : Address} {n : Amount} (h : l.mint account n = .ok l') :
      Operates l l'
  | burned {l l' : Ledger} {account : Address} {n : Amount} (h : l.burn account n = .ok l') :
      Operates l l'

end Token.Ledger

/-- What a call of a user does that moves no value. It changes one contract, or settings. -/
inductive Chain.Amends (user : Address) (c : Chain) : Chain → Prop where
  | issued {a receiver : Address} {n : Amount} {t : ShareToken} {l : Token.Ledger}
      (hOld : c.contract? a = some (.share t)) (hRouter : t.router = some user)
      (h : t.ledger.mint receiver n = .ok l) :
      Amends user c (c.put a (.share { t with ledger := l }))
  | retired {a initiator owner : Address} {n : Amount} {t t' : ShareToken}
      (hOld : c.contract? a = some (.share t)) (hRouter : t.router = some user)
      (h : t.retire initiator owner n = .ok t') : Amends user c (c.put a (.share t'))
  | minted {a account : Address} {n : Amount} {t t' : Token.Stable}
      (hOld : c.contract? a = some (.stable t)) (h : t.mint user account n = .ok t') :
      Amends user c (c.put a (.stable t'))
  | burned {a : Address} {n : Amount} {t t' : Token.Stable}
      (hOld : c.contract? a = some (.stable t)) (h : t.burn user n = .ok t') :
      Amends user c (c.put a (.stable t'))
  /-- A ledger that stands by itself makes an operation. -/
  | operated {a : Address} {l l' : Token.Ledger} (hOld : c.contract? a = some (.ledger l))
      (h : l.Operates l') : Amends user c (c.put a (.ledger l'))
  /-- A registry or a record of roles that stands by itself does as it is told. -/
  | standalone {a : Address} {old new : Contract} (hOld : c.contract? a = some old)
      (hKind : old.kind ∈ [.registry, .roles]) (hSame : new.kind = old.kind) :
      Amends user c (c.put a new)
  | constructed {a : Address} {old new : Contract} (hOld : c.contract? a = some old)
      (hBlank : a ∈ c.blank) (h : Construction.Builds c old new) : Amends user c (c.put a new)
  | arranged {c' : Chain} (h : c.Arranged user c') : Amends user c c'

/-- What any call of a user does: it moves value, or it does not. -/
inductive Chain.Executes (user : Address) (c : Chain) : Chain → Prop where
  | dealt {c' : Chain} (h : Deal (Chain.Heeds user) user c c') : Executes user c c'
  | flowed {c' : Chain} (hRunning : ¬c.Paused) (h : Flow user c c') : Executes user c c'
  | amended {c' : Chain} (h : c.Amends user c') : Executes user c c'

namespace Chain

variable {user : Address} {c c' : Chain}

theorem Heeds.kind? {a : Address} (h : c.Heeds user a) : c.kind? a = some .custody := by
  obtain ⟨q, hq, -⟩ := h
  exact kind?_of_contract? hq

theorem Amends.configured (h : Configured user c c') : c.Amends user c' :=
  .arranged (.settled (.step .refl h))

theorem Amends.performs (h : c.Amends user c') : c.Performs user c' := by
  cases h with
  | issued hOld hRouter h => exact .issued hOld hRouter h
  | retired hOld hRouter h => exact .retired hOld hRouter h
  | minted hOld h => exact .deed (.minted hOld h)
  | burned hOld h => exact .deed (.burned hOld h)
  | operated hOld => exact .deed (.standalone hOld (by simp [Contract.kind]) rfl)
  | standalone hOld hKind hSame =>
    refine .deed (.standalone hOld ?_ hSame)
    simp only [List.mem_cons, List.not_mem_nil, or_false] at hKind ⊢
    exact hKind.imp_right .inl
  | constructed hOld hBlank h => exact .deed (.constructed hOld hBlank h)
  | arranged h => exact .arranged h

theorem Executes.performs (h : c.Executes user c') : c.Performs user c' := by
  cases h with
  | dealt h => exact .dealt h
  | flowed hRunning h => exact .flowed hRunning h
  | amended h => exact h.performs

theorem Arranged.undergoes (h : c.Arranged user c') : c.Undergoes user c' := by
  cases h with
  | settled h => exact .effect h.effect
  | governed h => exact .governed h
  | rewired h => exact .rewired h

theorem Performs.undergoes (h : c.Performs user c') : c.Undergoes user c' := by
  cases h with
  | dealt h => exact .effect (.flow (.trade (h.mono fun _ _ hHeeds => .inr hHeeds.kind?)))
  | flowed _ h => exact .effect (.flow h)
  | issued hOld _ h => exact .effect (.flow (.issued hOld h))
  | retired hOld hRouter h => exact .effect (.flow (.retired hOld (.inr hRouter) h))
  | deed h => exact .effect (.deed h)
  | arranged h => exact h.undergoes

end Chain

namespace Construction

variable {self caller : Address} {w : World}

theorem after_run (construction : Construction) :
    After (construction.run self caller) w fun _ v =>
      ∃ old new, w.chain.contract? self = some old ∧ Builds w.chain old new ∧
        v.chain = w.chain.put self new := by
  cases construction with
  | stable admin name symbol decimals =>
    apply after_amend
    intro t t' v hOld h hv
    cases h
    exact ⟨_, _, hOld, .stable t _ _ _ _, hv⟩
  | share admin asset name symbol decimals =>
    apply after_amend
    intro t t' v hOld h hv
    cases h
    exact ⟨_, _, hOld, .share t _ _ _ _ _, hv⟩
  | yieldVault admin asset =>
    apply after_amend
    intro t t' v hOld h hv
    cases h
    exact ⟨_, _, hOld, .yieldVault t _ _, hv⟩
  | fixedRate admin asset custodian rate =>
    exact after_amend fun s s' v hOld h hv => ⟨_, _, hOld, .fixedRate h, hv⟩
  | synthetic admin asset custodian =>
    apply after_amend
    intro s s' v hOld h hv
    cases h
    exact ⟨_, _, hOld, .synthetic s _ _ _, hv⟩
  | wrapped admin asset custodian vault =>
    simp only [run, after_entering, after_bind, after_view, after_result, View.callee_eq_ok,
      after_put]
    intro s hOld held hHeld s' hConstruct
    simp only [Yield.asset, View.bind_eq_ok, View.callee_eq_ok] at hHeld
    obtain ⟨held, hVault, -⟩ := hHeld
    exact ⟨_, _, hOld, .wrapped (kind?_of_contract? hVault) hConstruct, rfl⟩
  | custody admin limit part =>
    exact after_amend fun q q' v hOld h hv => ⟨_, _, hOld, .custody h, hv⟩
  | router setup => exact after_amend fun s s' v hOld h hv => ⟨_, _, hOld, .router h, hv⟩
  | roles admin => exact after_amend fun r r' v hOld h hv => ⟨_, _, hOld, .roles h, hv⟩

end Construction

section Commands

variable {user self : Address} {w : World} {back : Router.Callback}

theorem Exec.After.dealt {α : Type} {m : Exec α}
    (h : After m w fun _ v => Deal (Chain.Heeds user) user w.chain v.chain) :
    After m w fun _ v => w.chain.Executes user v.chain :=
  h.mono fun _ _ => .dealt

theorem Token.Command.after_run (command : Token.Command) :
    After (command.run self user) w fun _ v => w.chain.Executes user v.chain := by
  cases command <;> simp only [Token.Command.run, after_bind, after_pure]
  · exact Token.after_transfer.mono fun _ _ hMove => .dealt (.sent (.inl rfl) hMove)
  · exact Token.after_approve.mono fun _ _ hMove => .dealt (.allowed hMove)
  · exact Token.after_transferFrom.mono fun _ _ hMove => .dealt (.drawn hMove)

theorem Token.Stable.Command.after_run (command : Token.Stable.Command) :
    After (command.run self user) w fun _ v => w.chain.Amends user v.chain := by
  cases command with
  | mint account n =>
    simp only [Token.Stable.Command.run, after_entering, after_bind, after_view, after_result,
      View.callee_eq_ok, after_put, after_mark]
    exact fun t hOld t' h => .minted hOld h
  | burn n => exact after_amend fun t t' v hOld h hv => hv ▸ .burned hOld h
  | addMinter account =>
    exact after_amend fun t t' v hOld h hv => hv ▸ .configured (.minters hOld h)
  | removeMinter account =>
    exact after_amend fun t t' v hOld h hv => hv ▸ .configured (.minters hOld h)

theorem Token.Ledger.Command.after_run (command : Token.Ledger.Command) :
    After (command.run self user) w fun _ v => w.chain.Amends user v.chain := by
  cases command with
  | transfer giver taker n =>
    exact after_amend fun l l' v hOld h hv =>
      hv ▸ .operated hOld (.moved (.transfer giver taker n) h)
  | approve owner spender n =>
    exact after_amend fun l l' v hOld h hv =>
      hv ▸ .operated hOld (.moved (.approve owner spender n) h)
  | spendAllowance => exact after_amend fun l l' v hOld h hv => hv ▸ .operated hOld (.spent h)
  | transferFrom spender owner taker n =>
    exact after_amend fun l l' v hOld h hv =>
      hv ▸ .operated hOld (.moved (.transferFrom spender owner taker n) h)
  | mint => exact after_amend fun l l' v hOld h hv => hv ▸ .operated hOld (.minted h)
  | burn => exact after_amend fun l l' v hOld h hv => hv ▸ .operated hOld (.burned h)

/-- A registry or a record of roles that stands by itself changes as it is told. -/
theorem after_amend_standalone {σ : Type} [Storage σ] {entry : String} {change : σ → Result σ}
    (hKind : ∀ s : σ, (Storage.wrap s).kind ∈ [.registry, .roles])
    (hSame : ∀ s t : σ, (Storage.wrap s).kind = (Storage.wrap t).kind) :
    After (amend user self entry change) w fun _ v => w.chain.Amends user v.chain :=
  after_amend fun s t _ hOld _ hv => hv ▸ .standalone hOld (hKind s) (hSame t s)

theorem Roles.Command.after_run (command : Roles.Command) :
    After (command.run self user) w fun _ v => w.chain.Amends user v.chain := by
  cases command <;>
    exact after_amend_standalone (fun _ => by simp [Storage.wrap, Contract.kind]) fun _ _ => rfl

theorem Pool.Registry.Command.after_run (command : Pool.Registry.Command) :
    After (command.run self user) w fun _ v => w.chain.Amends user v.chain := by
  cases command with
  | push | update =>
    simp only [Pool.Registry.Command.run, after_bind, after_pure]
    exact after_amend_standalone (fun _ => by simp [Storage.wrap, Contract.kind]) fun _ _ => rfl
  | swapRemove pool =>
    simp only [Pool.Registry.Command.run, after_entering, after_bind, after_view, after_result,
      View.callee_eq_ok, after_put, after_pure]
    exact fun r hOld _ _ => .standalone hOld (by simp [Storage.wrap, Contract.kind]) rfl

theorem Yield.Command.after_run (command : Yield.Command) :
    After (command.run self user) w fun _ v => w.chain.Executes user v.chain := by
  have hUser := acts_user w.chain user
  cases command <;> simp only [Yield.Command.run, after_map, after_bind, after_pure]
  · exact After.dealt (Yield.after_deposit hUser)
  · exact After.dealt (Yield.after_redeem (.inl rfl))
  · exact After.dealt (Yield.after_accrueYield hUser)

namespace Strategy.Command

/-- Whether a call to a pool adapter moves value. -/
def movesValue : Strategy.Command → Bool
  | deposit _ | withdraw _ | fund _ => true
  | _ => false

theorem after_run_moves (hBack : Router.CallsBack user back) {command : Strategy.Command}
    (hMoves : command.movesValue = true) :
    After (command.run back self user) w fun _ v => w.chain.Executes user v.chain := by
  have hUser := acts_user w.chain user
  cases command with
  | deposit n =>
    simp only [Strategy.Command.run, after_bind, after_pure]
    by_cases hPaused : w.chain.Paused
    · exact After.dealt (Strategy.after_deposit_paused hBack hUser hPaused)
    · exact (Strategy.after_deposit hBack hUser).mono fun _ _ => .flowed hPaused
  | withdraw shares =>
    simp only [Strategy.Command.run, after_map]
    exact After.dealt (Strategy.after_withdraw hUser)
  | fund n =>
    simp only [Strategy.Command.run, after_bind, after_pure]
    exact After.dealt (Strategy.FixedRate.after_fund hUser)
  | setRate | setPaused | turn => cases hMoves

theorem after_run_amends {command : Strategy.Command} (hMoves : command.movesValue = false) :
    After (command.run back self user) w fun _ v => w.chain.Amends user v.chain := by
  cases command with
  | deposit | withdraw | fund => cases hMoves
  | setRate rate =>
    simp only [Strategy.Command.run, Strategy.setRate, after_bind, after_pure, after_entering,
      after_view, View.contract_eq_ok]
    intro x hx
    cases x <;> simp only [after_bind, after_result, after_put, after_throw]
    · exact fun s' h => .configured (.tuned hx (.fixedRate h))
    · exact fun s' h => .configured (.tuned hx (.syntheticRate h))
  | setPaused paused =>
    simp only [Strategy.Command.run, Strategy.setPaused, after_bind, after_pure, after_entering,
      after_view, View.contract_eq_ok]
    intro x hx
    cases x <;> simp only [after_bind, after_result, after_put, after_throw]
    · exact fun s' h => .configured (.tuned hx (.fixedRatePaused h))
    · exact fun s' h => .configured (.tuned hx (.wrappedPaused h))
  | turn switch =>
    simp only [Strategy.Command.run, after_bind, after_pure]
    exact after_amend fun s s' v hOld h hv => hv ▸ .configured (.tuned hOld (.turned h))

end Strategy.Command

namespace Custody.Command

/-- Whether a call to a custody contract moves value. -/
def movesValue : Custody.Command → Bool
  | transferShares .. => true
  | _ => false

theorem after_run_moves {command : Custody.Command} (hMoves : command.movesValue = true) :
    After (command.run self user) w fun _ v => w.chain.Executes user v.chain := by
  cases command with
  | transferShares pool n recipient =>
    refine Custody.after_transferShares.mono fun _ v h => ?_
    obtain ⟨⟨q, hq, -, hRouter⟩, hMove⟩ := h
    exact .dealt (.sent (.inr ⟨q, hq, hRouter⟩) hMove)
  | _ => cases hMoves

theorem after_run_amends {command : Custody.Command} (hMoves : command.movesValue = false) :
    After (command.run self user) w fun _ v => w.chain.Amends user v.chain := by
  cases command with
  | transferShares => cases hMoves
  | bindAdapter pool adapter =>
    refine Custody.after_bindAdapter.mono fun _ v h => ?_
    obtain ⟨q, hq, hKnown, hFree, hPool, hv⟩ := h
    exact hv ▸ .configured (.obeyed hq (.bound hKnown hFree hPool))
  | unbindAdapter pool =>
    refine Custody.after_unbindAdapter.mono fun _ v h => ?_
    obtain ⟨q, q', hq, hUnbind, hv⟩ := h
    exact hv ▸ .configured (.obeyed hq (.unbound hUnbind))
  | supportPool pool =>
    refine Custody.after_supportPool.mono fun _ v h => ?_
    obtain ⟨q, q', hq, hSupport, hv⟩ := h
    exact hv ▸ .configured (.obeyed hq (.supported hSupport))
  | unsupportPool pool =>
    refine Custody.after_unsupportPool.mono fun _ v h => ?_
    obtain ⟨q, supported, hq, hKnown, hIn, -, hOut, hv⟩ := h
    exact hv ▸ .configured (.obeyed hq (.unsupported hKnown hIn hOut))
  | setRouter router =>
    simp only [Custody.Command.run, Custody.changeRouter, after_entering, after_bind, after_view,
      after_result, View.callee_eq_ok, after_put, after_emit]
    exact fun q hq q' h => .arranged (.rewired (.custody hq h))
  | setDust limit part =>
    exact after_amend fun q q' v hq h hv => hv ▸ .configured (.ruled hq (.inl ⟨limit, part, h⟩))
  | setAdmin admin =>
    exact after_amend fun q q' v hq h hv => hv ▸ .configured (.ruled hq (.inr ⟨admin, h⟩))

end Custody.Command

namespace ShareToken.Command

/-- Whether a call to a share token moves value. -/
def movesValue : ShareToken.Command → Bool
  | deposit .. | redeem .. => true
  | _ => false

theorem after_run_moves (hBack : Router.CallsBack user back) {command : ShareToken.Command}
    (hMoves : command.movesValue = true) :
    After (command.run back self user) w fun _ v => w.chain.Executes user v.chain := by
  cases command with
  | deposit assets receiver =>
    simp only [ShareToken.Command.run, after_map]
    by_cases hPaused : w.chain.Paused
    · exact (ShareToken.after_deposit_paused hPaused).mono fun _ _ => False.elim
    · exact (ShareToken.after_deposit hBack rfl).mono fun _ _ => .flowed hPaused
  | redeem shares receiver owner =>
    simp only [ShareToken.Command.run, after_map]
    by_cases hPaused : w.chain.Paused
    · exact (ShareToken.after_redeem_paused hPaused).mono fun _ _ => False.elim
    · exact (ShareToken.after_redeem rfl).mono fun _ _ => .flowed hPaused
  | mintFor | burnFor | setRouter => cases hMoves

theorem after_run_amends {command : ShareToken.Command} (hMoves : command.movesValue = false) :
    After (command.run back self user) w fun _ v => w.chain.Amends user v.chain := by
  cases command with
  | deposit | redeem => cases hMoves
  | mintFor receiver shares =>
    simp only [ShareToken.Command.run, after_bind, after_pure]
    refine ShareToken.after_mintFor_moves.mono fun _ v h => ?_
    obtain ⟨t, l, hOld, hMint, hRouter, hv⟩ := h
    exact hv ▸ .issued hOld hRouter hMint
  | burnFor initiator owner shares =>
    simp only [ShareToken.Command.run, after_bind, after_pure]
    refine ShareToken.after_burnFor.mono fun _ v h => ?_
    obtain ⟨t, t', hOld, hRouter, -, hRetire, hv⟩ := h
    exact hv ▸ .retired hOld hRouter hRetire
  | setRouter router =>
    simp only [ShareToken.Command.run, after_bind, after_pure]
    exact after_amend fun t t' v hOld h hv => hv ▸ .arranged (.rewired (.share hOld h))

end ShareToken.Command

namespace Router

variable {f : Frame}

theorem after_setShareToken {token : Address} :
    After (setShareToken f token) w fun _ v => Rewired f.caller w.chain v.chain := by
  simp only [setShareToken, requireAdmin, Roles.requireAdmin, Roles.requireRole, after_bind,
    after_guarded, after_result, ensure_eq_ok, forall_const, store, after_put]
  exact fun s hs _ hAdmin => .router hs hAdmin

/-- A flow of value, or that a router is paused. -/
theorem after_run_flows (hBack : CallsBack f.caller back) {command : Command}
    (hNeeds : command.needsRunning = true) :
    After (run back f command) w fun _ v => Flow f.caller w.chain v.chain := by
  have hActs : w.chain.Acts f.caller f.caller := acts_user _ _
  cases command with
  | handleDeposit => exact After.answered (after_handleDeposit hBack (.inr rfl))
  | handleWithdraw => exact After.answered (after_handleWithdraw f.caller)
  | solverDepositByAssets => exact after_map.2 (after_solverDepositByAssets hBack hActs)
  | solverDepositByShares => exact after_map.2 (after_solverDepositByShares hBack hActs)
  | solverWithdrawByAssets => exact after_map.2 (after_solverWithdrawByAssets rfl)
  | solverWithdrawByShares => exact After.answered (after_solverWithdrawByShares rfl)
  | rebalanceByShares => exact after_map.2 (after_rebalanceByShares hBack)
  | rebalanceByValue => exact after_map.2 (after_rebalanceByValue hBack)
  | rebalanceExternally => exact after_map.2 (after_rebalanceExternally hBack hActs)
  | reinvestFees => exact After.answered (after_reinvestFees hBack)
  | pause => exact After.answered (after_pause hActs)
  | _ => cases hNeeds

/-- Whether a call asks for a decision that a router keeps to itself, other than about roles. -/
def Command.isOrder : Command → Bool
  | recordShortfall _ | clearShortfall _ | updatePoolTarget .. | setPoolStatus .. | removePool _
  | replacePoolTargets _ | setDepositCap _ | setDustTolerance _ | setReinvestIncentive _
  | setWithdrawalFee _ | setMaxPoolCount _ | setDefaultPool _ | unpause => true
  | _ => false

theorem after_run_orders {command : Command} (hOrder : command.isOrder = true) :
    After (run back f command) w fun _ v => w.chain.Orders f.caller f.self v.chain := by
  cases command with
  | recordShortfall => exact After.answered after_recordShortfall
  | clearShortfall => exact After.answered after_clearShortfall
  | updatePoolTarget => exact After.answered after_updatePoolTarget
  | setPoolStatus => exact After.answered after_setPoolStatus
  | removePool => exact After.answered after_removePool
  | replacePoolTargets => exact After.answered after_replacePoolTargets
  | setDepositCap => exact After.answered after_setDepositCap
  | setDustTolerance => exact After.answered after_setDustTolerance
  | setReinvestIncentive => exact After.answered after_setReinvestIncentive
  | setWithdrawalFee => exact After.answered after_setWithdrawalFee
  | setMaxPoolCount => exact After.answered after_setMaxPoolCount
  | setDefaultPool => exact After.answered after_setDefaultPool
  | unpause => exact After.answered after_unpause
  | _ => cases hOrder

/-- All commands that are no flows change settings. -/
theorem after_run_arranged (hBack : CallsBack f.caller back) {command : Command}
    (hNeeds : command.needsRunning = false) :
    After (run back f command) w fun _ v => w.chain.Arranged f.caller v.chain := by
  have hGoverns {α : Type} {m : Exec α} {answer : α → Answer}
      (h : After m w fun _ v => w.chain.Governs f.caller f.self v.chain) :
      After (do let a ← m; pure (answer a)) w fun _ v => w.chain.Arranged f.caller v.chain :=
    After.answered (h.mono fun _ _ => .governed)
  cases hOrder : command.isOrder with
  | true => exact (after_run_orders hOrder).mono fun _ _ h => .governed h.governs
  | false =>
    cases command with
    | registerAdapter =>
      refine After.answered ((after_registerAdapter hBack (acts_user _ _)).mono fun _ _ h => ?_)
      exact .settled (.step .refl (.bound h))
    | removeAdapter =>
      exact After.answered (after_removeAdapter.mono fun _ _ h => .settled h.settled)
    | setShareToken => exact After.answered (after_setShareToken.mono fun _ _ => .rewired)
    | addPool => exact hGoverns (after_addPool.mono fun _ _ => Decrees.governs)
    | grantRole => exact hGoverns (after_changeRoles fun _ _ => .granted)
    | revokeRole => exact hGoverns (after_changeRoles fun _ _ => .revoked)
    | renounceRole => exact hGoverns (after_changeRoles fun _ _ => .renounced)
    | _ => first | (cases hNeeds; done) | cases hOrder

theorem after_run_moves (hBack : CallsBack f.caller back) {command : Command}
    (hNeeds : command.needsRunning = true) :
    After (run back f command) w fun _ v => w.chain.Executes f.caller v.chain := by
  by_cases hPaused : w.chain.Paused
  · exact (after_run_paused hPaused hNeeds).mono fun _ _ => False.elim
  · exact (after_run_flows hBack hNeeds).mono fun _ _ => .flowed hPaused

/-- Calls that come back to a router do what they may, at whatever depth. -/
theorem callsBack_nested (user : Address) (depth : Nat) : CallsBack user (nested depth) := by
  have hPaused : ∀ depth f w, w.chain.Paused → ∀ command ∈ [Command.pause, .reinvestFees],
      After (nested depth f command) w fun _ _ => False := by
    intro depth f w hPaused command hCommand
    apply after_nested_paused hPaused
    simp only [List.mem_cons, List.not_mem_nil, or_false] at hCommand
    rcases hCommand with rfl | rfl <;> rfl
  induction depth with
  | zero =>
    exact ⟨fun _ _ _ _ _ => after_throw.2 trivial, fun _ _ _ _ _ => after_throw.2 trivial,
      hPaused 0⟩
  | succ depth ih =>
    refine ⟨?_, ?_, hPaused (depth + 1)⟩
    · intro f w hCaller command hCommand
      simp only [List.mem_cons, List.not_mem_nil, or_false] at hCommand
      simp only [nested, after_discard]
      rcases hCommand with rfl | rfl
      · simp only [run, after_bind, after_pure]
        exact after_pause hCaller
      · simp only [run, after_bind, after_pure]
        exact after_reinvestFees ih
    · intro f w pool adapter hCaller
      simp only [nested, after_discard, run, after_bind, after_pure]
      exact after_registerAdapter ih hCaller

end Router

namespace Command

/-- Whether a call moves value. All others change one contract, or settings. -/
def movesValue : Command → Bool
  | token _ | yieldVault _ => true
  | share command => command.movesValue
  | strategy command => command.movesValue
  | custody command => command.movesValue
  | router command => command.needsRunning
  | _ => false

theorem after_run_amends (hBack : Router.CallsBack user back) {command : Command}
    (hMoves : command.movesValue = false) :
    After (command.run back self user) w fun _ v => w.chain.Amends user v.chain := by
  cases command with
  | token | yieldVault => cases hMoves
  | stable command => exact After.answered (Token.Stable.Command.after_run command)
  | ledger command => exact After.answered (Token.Ledger.Command.after_run command)
  | registry command => exact Pool.Registry.Command.after_run command
  | roles command => exact After.answered (Roles.Command.after_run command)
  | share => exact ShareToken.Command.after_run_amends hMoves
  | strategy => exact Strategy.Command.after_run_amends hMoves
  | custody => exact After.answered (Custody.Command.after_run_amends hMoves)
  | router => exact (Router.after_run_arranged hBack hMoves).mono fun _ _ => .arranged
  | construct construction =>
    simp only [Command.run, after_bind, after_view, after_get]
    intro _ _
    split
    · next hBlank =>
      refine After.answered ((Construction.after_run construction).mono ?_)
      intro _ v h
      obtain ⟨old, new, hOld, hBuilds, hv⟩ := h
      rw [hv]
      exact .constructed hOld hBlank hBuilds
    · exact after_throw.2 trivial
  | unlisted entry =>
    simp only [Command.run, after_bind, after_throw, after_view, implies_true]

theorem after_run (hBack : Router.CallsBack user back) (command : Command) :
    After (command.run back self user) w fun _ v => w.chain.Executes user v.chain := by
  cases hMoves : command.movesValue with
  | false => exact (after_run_amends hBack hMoves).mono fun _ _ => .amended
  | true =>
    cases command with
    | token command => exact Token.Command.after_run command
    | yieldVault command => exact Yield.Command.after_run command
    | share => exact ShareToken.Command.after_run_moves hBack hMoves
    | strategy => exact Strategy.Command.after_run_moves hBack hMoves
    | custody => exact After.answered (Custody.Command.after_run_moves hMoves)
    | router => exact Router.after_run_moves hBack hMoves
    | _ => cases hMoves

end Command

end Commands

/-- What holds after a command holds of what is left behind by submitting it. -/
theorem Chain.of_submit {c : Chain} {user target : Address} {command : Command} {out : Outcome}
    {Q : Answer → World → Prop}
    (h : After (command.run c.callback target user) { chain := c } Q)
    (hCall : c.submit user target command = .ok out) :
    Q out.answer { chain := out.chain, events := out.events, marks := out.marks } := by
  obtain ⟨⟨answer, v⟩, hRun, ⟨⟩⟩ := Result.bind_eq_ok.1 hCall
  exact h answer v hRun

/-- What a call that a user submits does to the chain. -/
theorem Chain.submit_executes {c : Chain} {user target : Address} {command : Command}
    {out : Outcome} (hCall : c.submit user target command = .ok out) :
    c.Executes user out.chain :=
  of_submit (Command.after_run (Router.callsBack_nested user c.contracts.length) command) hCall

/-- What a call that a user submits does to the chain if it moves no value. -/
theorem Chain.submit_amends {c : Chain} {user target : Address} {command : Command}
    {out : Outcome} (hMoves : command.movesValue = false)
    (hCall : c.submit user target command = .ok out) : c.Amends user out.chain :=
  of_submit (Command.after_run_amends (Router.callsBack_nested user c.contracts.length) hMoves)
    hCall

theorem Chain.submit_performs {c : Chain} {user target : Address} {command : Command}
    {out : Outcome} (hCall : c.submit user target command = .ok out) :
    c.Performs user out.chain :=
  (submit_executes hCall).performs

theorem Chain.submit_undergoes {c : Chain} {user target : Address} {command : Command}
    {out : Outcome} (hCall : c.submit user target command = .ok out) :
    c.Undergoes user out.chain :=
  (submit_performs hCall).undergoes

end Treasury
