import Treasury.Proofs.Directions
import Treasury.Proofs.LedgerRun
import Treasury.Proofs.VaultAssets

/-! The rate at which the shares of a yield vault can be turned into its asset. Every call takes a
vault one way at most, and then the rate does not fall. Only a rebalance takes it both ways, and if
the vault has no shares in between, it starts anew at one for one. -/
namespace Treasury

open Exec Chain

section Commands

variable {x t user self : Address} {w : World} {back : Router.Callback}

theorem Router.after_run_sways {f : Router.Frame} (hBack : Router.Feeds x t back)
    (h : w.chain.Holds x t) (hListed : w.chain.Listed) (hSealed : w.chain.Sealed)
    {command : Router.Command} (hNeeds : command.needsRunning = true) :
    After (Router.run back f command) w fun _ v =>
      Sways x t f.self (.router command) w.chain v.chain := by
  cases command with
  | handleDeposit =>
    exact After.answered (After.joined (after_handleDeposit_turns hBack h))
  | handleWithdraw =>
    exact After.answered (After.left (after_handleWithdraw_turns h))
  | solverDepositByAssets =>
    exact after_map.2 (After.joined (after_solverDepositByAssets_turns hBack h))
  | solverDepositByShares =>
    exact after_map.2 (After.joined (after_solverDepositByShares_turns hBack h))
  | solverWithdrawByAssets =>
    exact after_map.2 (After.left (after_solverWithdrawByAssets_turns h))
  | solverWithdrawByShares =>
    exact After.answered (After.left (after_solverWithdrawByShares_turns h))
  | rebalanceByShares =>
    exact after_map.2 (after_rebalanceByShares_sways hBack h hListed hSealed)
  | rebalanceByValue =>
    exact after_map.2 (after_rebalanceByValue_sways hBack h hListed hSealed)
  | rebalanceExternally =>
    exact after_map.2 (After.joined (after_rebalanceExternally_turns hBack h))
  | reinvestFees =>
    exact After.answered (After.joined (after_reinvestFees_turns hBack h))
  | pause => exact After.answered (After.joined (after_pause_turns True False h))
  | _ => cases hNeeds

/-- A call that moves value takes a pool one way, or it is a rebalance. -/
theorem Command.after_run_sways (hBack : Router.Feeds x t back) (hUser : user ≠ x)
    (h : w.chain.Holds x t) (hListed : w.chain.Listed) (hSealed : w.chain.Sealed)
    {command : Command} (hMoves : command.movesValue = true) :
    After (command.run back self user) w fun _ v =>
      Sways x t self command w.chain v.chain := by
  cases command with
  | token command =>
    cases command with
    | transfer =>
      exact After.answered (After.joined (Token.after_transfer_turns True False h hUser))
    | approve =>
      exact After.answered (After.joined (Token.after_approve_turns True False h hUser))
    | transferFrom =>
      exact After.answered (After.joined (Token.after_transferFrom_turns True False h))
  | yieldVault command =>
    cases command with
    | deposit => exact after_map.2 (After.joined (Yield.after_deposit_turns h))
    | redeem => exact after_map.2 (After.left (Yield.after_redeem_turns h))
    | accrueYield =>
      exact After.answered (After.joined (Yield.after_accrueYield_turns True False h))
  | share command =>
    cases command with
    | deposit =>
      exact after_map.2 (After.joined (ShareToken.after_deposit_turns hBack h))
    | redeem => exact after_map.2 (After.left (ShareToken.after_redeem_turns h))
    | mintFor | burnFor | setRouter => cases hMoves
  | strategy command =>
    cases command with
    | deposit =>
      exact After.answered (After.joined (Strategy.after_deposit_turns hBack h))
    | withdraw => exact after_map.2 (After.left (Strategy.after_withdraw_turns h))
    | fund =>
      exact After.answered (After.joined (Strategy.FixedRate.after_fund_turns True False h))
    | setRate | setPaused | turn => cases hMoves
  | custody command =>
    cases command with
    | transferShares =>
      exact After.answered (After.joined (Custody.after_transferShares_turns True False h))
    | _ => cases hMoves
  | router command =>
    exact Router.after_run_sways hBack h hListed hSealed hMoves
  | _ => cases hMoves

end Commands

namespace Chain

variable {c c' : Chain} {v t x r user : Address} {command : Command} {y : Yield.Vault}

/-- A call that does not take all shares of a vault out leaves those that stay worth no less. -/
theorem Sways.lifts (h : Sways v t r command c c') (hVault : c.Vault v t) (hCovers : c.Covers v t)
    (hNot : ¬c.Pulls r v (c.supply v) command) (hSome : c.supply v ≠ 0) (hStill : c'.supply v ≠ 0) :
    Lifts v t c c' := by
  cases h with
  | joined h => exact (h.lifts_of_joins hVault hCovers).2 hSome
  | left h => exact (h.lifts_of_leaves hVault hCovers).2 hStill
  | @rebalanced c₁ _ p shares hPulls hLeft hSupply hJoined =>
    have hBetween : c₁.supply v ≠ 0 := by
      intro hNone
      rw [hNone, Nat.zero_add] at hSupply
      split at hSupply
      · next hAt => exact hNot (hSupply ▸ hAt ▸ hPulls)
      · exact hSome hSupply.symm
    have hFirst := (hLeft.lifts_of_leaves hVault hCovers).2 hBetween
    have hThen := hJoined.lifts_of_joins (hVault.turns hLeft) (hLeft.covers hVault hCovers)
    exact hFirst.trans hBetween (hThen.2 hBetween)

/-- What the vault at `v` answers of what it holds, and of how many shares it has issued. -/
structure Shows (c : Chain) (v : Address) (held issued : Amount) : Prop where
  assets : ∀ caller, c.ask caller v .totalAssets = .ok (.amount held)
  shares : ∀ caller, c.ask caller v .totalSupply = .ok (.amount issued)

/-- There is one answer to each question. -/
theorem Shows.unique {held issued held' issued' : Amount} (h : c.Shows v held issued)
    (h' : c.Shows v held' issued') : held = held' ∧ issued = issued' := by
  obtain ⟨⟩ := Except.ok.inj ((h.assets v).symm.trans (h'.assets v))
  obtain ⟨⟩ := Except.ok.inj ((h.shares v).symm.trans (h'.shares v))
  exact ⟨rfl, rfl⟩

/-- A vault over a stable token answers what the books say. -/
theorem Vault.shows (h : c.Vault v t) (hUnit : c.kind? t = some .stable) :
    c.Shows v (c.balance t v) (c.supply v) := by
  obtain ⟨y, hy, hAsset⟩ := h.contract
  have hHeld : ShareToken.totalAssets v c = .ok (c.balance t v) := by
    refine View.bind_eq_ok.2 ⟨_, View.contract_eq_ok.2 hy, ?_⟩
    exact (Yield.totalAssets_eq hy hAsset).trans (Token.balanceOf_stable hUnit v)
  refine ⟨fun caller => congrArg (Answer.amount <$> ·) hHeld, fun caller => ?_⟩
  rw [Yield.supply_eq hy]
  exact ask_totalSupply (books?_of_contract? hy) caller

end Chain

namespace Action

variable {c c' : Chain} {action : Action}

/-- What an account does with a chain is a call, or has a contract appear, or is nothing. -/
theorem calls_or_gains (h : action.run c = .ok c') :
    (∃ user target command out, action = .call user target command ∧
      c.submit (.account user) target command = .ok out ∧ c' = out.chain) ∨
    (∃ a x, c.Gains a x c') ∨ c' = c.skip := by
  cases action with
  | call user target command =>
    obtain ⟨out, hCall, ⟨⟩⟩ := Result.bind_eq_ok.1 h
    exact .inl ⟨user, target, command, out, rfl, hCall, rfl⟩
  | deploy =>
    obtain ⟨x, hGains⟩ := gains_of_deploy h
    exact .inr (.inl ⟨_, x, hGains⟩)
  | deployBlank => exact .inr (.inl ⟨_, _, gains_of_deployBlank h⟩)
  | placeRegistry | placeLedger => exact .inr (.inl ⟨_, _, gains_of_place (by simp) h⟩)
  | skip => exact .inr (.inr (Except.ok.inj h).symm)

/-- An action is a rebalance that takes these shares of the pool at `p` out. -/
def Pulls (c : Chain) (p : Address) (shares : Amount) : Action → Prop
  | call _ target command => c.Pulls target p shares command
  | _ => False

end Action

namespace Run

variable {Kept : Chain → Prop} {c c' : Chain} {x v t target : Address} {user : Digest}
  {command : Command} {out : Outcome} {action : Action}

theorem submit_sways (hRun : Run Address.IsAccount Kept c) (hHolds : c.Holds x t)
    (hMoves : command.movesValue = true)
    (hCall : c.submit (.account user) target command = .ok out) :
    Sways x t target command c out.chain := by
  obtain ⟨k, -, hKind⟩ := hHolds.pool
  have hUser : Address.account user ≠ x := hRun.ne_of_stands ⟨user, rfl⟩ (by simp [hKind])
  exact of_submit (Q := fun _ u => Sways x t target command c u.chain)
    (Command.after_run_sways (Router.feeds_nested _) hUser hHolds hRun.listed hRun.sealed hMoves)
    hCall

/-- Whatever accounts do leaves the shares of a vault worth no less, unless it takes all of them
out. -/
theorem lifts (hRun : Run Address.IsAccount Kept c) (hVault : c.Vault v t) (hBuilt : v ∉ c.blank)
    (hAction : action.run c = .ok c') (hNot : ¬action.Pulls c v (c.supply v))
    (hSome : c.supply v ≠ 0) (hStill : c'.supply v ≠ 0) : Lifts v t c c' := by
  have hCovers := hRun.covers hVault hBuilt
  have hHolds := hRun.holds_of_vault hVault
  rcases Action.calls_or_gains hAction with hCalled | ⟨a, z, hGains⟩ | rfl
  · obtain ⟨user, target, command, out, rfl, hCall, rfl⟩ := hCalled
    cases hMoves : command.movesValue with
    | true =>
      exact (hRun.submit_sways hHolds hMoves hCall).lifts hVault hCovers hNot hSome hStill
    | false =>
      have hUser : Address.account user ≠ v :=
        hRun.ne_of_stands ⟨user, rfl⟩ (by simp [hVault.kind])
      exact ((submit_amends hMoves hCall).undiminished hUser hBuilt hHolds).lifts
  · exact (hGains.undiminished hHolds).lifts
  · exact Undiminished.lifts (.of_books rfl rfl)

/-- In every run of accounts, a yield vault over a stable token that has shares out holds
something. What it holds per share never falls from one step to the next while there are shares,
unless the step is a rebalance that takes all shares of the vault out. -/
theorem rate_never_falls (hRun : Run Address.IsAccount (fun _ => True) c) {y : Yield.Vault}
    (hy : c.contract? v = some (.yieldVault y)) (hAsset : y.asset = some t)
    (hUnit : c.kind? t = some .stable) (hBuilt : v ∉ c.blank) :
    ∃ held issued, c.Shows v held issued ∧ (0 < issued → 0 < held) ∧
      ∀ (action : Action) (c' : Chain), action.run c = .ok c' → ¬action.Pulls c v issued →
        ∃ held' issued', c'.Shows v held' issued' ∧
          (0 < issued → 0 < issued' → held * issued' ≤ held' * issued) := by
  have hVault : c.Vault v t := by
    refine ⟨?_, .inr hUnit⟩
    rw [Chain.terms?, hy]
    simp [Contract.terms, hAsset]
  refine ⟨_, _, hVault.shows hUnit,
    fun hSome => Nat.lt_of_lt_of_le hSome (hRun.covers hVault hBuilt).enough,
    fun action c' hAction hNot => ?_⟩
  obtain ⟨d, hLeads⟩ := Action.leads hAction
  have hUnit' : c'.kind? t = some .stable := hLeads.advances.kind? hUnit
  have hStands : c.kind? v ≠ none := by simp [kind?_of_contract? hy]
  have hVault' : c'.Vault v t := ⟨(hLeads.terms? hBuilt hStands).trans hVault.terms, .inr hUnit'⟩
  refine ⟨_, _, hVault'.shows hUnit', fun hSome hStill => ?_⟩
  exact hRun.lifts hVault hBuilt hAction hNot (Nat.ne_of_gt hSome) (Nat.ne_of_gt hStill)

end Run

/-- Whether the yield vault at `v` over the stable token at `t` was constructed when it was
deployed, holds this much and has issued this many shares. -/
def Chain.showsVault (c : Chain) (v t : Address) (held issued : Amount) : Bool :=
  decide (c.terms? v = some (.yieldVault, [some t]) ∧ c.kind? t = some .stable ∧ v ∉ c.blank) &&
    c.balance t v == held && c.supply v == issued

theorem Chain.of_showsVault {c : Chain} {v t : Address} {held issued : Amount}
    (h : c.showsVault v t held issued = true) :
    (∃ y, c.contract? v = some (.yieldVault y) ∧ y.asset = some t) ∧ c.kind? t = some .stable ∧
      v ∉ c.blank ∧ c.Shows v held issued := by
  simp only [showsVault, Bool.and_eq_true, decide_eq_true_eq, beq_iff_eq] at h
  obtain ⟨⟨⟨hTerms, hUnit, hBuilt⟩, rfl⟩, rfl⟩ := h
  have hVault : c.Vault v t := ⟨hTerms, .inr hUnit⟩
  exact ⟨hVault.contract, hUnit, hBuilt, hVault.shows hUnit⟩

/-- A treasury moves value between a yield vault and a pool that calls a second router back. That
router has idle stable, and puts it into the same vault. -/
def Standard.crossed : List Action :=
  opening 0 { admin := .account 0 } ++
    [.deploy 0 (.yieldVault (.account 0) stable),
      .deploy 0 (.wrapped (.account 0) stable custody pool),
      .deploy 0 (.synthetic (.account 0) stable custody),
      .call 0 router (.router (.registerAdapter pool (.ofNumber 6))),
      .call 0 router (.router (.addPool pool 500_000)),
      .call 0 router (.router (.registerAdapter (.ofNumber 7) (.ofNumber 7))),
      .call 0 router (.router (.addPool (.ofNumber 7) 500_000)),
      .deploy 0 (.custody (.account 0) 10 1_000),
      .deploy 0 (.router { Parameters.setup { admin := .account 0 } with custody := .ofNumber 8 }),
      .deploy 0 (.wrapped (.account 0) stable (.ofNumber 8) pool),
      .call 0 (.ofNumber 8) (.custody (.setRouter (.ofNumber 9))),
      .call 0 (.ofNumber 9) (.router (.registerAdapter pool (.ofNumber 10))),
      .call 0 (.ofNumber 9) (.router (.addPool pool weightScale)),
      .call 0 (.ofNumber 9) (.router (.setDefaultPool (some pool))),
      .call 0 (.ofNumber 7) (.strategy (.turn (.callbackTarget (some (.ofNumber 9))))),
      .call 0 stable (.stable (.mint (.account 1) 100)),
      .call 1 stable (.token (.approve pool 100)),
      .call 1 pool (.yieldVault (.deposit 100 custody)),
      .call 0 stable (.stable (.mint pool 50)),
      .call 0 stable (.stable (.mint (.ofNumber 9) 30))]

/-- The operator of such a treasury has it take these shares out of the vault. -/
def Standard.pulled (shares : Amount) : Action :=
  .call 0 router (.router (.rebalanceByShares pool (.ofNumber 7) shares 0))

/-- What is found out about a rebalance by making it is what becomes of the vault in a run. -/
theorem Run.exists_pulled {shares held issued : Amount}
    (h : ((Action.follow (fun _ _ => true) {} Standard.crossed).any fun c =>
      c.showsVault Standard.pool Standard.stable 150 100 &&
        ((Standard.pulled shares).run c).toOption.any fun c' =>
          c'.showsVault Standard.pool Standard.stable held issued) = true) :
    ∃ (c c' : Chain) (y : Yield.Vault), Run Address.IsAccount (fun _ => True) c ∧
      c.contract? Standard.pool = some (.yieldVault y) ∧ y.asset = some Standard.stable ∧
      c.kind? Standard.stable = some .stable ∧ Standard.pool ∉ c.blank ∧
      c.Shows Standard.pool 150 100 ∧ (Standard.pulled shares).run c = .ok c' ∧
      c'.Shows Standard.pool held issued := by
  obtain ⟨c, hCourse, hHolds⟩ :=
    @Action.exists_course (fun _ _ _ => True) _ _ _ (fun _ _ _ _ => trivial) h
  obtain ⟨hBefore, hAfter⟩ := Bool.and_eq_true_iff.1 hHolds
  obtain ⟨c', hAction, hThen⟩ := (Option.any_eq_true _ _).1 hAfter
  obtain ⟨⟨y, hy, hAsset⟩, hUnit, hBuilt, hShows⟩ := of_showsVault hBefore
  obtain ⟨-, -, -, hShows'⟩ := of_showsVault hThen
  exact ⟨c, c', y, hCourse.run, hy, hAsset, hUnit, hBuilt, hShows, Result.of_toOption hAction,
    hShows'⟩

/-- A rebalance takes 60 of the 100 shares of a vault that holds 150 out, and another router
deposits 30 in the middle of it. -/
theorem Run.rate_never_falls_refilled : ∃ (c c' : Chain) (y : Yield.Vault),
    Run Address.IsAccount (fun _ => True) c ∧
      c.contract? Standard.pool = some (.yieldVault y) ∧ y.asset = some Standard.stable ∧
      c.kind? Standard.stable = some .stable ∧ Standard.pool ∉ c.blank ∧
      c.Shows Standard.pool 150 100 ∧ (Standard.pulled 60).run c = .ok c' ∧
      ¬(Standard.pulled 60).Pulls c Standard.pool 100 ∧ c'.Shows Standard.pool 90 60 ∧
      150 * 60 ≤ 90 * 100 := by
  obtain ⟨c, c', y, hRun, hy, hAsset, hUnit, hBuilt, hShows, hAction, hShows'⟩ :=
    @Run.exists_pulled 60 90 60 (by decide +kernel)
  obtain ⟨held, issued, hIs, -, hSteps⟩ := hRun.rate_never_falls hy hAsset hUnit hBuilt
  obtain ⟨rfl, rfl⟩ := hIs.unique hShows
  have hNot : ¬(Standard.pulled 60).Pulls c Standard.pool 100 := by
    rintro ⟨⟩
  obtain ⟨held, issued, hIs', hRate⟩ := hSteps _ _ hAction hNot
  obtain ⟨rfl, rfl⟩ := hIs'.unique hShows'
  exact ⟨c, c', y, hRun, hy, hAsset, hUnit, hBuilt, hShows, hAction, hNot, hShows',
    hRate (by decide) (by decide)⟩

/-- A rebalance takes all shares of a vault out, 100 that are worth 150. In the middle of it another
router deposits 30 and gets 30 shares, so that a share is worth less than before. -/
theorem Run.rate_restarted : ∃ (c c' : Chain) (y : Yield.Vault),
    Run Address.IsAccount (fun _ => True) c ∧
      c.contract? Standard.pool = some (.yieldVault y) ∧ y.asset = some Standard.stable ∧
      c.kind? Standard.stable = some .stable ∧ Standard.pool ∉ c.blank ∧
      c.Shows Standard.pool 150 100 ∧ (Standard.pulled 100).run c = .ok c' ∧
      c'.Shows Standard.pool 30 30 ∧ ¬150 * 30 ≤ 30 * 100 := by
  obtain ⟨c, c', y, hRun, hy, hAsset, hUnit, hBuilt, hShows, hAction, hShows'⟩ :=
    @Run.exists_pulled 100 30 30 (by decide +kernel)
  exact ⟨c, c', y, hRun, hy, hAsset, hUnit, hBuilt, hShows, hAction, hShows', by decide⟩

end Treasury
