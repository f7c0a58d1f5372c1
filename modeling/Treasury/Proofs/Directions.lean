import Treasury.Proofs.Holdings
import Treasury.Proofs.Listings
import Treasury.Proofs.RebalanceValue

/-! Which way a call takes a pool. Whatever is deposited, through whichever contracts and with
whatever comes back to a router in the middle of it, a pool only issues shares by it; and whatever
is withdrawn, it only takes shares back. A rebalance does one after the other. -/
namespace Treasury

open Exec Chain

namespace Chain

variable {c c' : Chain} {x t a caller : Address} {n shares : Amount}

theorem Lodges.turns (h : c.Lodges a caller n c') (hHolds : c.Holds x t) :
    Turns x t True False c c' := by
  cases h with
  | own hPrice hMove hMint => exact .of_joined hHolds trivial hPrice hMove hMint
  | passed hKind hMove hAllow hPrice hHand hMint hEnd =>
    refine (Turns.moved hHolds hMove (by simp) (by simp)).andThen hHolds fun hHolds₁ => ?_
    have hNe := hHolds.ne_of_lender (.inr hKind)
    exact .lent hHolds₁ hNe hAllow
      (fun hHolds₂ => .of_joined hHolds₂ trivial hPrice hHand hMint) hEnd

theorem Cashes.turns (h : c.Cashes a caller shares c') (hHolds : c.Holds x t) :
    Turns x t False True c c' := by
  cases h with
  | own hPrice hTake hMove =>
    exact .of_left hHolds trivial hPrice (.adapter (acts_user c caller)) hTake hMove
  | passed hKind hGive hPrice hTake hMove =>
    refine (Turns.moved hHolds hGive (by simp) (by simp)).andThen hHolds fun hHolds₁ => ?_
    exact .of_left hHolds₁ trivial hPrice (.vault (.inl rfl)) hTake hMove

/-- The shares that a caller hands in are shares of one pool, which the adapter was allowed to take.
-/
theorem Cashes.supply (h : c.Cashes a caller shares c') :
    ∃ p, c.kind? p ≠ some .ledger ∧ shares ≤ c.allowance p caller a ∧
      ∀ y, c'.supply y + (if y = p then shares else 0) = c.supply y := by
  cases h with
  | @own _ _ c₁ hPrice hTake hMove =>
    refine ⟨a, ?_, ?_, fun y => ?_⟩
    · obtain ⟨k, hIn, hk⟩ := hTake.kind
      intro hLedger
      obtain rfl := Option.some.inj (hk.symm.trans hLedger)
      simp at hIn
    · obtain ⟨l, l', hl, hTaken, -⟩ := hTake.spec
      have hSpent := (Token.Ledger.takeShares_spec hTaken).2.1 caller a
      simp only [and_self, if_true] at hSpent
      rw [allowance, hl]
      exact Nat.le_of_add_left_le (Nat.le_of_eq hSpent)
    · have hTakes : c.Takes caller a shares (Strategy.takeShares a caller shares) :=
        .adapter (acts_user c caller)
      rw [hMove.supply]
      split
      · next hAt => exact hAt ▸ hTake.supply_takes hTakes
      · next hNe => exact hTake.supply_frame hNe
  | @passed p _ _ c₁ c₂ hKind hGive hPrice hTake hMove =>
    refine ⟨p, hGive.kind_ne, ?_, fun y => ?_⟩
    · have hSpent := hGive.allowance_transferFrom p caller a
      simp only [and_self, if_true] at hSpent
      exact Nat.le_of_add_left_le (Nat.le_of_eq hSpent)
    · have hTakes : c₁.Takes a p shares (·.burnFrom a a shares) := .vault (.inl rfl)
      rw [hMove.supply, ← hGive.supply]
      split
      · next hAt => exact hAt ▸ hTake.supply_takes hTakes
      · next hNe => exact hTake.supply_frame hNe

end Chain

section Adapters

variable {x t self caller receiver owner : Address} {w : World} {n shares : Amount}
  {back : Router.Callback} {locked : List Address}

namespace Token

variable {token giver taker spender : Address}

theorem after_transfer_turns (joins leaves : Prop) (h : w.chain.Holds x t) (hNe : giver ≠ x) :
    After (transfer giver token taker n) w fun _ v => Turns x t joins leaves w.chain v.chain := by
  refine after_transfer.mono fun _ v hMove => .moved h hMove ?_ (by simp)
  rintro _ _ _ ⟨⟩
  exact hNe

theorem after_approve_turns (joins leaves : Prop) (h : w.chain.Holds x t) (hNe : giver ≠ x) :
    After (approve giver token spender n) w fun _ v => Turns x t joins leaves w.chain v.chain := by
  refine after_approve.mono fun _ v hMove => .moved h hMove (by simp) ?_
  rintro _ _ _ ⟨⟩
  exact hNe

theorem after_transferFrom_turns (joins leaves : Prop) (h : w.chain.Holds x t) :
    After (transferFrom spender token owner taker n) w fun _ v =>
      Turns x t joins leaves w.chain v.chain :=
  after_transferFrom.mono fun _ _ hMove => .moved h hMove (by simp) (by simp)

end Token

namespace Yield

theorem after_deposit_turns (h : w.chain.Holds x t) :
    After (deposit self caller n receiver) w fun _ v => Turns x t True False w.chain v.chain := by
  refine after_deposit_moves.mono ?_
  rintro m v ⟨y, b, c, hy, hAsset, -, hShares, hMove, hMint⟩
  exact .of_joined h trivial (.yieldVault hy hAsset hShares) hMove hMint

theorem after_redeem_turns (h : w.chain.Holds x t) :
    After (redeem self caller shares receiver owner) w fun _ v =>
      Turns x t False True w.chain v.chain := by
  refine after_redeem_moves.mono ?_
  rintro paid v ⟨y, b, c, hy, hAsset, hPaid, hTake, hMove⟩
  exact .of_left h trivial (.yieldVault hy hAsset hPaid) (.vault (.inl rfl)) hTake hMove

theorem after_accrueYield_turns (joins leaves : Prop) (h : w.chain.Holds x t) :
    After (accrueYield self caller n) w fun _ v => Turns x t joins leaves w.chain v.chain := by
  simp only [accrueYield, after_entering, after_bind, after_view, after_result,
    View.callee_eq_ok, ensure_eq_ok, forall_const, known_eq_ok]
  intro y _ _ b _
  exact Token.after_transferFrom_turns joins leaves h

end Yield

/-- What comes back to a router in the middle of a deposit has a pool issue shares, and take none
back. -/
def Router.Feeds (x t : Address) (back : Router.Callback) : Prop :=
  ∀ f w, w.chain.Holds x t → ∀ command ∈ [Router.Command.pause, .reinvestFees],
    After (back f command) w fun _ v => Turns x t True False w.chain v.chain

namespace Strategy

theorem after_deposit_turns {adapter : Address} (hBack : Router.Feeds x t back)
    (h : w.chain.Holds x t) : After (Strategy.deposit back locked adapter caller n) w fun _ v =>
      Turns x t True False w.chain v.chain := by
  have hCall : ∀ s u, u.chain = w.chain → w.chain.contract? adapter = some (.synthetic s) →
      After (s.callBack back locked adapter) u fun _ v =>
        Turns x t True False w.chain v.chain := by
    intro s u hSame _
    rw [← hSame] at h ⊢
    unfold Synthetic.callBack
    split
    · exact after_pure.2 (.refl _)
    · apply hBack _ u h
      split <;> simp
  refine After.mono (after_deposit_lodges (.refl _) hCall) ?_
  rintro _ v ⟨c, hCalled, hLodges⟩
  exact hCalled.andThen h hLodges.turns

theorem after_withdraw_turns {adapter : Address} (h : w.chain.Holds x t) :
    After (Strategy.withdraw adapter caller shares) w fun _ v =>
      Turns x t False True w.chain v.chain :=
  after_withdraw_cashes.mono fun _ _ hCashes => hCashes.turns h

theorem FixedRate.after_fund_turns (joins leaves : Prop) (h : w.chain.Holds x t) :
    After (FixedRate.fund self caller n) w fun _ v =>
      Turns x t joins leaves w.chain v.chain := by
  simp only [FixedRate.fund, after_entering, after_bind, after_view, after_result,
    View.callee_eq_ok, ensure_eq_ok, forall_const, known_eq_ok]
  intro s _ _ b _
  exact Token.after_transferFrom_turns joins leaves h

end Strategy

theorem Custody.after_transferShares_turns {pool recipient : Address} (joins leaves : Prop)
    (h : w.chain.Holds x t) :
    After (Custody.transferShares self caller pool n recipient) w fun _ v =>
      Turns x t joins leaves w.chain v.chain := by
  refine Custody.after_transferShares.mono ?_
  rintro _ v ⟨⟨q, hq, -⟩, hMove⟩
  refine .moved h hMove ?_ (by simp)
  rintro _ _ _ ⟨⟩
  exact h.ne_of_lender (.inl (.inr (kind?_of_contract? hq)))

end Adapters

section Pools

variable {x t user : Address} {w : World} {n shares : Amount}
  {back : Router.Callback} {f : Router.Frame} {config : Pool.Config}

namespace Router

/-- A router is not the pool. -/
theorem ne_of_holds {s : State} (hs : w.chain.contract? f.self = some (.router s))
    (h : w.chain.Holds x t) : f.self ≠ x :=
  h.ne_of_lender (.inl (desk_of_router hs))

theorem after_depositIntoPool_turns (hBack : Feeds x t back) (h : w.chain.Holds x t) :
    After (depositIntoPool back f config n) w fun _ v =>
      Turns x t True False w.chain v.chain := by
  refine (after_depositIntoPool_invests (R := Turns x t True False) ?_).mono ?_
  · intro s stable u hs hAllow
    have hAllowed : Turns x t True False w.chain u.chain :=
      .moved h hAllow (by simp) (by rintro _ _ _ ⟨⟩; exact ne_of_holds hs h)
    exact Strategy.after_deposit_turns hBack (hAllowed.holds h)
  · rintro _ v ⟨hs, hAllow, hTurns, hEnd⟩
    exact .lent h (ne_of_holds hs h) hAllow (fun _ => hTurns) hEnd

end Router

namespace Chain.Redeems

variable {c c' : Chain} {r : Address}

theorem turns (h : c.Redeems r config shares c') (hHolds : c.Holds x t) :
    Turns x t False True c c' := by
  obtain @⟨_, _, _, c₁, _, _, hs, hq, hGive, hAllow, hCashes, hEnd⟩ := h
  have hNe := hHolds.ne_of_lender (.inl (Router.desk_of_router hs))
  have hGiven : Turns x t False True c c₁ := by
    refine .moved hHolds hGive ?_ (by simp)
    rintro _ _ _ ⟨⟩
    exact hHolds.ne_of_lender (.inl (.inr (kind?_of_contract? hq)))
  exact hGiven.andThen hHolds fun hHolds₁ => .lent hHolds₁ hNe hAllow hCashes.turns hEnd

/-- What a router hands in are shares of the pool that it names, if contracts allow nobody anything
else. -/
theorem supply (h : c.Redeems r config shares c') (hSealed : c.Sealed) (y : Address) :
    c'.supply y + (if y = config.pool then shares else 0) = c.supply y := by
  obtain ⟨hs, hq, hGive, hAllow, hCashes, hEnd⟩ := h
  obtain ⟨p, hKind, hAllowed, hSupply⟩ := hCashes.supply
  rw [hEnd.supply, ← hGive.supply, ← hAllow.supply, ← hSupply y]
  by_cases hPool : p = config.pool
  · rw [hPool]
  · -- Of any other pool the adapter can take no shares from the router.
    have hStands : c.kind? r ≠ none := by simp [kind?_of_contract? hs]
    rw [hAllow.alike.kind?, hGive.alike.kind?] at hKind
    rw [hAllow.allowance_approve, if_neg fun hAt => hPool hAt.1, hGive.allowance_transfer,
      hSealed _ _ _ hStands hKind] at hAllowed
    simp only [Nat.le_zero.1 hAllowed, ite_self]

end Chain.Redeems

namespace Router

theorem after_withdrawShares_turns (h : w.chain.Holds x t) :
    After (withdrawShares f config shares) w fun _ v => Turns x t False True w.chain v.chain :=
  after_withdrawShares_redeems.mono fun _ _ hRedeems => hRedeems.turns h

theorem after_withdrawValue_turns {value : Amount} (h : w.chain.Holds x t) :
    After (withdrawValue f config value) w fun _ v => Turns x t False True w.chain v.chain := by
  refine after_withdrawValue_redeems.mono ?_
  rintro _ v ⟨shares, -, hRedeems⟩
  exact hRedeems.turns h

theorem after_pullStable_turns {owner : Address} (joins leaves : Prop) (h : w.chain.Holds x t) :
    After (pullStable f owner n) w fun _ v => Turns x t joins leaves w.chain v.chain := by
  simp only [pullStable, after_bind, after_view, after_result, View.load_eq_ok, known_eq_ok]
  intro s hs stable _
  exact Token.after_transferFrom_turns joins leaves h

/-- What a router records about itself does not change the pool. -/
theorem turns_put {c : Chain} {s s' : State} {joins leaves : Prop} (h : c.Holds x t)
    (hs : c.contract? f.self = some (.router s)) :
    Turns x t joins leaves c (c.put f.self (.router s')) :=
  .put h hs rfl (by simp [Contract.kind])

theorem after_handleDeposit_turns {initiator receiver : Address} {assets shares : Amount}
    (hBack : Feeds x t back) (h : w.chain.Holds x t) :
    After (handleDeposit back f initiator assets shares receiver) w fun _ v =>
      Turns x t True False w.chain v.chain := by
  simp only [handleDeposit, after_guarded, after_bind, after_view, after_result, ensure_eq_ok,
    State.requireRunning, requireShareToken, forall_const]
  intro s hs _ _ _ _ _ _
  refine After.mono (after_pullStable_turns True False h) fun _ u hPull pools _ => ?_
  split
  · simp only [refuse, reduceCtorEq, after_result, false_implies, implies_true]
  · simp only [after_bind, after_emit]
    refine (after_depositIntoPool_turns hBack (hPull.holds h)).mono fun _ v hTurns => ?_
    exact hPull.trans hTurns

theorem after_handleWithdraw_turns {initiator receiver owner : Address} {gross expected : Amount}
    (h : w.chain.Holds x t) :
    After (handleWithdraw f initiator receiver owner gross expected) w fun _ v =>
      Turns x t False True w.chain v.chain := by
  simp only [handleWithdraw, after_guarded, after_bind, after_view, after_result, ensure_eq_ok,
    State.requireRunning, requireShareToken, forall_const]
  intro s hs _ _ _ _ split _ _ pools _ i _
  have hNe := ne_of_holds hs h
  split
  · simp only [refuse, reduceCtorEq, after_result, false_implies, implies_true]
  · simp only [after_bind, after_result, known_eq_ok, after_update, after_emit, after_pure]
    refine After.mono (after_withdrawValue_turns h) fun received u hTurns stable _ => ?_
    refine (Token.after_transfer_turns False True (hTurns.holds h) hNe).mono fun _ v hSent => ?_
    intro kept _ s' t' hs' hCollect
    exact (hTurns.trans hSent).andThen h fun hHolds => turns_put hHolds hs'

theorem after_reinvestFees_turns (hBack : Feeds x t back) (h : w.chain.Holds x t) :
    After (reinvestFees back f) w fun _ v => Turns x t True False w.chain v.chain := by
  simp only [reinvestFees, after_guarded, after_bind, after_view, after_result, ensure_eq_ok,
    State.requireRunning, forall_const]
  intro s hs _ _ idle _ _
  have hNe := ne_of_holds hs h
  split
  · simp only [refuse, reduceCtorEq, after_result, false_implies, implies_true]
  · next pool _ =>
    simp only [after_bind, after_result, ensure_eq_ok, forall_const]
    intro config _ _ incentive _ reinvested _ _
    have hRest : ∀ u : World, Turns x t True False w.chain u.chain →
        After (depositIntoPool back { f with locked := f.self :: f.locked } config reinvested) u
          fun _ v => ∀ s' t', v.chain.contract? f.self = some (.router s') →
            State.reinvest s' reinvested incentive = .ok t' →
              Turns x t True False w.chain (v.chain.put f.self (.router t')) := by
      intro u hSoFar
      refine (after_depositIntoPool_turns hBack (hSoFar.holds h)).mono ?_
      intro _ v hTurns s' t' hs' _
      exact (hSoFar.trans hTurns).andThen h fun hHolds => turns_put hHolds hs'
    split
    · simp only [after_bind, after_result, known_eq_ok, after_discard, after_update, after_emit,
        after_pure]
      intro stable _
      exact After.mono (Token.after_transfer_turns True False h hNe) fun _ u => hRest u
    · simp only [after_bind, after_discard, after_update, after_emit, after_pure]
      exact hRest _ (.refl _)

theorem after_pause_turns (joins leaves : Prop) (h : w.chain.Holds x t) :
    After (pause f) w fun _ v => Turns x t joins leaves w.chain v.chain := by
  simp only [pause, Roles.requireRoleOrAdmin, after_guarded, after_bind, after_result,
    ensure_eq_ok, forall_const, store, after_put, after_emit]
  exact fun s hs _ _ _ _ => turns_put h hs

/-- Calls that come back to a router only feed pools, at whatever depth. -/
theorem feeds_nested (depth : Nat) : Feeds x t (nested depth) := by
  induction depth with
  | zero => exact fun _ _ _ _ _ => after_throw.2 trivial
  | succ depth ih =>
    intro f w h command hCommand
    simp only [List.mem_cons, List.not_mem_nil, or_false] at hCommand
    simp only [nested, after_discard]
    rcases hCommand with rfl | rfl
    · exact After.answered (after_pause_turns True False h)
    · exact After.answered (after_reinvestFees_turns ih h)

end Router

namespace ShareToken

variable {self caller receiver owner : Address}

theorem after_mintFor_turns (joins leaves : Prop) (h : w.chain.Holds x t) :
    After (mintFor self caller receiver shares) w fun _ v =>
      Turns x t joins leaves w.chain v.chain := by
  refine after_mintFor_moves.mono ?_
  rintro _ v ⟨s, l, hOld, -, -, hv⟩
  rw [hv]
  exact .put h hOld rfl (by simp [Contract.kind])

theorem after_burnFor_turns {initiator : Address} (joins leaves : Prop)
    (h : w.chain.Holds x t) :
    After (burnFor self caller initiator owner shares) w fun _ v =>
      Turns x t joins leaves w.chain v.chain := by
  refine after_burnFor.mono ?_
  rintro _ v ⟨s, s', hOld, -, -, -, hv⟩
  rw [hv]
  exact .put h hOld rfl (by simp [Contract.kind])

theorem after_deposit_turns (hBack : Router.Feeds x t back) (h : w.chain.Holds x t) :
    After (ShareToken.deposit back self caller n receiver) w fun _ v =>
      Turns x t True False w.chain v.chain := by
  simp only [ShareToken.deposit, after_entering, after_bind, after_view, after_result,
    View.callee_eq_ok, ensure_eq_ok, forall_const, known_eq_ok, after_update, after_pure]
  intro s _ _ shares _ _ router _
  refine After.mono (Router.after_handleDeposit_turns hBack h) fun _ u hTurns => ?_
  intro s' s'' hOld _
  exact hTurns.andThen h fun hHolds => .put hHolds hOld rfl (by simp [Contract.kind])

theorem after_redeem_turns (h : w.chain.Holds x t) :
    After (ShareToken.redeem self caller shares receiver owner) w fun _ v =>
      Turns x t False True w.chain v.chain := by
  simp only [ShareToken.redeem, after_entering, after_bind, after_view, after_result,
    View.callee_eq_ok, ensure_eq_ok, forall_const, known_eq_ok, after_update, after_pure]
  intro s _ _ gross _ _ s' s'' hOld _ router _ expected _
  have hRetired : Turns x t False True w.chain (w.chain.put self (.share s'')) :=
    .put h hOld rfl (by simp [Contract.kind])
  refine (Router.after_handleWithdraw_turns (hRetired.holds h)).mono fun _ v hTurns => ?_
  exact hRetired.trans hTurns

end ShareToken

namespace Router

theorem after_solverDeposit_turns {s : State} {purchases : List Purchase} {minShares : Amount}
    {receiver : Address} (hBack : Feeds x t back) (h : w.chain.Holds x t) :
    After (solverDeposit back f s purchases minShares receiver) w fun _ v =>
      Turns x t True False w.chain v.chain := by
  simp only [solverDeposit, after_bind, after_view, after_result, ensure_eq_ok, forall_const,
    known_eq_ok, after_emit, after_pure]
  intro total _ _ _ _ token _ shares _ _ _
  refine (after_pullStable_turns True False h).mono fun _ u hPull => ?_
  have hLoop : After (purchases.forM (purchase back f)) u fun _ v =>
      Turns x t True False w.chain v.chain := by
    refine after_forM (I := fun v => Turns x t True False w.chain v.chain) purchases ?_ hPull
    intro p _ v hSoFar
    simp only [purchase, after_bind, after_result, ensure_eq_ok]
    refine (after_depositIntoPool_turns hBack (hSoFar.holds h)).mono fun _ x hTurns _ _ => ?_
    exact hSoFar.trans hTurns
  refine hLoop.mono fun _ v hSoFar => ?_
  exact (ShareToken.after_mintFor_turns True False (hSoFar.holds h)).mono fun _ _ => hSoFar.trans

theorem after_solverDepositByAssets_turns {legs : List Pool.Leg} {minShares : Amount}
    {receiver : Address} (hBack : Feeds x t back) (h : w.chain.Holds x t) :
    After (solverDepositByAssets back f legs minShares receiver) w fun _ v =>
      Turns x t True False w.chain v.chain := by
  simp only [solverDepositByAssets, after_guarded, State.requireRunning,
    Roles.requireRole, after_bind, after_result, ensure_eq_ok, forall_const]
  intro s hs _ _ _ parts _
  exact after_solverDeposit_turns hBack h

theorem after_solverDepositByShares_turns {legs : List Pool.Leg} {minShares : Amount}
    {receiver : Address} (hBack : Feeds x t back) (h : w.chain.Holds x t) :
    After (solverDepositByShares back f legs minShares receiver) w fun _ v =>
      Turns x t True False w.chain v.chain := by
  simp only [solverDepositByShares, after_guarded, State.requireRunning,
    Roles.requireRole, after_bind, after_view, after_result, ensure_eq_ok, forall_const]
  intro s hs _ _ _ parts _ purchases _
  exact after_solverDeposit_turns hBack h

/-- What each withdrawal of a fold takes back, the whole takes back. -/
theorem after_withdrawals_turns {parts : List Part} {withdraw : Part → Exec Amount}
    (h : w.chain.Holds x t)
    (hWithdraw : ∀ part u, u.chain.Holds x t →
      After (withdraw part) u fun _ v => Turns x t False True u.chain v.chain) :
    After (parts.foldlM (fun received part => do Amount.add received (← withdraw part)) 0) w
      fun _ v => Turns x t False True w.chain v.chain := by
  refine after_foldlM (I := fun v => Turns x t False True w.chain v.chain) parts ?_ 0 (.refl _)
  intro part _ received u hSoFar
  simp only [after_bind, after_result]
  exact (hWithdraw part u (hSoFar.holds h)).mono fun _ v hTurns _ _ => hSoFar.trans hTurns

theorem after_settleWithdrawal_turns {s : State} {token receiver owner : Address}
    {split : Fee.Split} {kept shares : Amount} {legs : Nat} (joins leaves : Prop) (hNe : f.self ≠ x)
    (h : w.chain.Holds x t) :
    After (settleWithdrawal f s token receiver owner split kept shares legs) w fun _ v =>
      Turns x t joins leaves w.chain v.chain := by
  simp only [settleWithdrawal, after_bind, after_result, known_eq_ok, after_update, after_emit]
  intro stable _
  refine (Token.after_transfer_turns joins leaves h hNe).mono fun _ u hSent => ?_
  refine (ShareToken.after_burnFor_turns joins leaves (hSent.holds h)).mono fun _ v hBurned => ?_
  intro s' s'' hs' _
  exact (hSent.trans hBurned).andThen h fun hHolds => turns_put hHolds hs'

theorem after_solverWithdrawByAssets_turns {legs : List Pool.Leg} {maxShares : Amount}
    {receiver owner : Address} (h : w.chain.Holds x t) :
    After (solverWithdrawByAssets f legs maxShares receiver owner) w fun _ v =>
      Turns x t False True w.chain v.chain := by
  simp only [solverWithdrawByAssets, after_guarded, State.requireRunning,
    Roles.requireRole, after_bind, after_view, after_result,
    ensure_eq_ok, forall_const, known_eq_ok, after_pure]
  intro s hs _ _ _ parts _ gross _ token _ shares _ _
  have hNe := ne_of_holds hs h
  refine After.mono (after_withdrawals_turns h fun part u hHolds =>
    after_withdrawValue_turns hHolds) fun received u hTurns => ?_
  intro split _ kept _
  exact After.mono (after_settleWithdrawal_turns False True hNe (hTurns.holds h))
    fun _ _ => hTurns.trans

theorem after_solverWithdrawByShares_turns {legs : List Pool.Leg} {maxShares : Amount}
    {receiver owner : Address} (h : w.chain.Holds x t) :
    After (solverWithdrawByShares f legs maxShares receiver owner) w fun _ v =>
      Turns x t False True w.chain v.chain := by
  simp only [solverWithdrawByShares, after_guarded, State.requireRunning,
    Roles.requireRole, after_bind, after_view, after_result,
    after_foldlM_view, ensure_eq_ok, forall_const, known_eq_ok, after_pure]
  intro s hs _ _ _ parts _ gross _ _ split _ token _ shares _ _ netByShares _ _
  have hNe := ne_of_holds hs h
  refine After.mono (after_withdrawals_turns h fun part u hHolds =>
    after_withdrawShares_turns hHolds) fun received u hTurns => ?_
  intro surplus _ fee _
  exact After.mono (after_settleWithdrawal_turns False True hNe (hTurns.holds h))
    fun _ _ => hTurns.trans

/-- An operator who brings the stable along only has a pool issue shares. -/
theorem after_rebalanceExternally_turns {giver taker : Address} {minResult : Amount}
    (hBack : Feeds x t back) (h : w.chain.Holds x t) :
    After (rebalanceExternally back f giver taker n minResult) w fun _ v =>
      Turns x t True False w.chain v.chain := by
  simp only [rebalanceExternally, after_guarded, State.requireRunning, Roles.requireRoleOrAdmin,
    after_bind, after_result, ensure_eq_ok, forall_const]
  intro s _ _ _ _ pair _ _
  split
  · exact after_pure.2 (.refl _)
  · simp only [after_bind, after_view, after_result, known_eq_ok]
    refine After.mono (after_pullStable_turns True False h) fun _ u₁ hPull => ?_
    refine (after_depositIntoPool_turns hBack (hPull.holds h)).mono fun minted u₂ hTurns => ?_
    intro deposited _ _ _ custody _ released _
    have hSoFar := hPull.trans hTurns
    split
    · simp only [after_bind, after_emit, after_pure]
      exact (Custody.after_transferShares_turns True False (hSoFar.holds h)).mono
        fun _ _ => hSoFar.trans
    · simp only [after_bind, after_emit, after_pure]
      exact hSoFar

end Router

end Pools

/-- A call of the contract at `r` is a rebalance that takes these shares from the pool at `p`. -/
inductive Chain.Pulls (c : Chain) (r p : Address) (shares : Amount) : Command → Prop where
  | byShares {taker : Address} {minResult : Amount} :
      Pulls c r p shares (.router (.rebalanceByShares p taker shares minResult))
  | byValue {s : Router.State} {config : Pool.Config} {taker : Address} {value minResult : Amount}
      (hs : c.contract? r = some (.router s)) (hConfig : s.registry.require p = .ok config)
      (hQuote : Strategy.previewShares config.adapter value c = .ok shares) :
      Pulls c r p shares (.router (.rebalanceByValue p taker value minResult))

/-- What a call of the contract at `r` does to a pool. It takes the pool one way, or it is a
rebalance: then it first takes shares of one pool back, and after that pools only issue shares. -/
inductive Chain.Sways (x t r : Address) (command : Command) (c : Chain) : Chain → Prop where
  | joined {c' : Chain} (h : Turns x t True False c c') : Sways x t r command c c'
  | left {c' : Chain} (h : Turns x t False True c c') : Sways x t r command c c'
  | rebalanced {c₁ c' : Chain} {p : Address} {shares : Amount} (hPulls : c.Pulls r p shares command)
      (hLeft : Turns x t False True c c₁)
      (hSupply : c₁.supply x + (if x = p then shares else 0) = c.supply x)
      (hJoined : Turns x t True False c₁ c') : Sways x t r command c c'

namespace Exec.After

variable {α : Type} {x t r : Address} {command : Command} {w : World} {m : Exec α}

theorem joined (h : After m w fun _ v => Turns x t True False w.chain v.chain) :
    After m w fun _ v => Sways x t r command w.chain v.chain :=
  h.mono fun _ _ => .joined

theorem left (h : After m w fun _ v => Turns x t False True w.chain v.chain) :
    After m w fun _ v => Sways x t r command w.chain v.chain :=
  h.mono fun _ _ => .left

end Exec.After

section Rebalance

variable {x t giver taker : Address} {w : World} {back : Router.Callback} {f : Router.Frame}
  {s : Router.State} {pair : Router.Pair} {shares value pulled minResult : Amount}

namespace Router

theorem after_redeposit_turns (hBack : Feeds x t back) (h : w.chain.Holds x t) :
    After (redeposit back f s pair pulled minResult) w fun _ v =>
      Turns x t True False w.chain v.chain := by
  simp only [redeposit, after_bind, after_view, after_result, after_emit, after_pure]
  exact (after_depositIntoPool_turns hBack h).mono fun _ u hTurns _ _ _ _ => hTurns

section

variable (hBack : Feeds x t back) (h : w.chain.Holds x t) (hListed : w.chain.Listed)
  (hSealed : w.chain.Sealed)

include hBack h hListed hSealed

theorem after_rebalanceByShares_sways :
    After (rebalanceByShares back f giver taker shares minResult) w fun _ v =>
      Sways x t f.self (.router (.rebalanceByShares giver taker shares minResult)) w.chain
        v.chain := by
  simp only [rebalanceByShares, after_guarded, State.requireRunning, Roles.requireRoleOrAdmin,
    after_bind, after_view, after_result, ensure_eq_ok, forall_const]
  intro s hs _ _ _ pair hPair _ value _
  obtain ⟨⟨hGiver, -⟩, -⟩ := pairOf_spec (hListed _ _ hs).sound hPair
  split
  · exact after_pure.2 (.joined (.refl _))
  · refine after_bind.2 (After.mono after_withdrawShares_redeems fun pulled u hRedeems => ?_)
    have hTurns := hRedeems.turns h
    refine (after_redeposit_turns hBack (hTurns.holds h)).mono fun _ v => ?_
    exact .rebalanced .byShares hTurns (hGiver ▸ hRedeems.supply hSealed x)

theorem after_rebalanceByValue_sways :
    After (rebalanceByValue back f giver taker value minResult) w fun _ v =>
      Sways x t f.self (.router (.rebalanceByValue giver taker value minResult)) w.chain
        v.chain := by
  simp only [rebalanceByValue, after_guarded, State.requireRunning, Roles.requireRoleOrAdmin,
    after_bind, after_result, ensure_eq_ok, forall_const]
  intro s hs _ _ _ pair hPair _
  obtain ⟨⟨hGiver, -⟩, hConfig, -⟩ := pairOf_spec (hListed _ _ hs).sound hPair
  rw [← Pool.Registry.require_eq_ok, hGiver] at hConfig
  split
  · exact after_pure.2 (.joined (.refl _))
  · refine after_bind.2 (After.mono after_withdrawValue_redeems fun pulled u hDone => ?_)
    obtain ⟨shares, hQuote, hRedeems⟩ := hDone
    have hTurns := hRedeems.turns h
    refine (after_redeposit_turns hBack (hTurns.holds h)).mono fun _ v => ?_
    exact .rebalanced (.byValue hs hConfig hQuote) hTurns (hGiver ▸ hRedeems.supply hSealed x)

end

end Router

end Rebalance

end Treasury
