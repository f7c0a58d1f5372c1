import Treasury.Proofs.FlowFunds
import Treasury.Proofs.FrozenFunds
import Treasury.Proofs.PoolShares

/-! The pool shares of a router. A router has shares of a pool only while it turns them into stable:
all that it takes out of custody it hands in at once, and it accepts no deposit whose shares went
anywhere but to the custody contract. So no flow of value leaves shares with the router. -/
namespace Treasury

open Exec Chain

namespace Wiring

variable {w : Wiring} {user : Address} {f : Router.Frame} {c c₁ c' : Chain}

/-- The router owns as much as before of every token but stable and the treasury's own shares. -/
def KeepsShares (w : Wiring) (c c' : Chain) : Prop :=
  ∀ p, p ≠ w.stable → p ≠ w.share → c'.balance p w.router = c.balance p w.router

/-- A flow that leaves the router's pool shares as they are. -/
structure Clears (w : Wiring) (user : Address) (c c' : Chain) : Prop where
  keeps : w.KeepsShares c c'
  flow : Flow user c c'

/-- The router of a treasury in the middle of a call of a user of its own. -/
structure Engaged (w : Wiring) (user : Address) (f : Router.Frame) (c : Chain) : Prop where
  ready : w.Ready c
  stands : c.kind? w.router = some .router
  self : f.self = w.router
  caller : f.caller = user
  other : user ≠ w.router
  locked : w.router ∈ f.locked

theorem KeepsShares.of_books (h : ∀ t, c'.books? t = c.books? t) : w.KeepsShares c c' := by
  intro p _ _
  rw [balance, h, balance]

namespace Clears

theorem refl (w : Wiring) (user : Address) (c : Chain) : w.Clears user c c :=
  ⟨fun _ _ _ => rfl, .refl c⟩

theorem trans (h : w.Clears user c c₁) (h' : w.Clears user c₁ c') : w.Clears user c c' :=
  ⟨fun p hStable hShare => (h'.keeps p hStable hShare).trans (h.keeps p hStable hShare),
    h.flow.trans h'.flow⟩

end Clears

/-- The router goes on with its work. -/
theorem Engaged.clears (h : w.Engaged user f c) (hClears : w.Clears user c c') :
    w.Engaged user f c' :=
  { h with
    ready := h.ready.flow h.other hClears.flow
    stands := (hClears.flow.kind? _).trans h.stands }

/-- What the router records about fees is nothing that anybody owns. -/
theorem clears_recorded {s t : Router.State} (hs : c.contract? w.router = some (.router s))
    (h : Router.Records s t) : w.Clears user c (c.put w.router (.router t)) :=
  ⟨.of_books fun b => books?_put_same hs (by rfl) b, .recorded hs h⟩

end Wiring

/-- What a call is said to leave alone and the flow that it is. -/
theorem Exec.After.clears {α : Type} {w : Wiring} {user : Address} {u : World} {m : Exec α}
    (hKeeps : After m u fun _ v => w.KeepsShares u.chain v.chain)
    (hFlow : After m u fun _ v => Flow user u.chain v.chain) :
    After m u fun _ v => w.Clears user u.chain v.chain :=
  (hKeeps.and hFlow).mono fun _ _ hDone => ⟨hDone.1, hDone.2⟩

/-- It is a custody contract that says what it holds. -/
theorem Custody.desk_of_poolBalance {c : Chain} {k p : Address} {held : Amount}
    (h : Custody.poolBalance k p c = .ok held) : c.kind? k = some .custody := by
  simp only [Custody.poolBalance, View.bind_eq_ok, View.callee_eq_ok] at h
  obtain ⟨q, hq, -⟩ := h
  exact kind?_of_contract? hq

namespace Router

variable {w : Wiring} {user : Address} {u : World} {f : Frame} {back : Callback}
  {config : Pool.Config} {n : Amount}

/-- A synthetic adapter in which the router deposits calls nobody back, since the router is at work.
-/
theorem after_callBack_none {s : Strategy.Synthetic} {locked : List Address} {self : Address}
    (hBack : w.Shielded user back) (hKept : w.Kept u.chain) (hLocked : w.router ∈ locked) :
    After (s.callBack back locked self) u fun _ v => v.chain = u.chain := by
  unfold Strategy.Synthetic.callBack
  split
  · exact after_pure.2 rfl
  · next target _ =>
    refine (hBack.locked ⟨target, self, locked⟩ u hKept hLocked _ ?_).mono fun _ _ => False.elim
    split <;> simp

/-- Whatever an adapter reports as the router's deposit, the custody contract has to have gained, so
that no shares went to the router. -/
theorem after_depositIntoPool_clears (h : w.Engaged user f u.chain)
    (hBack : w.Shielded user back) :
    After (depositIntoPool back f config n) u fun _ v => w.Clears user u.chain v.chain := by
  refine After.clears ?_ (after_depositIntoPool hBack.toCallsBack)
  simp only [depositIntoPool, after_bind, after_view, after_result, View.load_eq_ok, ensure_eq_ok,
    forall_const, known_eq_ok, after_pure, h.self]
  intro s hs quote _ _ custody _ before hBefore stable hStable
  obtain ⟨-, hKnown, -⟩ := h.ready.router hs
  obtain rfl : w.stable = stable := Option.some.inj (hKnown.symm.trans hStable)
  refine Token.after_approve.mono fun _ u₁ hAllow => ?_
  -- The one allowance that the router has out is this one, and it is in stable.
  have hToken : n ≠ 0 → ∀ t c',
      u₁.chain.Moves t (.transferFrom config.adapter w.router config.adapter n) c' →
        t = w.stable := fun hAmount _ _ hTake =>
    token_of_collected (fun t => h.ready.reserved t _) hAmount hAllow hTake
  have hCall : ∀ s v, v.chain = u₁.chain →
      u₁.chain.contract? config.adapter = some (.synthetic s) →
        After (s.callBack back f.locked config.adapter) v fun _ v' => v'.chain = u₁.chain := by
    intro s v hv _
    have hKept := h.ready.toKept.alike hAllow.alike
    rw [← hv] at hKept ⊢
    exact after_callBack_none hBack hKept h.locked
  refine (Strategy.after_deposit_endows hCall hToken).mono ?_
  rintro minted u₂ ⟨pool, holder, shares, hReport, hGets⟩
  refine Token.after_approve.mono fun _ v hEnd _ after hAfter _ hExact p hp _ => ?_
  have hRouter := hGets p w.router (.inl ((hAllow.alike.kind? _).trans h.stands)) fun _ => hp
  rw [hEnd.balance_approve, hRouter, hAllow.balance_approve]
  by_cases hHolder : w.router = holder
  · -- Then the custody contract has gained nothing, and that is what was reported.
    have hKeeper := Custody.desk_of_poolBalance hBefore
    have hOther : custody ≠ w.router := by
      rintro rfl
      cases hKeeper.symm.trans h.stands
    have hGained := hGets config.pool custody (.inr ((hAllow.alike.kind? _).trans hKeeper))
      fun hSame => (hOther hSame).elim
    rw [if_neg fun hAt => hOther (hAt.2.trans hHolder.symm), Nat.add_zero,
      ← hEnd.balance_approve, hAllow.balance_approve, Custody.poolBalance_ok hBefore,
      Custody.poolBalance_ok hAfter] at hGained
    have hNothing : shares = 0 := by
      rw [hGained, Nat.sub_self] at hExact
      exact Nat.le_zero.1 (hExact ▸ hReport)
    rw [hNothing, ite_self, Nat.add_zero]
  · rw [if_neg fun hAt => hHolder hAt.2, Nat.add_zero]

/-- The router hands in exactly the shares that it takes out of custody, and is paid in stable: only
stable counts as received. -/
theorem after_withdrawShares_clears {shares : Amount} (h : w.Engaged user f u.chain) :
    After (withdrawShares f config shares) u fun _ v => w.Clears user u.chain v.chain := by
  refine After.clears ?_ ((after_withdrawShares user).mono fun _ _ => .trade)
  simp only [withdrawShares, after_bind, after_view, after_result, View.load_eq_ok, ensure_eq_ok,
    forall_const, known_eq_ok, after_pure, h.self]
  intro s hs quote _ stable hStable before hBefore custody hCustody
  obtain ⟨-, hKnown, hKeeper, -⟩ := h.ready.router hs
  obtain rfl : w.stable = stable := Option.some.inj (hKnown.symm.trans hStable)
  obtain rfl : w.custody = custody := Option.some.inj (hKeeper.symm.trans hCustody)
  refine Custody.after_transferShares.mono ?_
  rintro _ u₁ ⟨⟨q, hq, hSupports, -⟩, hGive⟩
  have hOther : w.router ≠ w.custody := by
    intro hSame
    cases h.stands.symm.trans (hSame ▸ kind?_of_contract? hq)
  have hPool : w.stable ≠ config.pool := (counted_ne_stable h.ready hq hSupports).symm
  refine Token.after_approve.mono fun _ u₂ hAllow => ?_
  have hDesk : u₂.chain.Desk w.router :=
    .inl (((hGive.alike.trans hAllow.alike).kind? _).trans h.stands)
  refine (Strategy.after_withdraw_repays hDesk).mono ?_
  rintro reported u₃ ⟨pool, t, n, hReport, hKind, hAllowed, hBooks⟩
  refine Token.after_approve.mono fun _ v hEnd after hAfter hMeasured _ p hp _ => ?_
  have hRouter : ∀ p, v.chain.balance p w.router + (if p = pool then shares else 0) =
      u.chain.balance p w.router + (if p = config.pool then shares else 0) +
        if p = t then n else 0 := by
    intro p
    have hGiven := hGive.balance_transfer p w.router
    simp only [hOther, and_false, if_false, and_true, Nat.add_zero] at hGiven
    rw [hEnd.balance_approve, hBooks p, hAllow.balance_approve, hGiven]
  have hTaken : pool = config.pool ∨ shares = 0 := by
    by_cases hSame : pool = config.pool
    · exact .inl hSame
    · rw [hAllow.alike.kind?, hGive.alike.kind?] at hKind
      rw [hAllow.allowance_approve, if_neg fun hAt => hSame hAt.1, hGive.allowance_transfer,
        h.ready.reserved _ _ hKind] at hAllowed
      exact .inr (Nat.le_zero.1 hAllowed)
  have hPaid : p = t → n = 0 := by
    rintro rfl
    have hIdle := hRouter w.stable
    rw [if_neg hPool, if_neg (Ne.symm hp), Token.balanceOf_ok hBefore,
      Token.balanceOf_ok hAfter] at hIdle
    have hLess : after ≤ before := Nat.le_of_add_right_le (Nat.le_of_eq hIdle)
    rw [hMeasured, Nat.sub_eq_zero_of_le hLess] at hReport
    exact Nat.le_zero.1 hReport
  have hOwns := hRouter p
  rcases hTaken with rfl | rfl
  · split at hOwns <;> split at hOwns <;> simp_all
  · split at hOwns <;> simp_all

theorem after_withdrawValue_clears {value : Amount} (h : w.Engaged user f u.chain) :
    After (withdrawValue f config value) u fun _ v => w.Clears user u.chain v.chain := by
  simp only [withdrawValue, after_bind, after_view, after_result, ensure_eq_ok, forall_const,
    after_pure]
  intro shares _ _
  exact (after_withdrawShares_clears h).mono fun _ _ hDone _ => hDone

/-- What is moved of stable are no pool shares. -/
theorem keepsShares_of_moves {m : Token.Move} {c c' : Chain} (h : c.Moves w.stable m c') :
    w.KeepsShares c c' := by
  intro p hp _
  rw [balance, h.books_frame hp, balance]

theorem after_pullStable_clears {owner : Address} (h : w.Engaged user f u.chain)
    (hOwner : u.chain.Payer user f.self owner) :
    After (pullStable f owner n) u fun _ v => w.Clears user u.chain v.chain := by
  refine After.clears ?_ ((after_pullStable hOwner).mono fun _ _ => .trade)
  simp only [pullStable, after_bind, after_view, after_result, View.load_eq_ok, known_eq_ok, h.self]
  intro s hs stable hStable
  obtain ⟨-, hKnown, -⟩ := h.ready.router hs
  obtain rfl : w.stable = stable := Option.some.inj (hKnown.symm.trans hStable)
  exact Token.after_transferFrom.mono fun _ _ => keepsShares_of_moves

/-- The router pays. -/
theorem after_payment_clears {taker : Address} (h : w.Engaged user f u.chain) :
    After (Token.transfer f.self w.stable taker n) u fun _ v => w.Clears user u.chain v.chain := by
  rw [h.self]
  refine Token.after_transfer.mono fun _ v hMove => ?_
  exact ⟨keepsShares_of_moves hMove, .trade (.sent (.inr (.inl h.stands)) hMove)⟩

/-- The shares of the treasury itself are no pool shares. -/
theorem keepsShares_of_put {c : Chain} {old new : Contract}
    (hOld : c.contract? w.share = some old) : w.KeepsShares c (c.put w.share new) := by
  intro p _ hp
  rw [balance, books?_put hOld, if_neg hp, balance]

/-- A guarded entry point leaves the router's pool shares as they are if its body does. -/
theorem after_guarded_clears {α : Type} {entry : String} {body : Frame → State → Exec α}
    (hReady : w.Ready u.chain) (hUser : user ≠ w.router) (hCaller : f.caller = user)
    (h : ∀ g s v, w.Engaged user g v.chain → v.chain.contract? w.router = some (.router s) →
      After (body g s) v fun _ x => w.Clears user v.chain x.chain) :
    After (guarded f entry body) u fun _ v => w.Clears user u.chain v.chain := by
  refine after_guarded.2 fun s hs _ => ?_
  have hSelf : f.self = w.router := (hReady.admits _ _ hs).2.2.2.2 rfl
  rw [hSelf] at hs ⊢
  exact h _ s _ ⟨hReady, kind?_of_contract? hs, rfl, hCaller, hUser, List.mem_cons_self⟩ hs

section Flows

variable (hReady : w.Ready u.chain) (hUser : user ≠ w.router) (hCaller : f.caller = user)
  (hBack : w.Shielded user back)

include hReady hUser hCaller

include hBack in
theorem after_handleDeposit_clears {initiator receiver : Address} {assets shares : Amount} :
    After (handleDeposit back f initiator assets shares receiver) u fun _ v =>
      w.Clears user u.chain v.chain := by
  refine after_guarded_clears hReady hUser hCaller fun g s v hWork hs => ?_
  simp only [requireShareToken, after_bind, after_view, after_result, ensure_eq_ok, forall_const]
  intro _ _ hShare _ _ _
  have hPayer : v.chain.Payer user g.self initiator := by
    rw [hWork.self]
    exact .inr ⟨s, hs, by rw [hShare, hWork.caller]⟩
  refine (after_pullStable_clears hWork hPayer).mono fun _ x hPulled pools _ => ?_
  split
  · simp only [refuse, reduceCtorEq, after_result, false_implies, implies_true]
  · simp only [after_bind, after_emit]
    exact (after_depositIntoPool_clears (hWork.clears hPulled) hBack).mono fun _ _ =>
      hPulled.trans

theorem after_handleWithdraw_clears {initiator receiver owner : Address}
    {gross expected : Amount} :
    After (handleWithdraw f initiator receiver owner gross expected) u fun _ v =>
      w.Clears user u.chain v.chain := by
  refine after_guarded_clears hReady hUser hCaller fun g s v hWork hs => ?_
  simp only [after_bind, after_view, after_result]
  intro _ _ _ _ _ _ split _ _ _ pools _ i _
  obtain ⟨-, hKnown, -⟩ := hWork.ready.router hs
  split
  · simp only [refuse, reduceCtorEq, after_result, false_implies, implies_true]
  · simp only [after_bind, after_result, known_eq_ok, after_update, after_emit, after_pure]
    refine (after_withdrawValue_clears hWork).mono fun received x hReceived stable hStable => ?_
    obtain rfl : w.stable = stable := Option.some.inj (hKnown.symm.trans hStable)
    refine (after_payment_clears (hWork.clears hReceived)).mono ?_
    intro _ y hPaid kept _ s' t hs' hCollect
    rw [hWork.self] at hs' ⊢
    exact (hReceived.trans hPaid).trans (Wiring.clears_recorded hs' (.collected hCollect))

include hBack in
theorem after_reinvestFees_clears :
    After (reinvestFees back f) u fun _ v => w.Clears user u.chain v.chain := by
  refine after_guarded_clears hReady hUser hCaller fun g s v hWork hs => ?_
  simp only [after_bind, after_view, after_result, ensure_eq_ok, forall_const]
  intro _ _ idle _ _
  obtain ⟨-, hKnown, -⟩ := hWork.ready.router hs
  split
  · simp only [refuse, reduceCtorEq, after_result, false_implies, implies_true]
  · next pool _ =>
    simp only [after_bind, after_result, ensure_eq_ok, forall_const]
    intro config _ _ incentive _ reinvested _ _
    -- What follows the payment of the incentive, if there is one.
    have hRest : ∀ x, w.Clears user v.chain x.chain →
        After (depositIntoPool back g config reinvested) x fun _ y => ∀ s' t,
          y.chain.contract? g.self = some (.router s') → s'.reinvest reinvested incentive = .ok t →
            w.Clears user v.chain (y.chain.put g.self (.router t)) := by
      intro x hPaid
      refine (after_depositIntoPool_clears (hWork.clears hPaid) hBack).mono ?_
      intro _ y hTaken s' t hs' hReinvest
      rw [hWork.self] at hs' ⊢
      exact (hPaid.trans hTaken).trans (Wiring.clears_recorded hs' (.reinvested hReinvest))
    split
    · simp only [after_bind, after_result, known_eq_ok, after_discard, after_update, after_emit,
        after_pure]
      intro stable hStable
      obtain rfl : w.stable = stable := Option.some.inj (hKnown.symm.trans hStable)
      exact (after_payment_clears hWork).mono fun _ x => hRest x
    · simp only [after_bind, after_discard, after_update, after_emit, after_pure]
      exact hRest v (.refl w user v.chain)

end Flows

section Solvers

variable {s : State} {token receiver owner : Address}

/-- The only share token that the router knows is the treasury's. -/
theorem share_of_known (hReady : w.Ready u.chain)
    (hs : u.chain.contract? w.router = some (.router s)) (hToken : s.shareToken = some token) :
    token = w.share := by
  obtain ⟨-, -, -, hNone | hShare⟩ := hReady.router hs
  · cases hNone.symm.trans hToken
  · exact Option.some.inj (hToken.symm.trans hShare)

/-- Each deposit of a loop leaves the router's pool shares as they are, and so does the loop. -/
theorem after_purchases_clears {purchases : List Purchase} (h : w.Engaged user f u.chain)
    (hBack : w.Shielded user back) :
    After (purchases.forM (purchase back f)) u fun _ v => w.Clears user u.chain v.chain := by
  refine after_forM (I := fun v => w.Clears user u.chain v.chain) purchases ?_ (.refl _ _ _)
  intro p _ v hSoFar
  simp only [purchase, after_bind, after_result]
  exact (after_depositIntoPool_clears (h.clears hSoFar) hBack).mono fun _ _ hTaken _ _ =>
    hSoFar.trans hTaken

/-- Each withdrawal of a fold leaves the router's pool shares as they are, and so does the fold. -/
theorem after_withdrawals_clears {parts : List Part} {withdraw : Part → Exec Amount}
    (h : w.Engaged user f u.chain)
    (hWithdraw : ∀ part v, w.Engaged user f v.chain →
      After (withdraw part) v fun _ x => w.Clears user v.chain x.chain) :
    After (parts.foldlM (fun received part => do Amount.add received (← withdraw part)) 0) u
      fun _ v => w.Clears user u.chain v.chain := by
  refine after_foldlM (I := fun v => w.Clears user u.chain v.chain) parts ?_ 0 (.refl _ _ _)
  intro part _ received v hSoFar
  simp only [after_bind, after_result]
  exact (hWithdraw part v (h.clears hSoFar)).mono fun _ _ hPaid _ _ => hSoFar.trans hPaid

theorem after_solverDeposit_clears {purchases : List Purchase} {minShares : Amount}
    (h : w.Engaged user f u.chain) (hBack : w.Shielded user back)
    (hs : u.chain.contract? w.router = some (.router s)) :
    After (solverDeposit back f s purchases minShares receiver) u fun _ v =>
      w.Clears user u.chain v.chain := by
  simp only [solverDeposit, after_bind, after_view, after_result, known_eq_ok, after_emit,
    after_pure]
  intro total _ _ _ _ _ token hToken shares _ _ _ _ _
  obtain rfl := share_of_known h.ready hs hToken
  have hPayer : u.chain.Payer user f.self f.caller := .inl (.inl h.caller)
  refine (after_pullStable_clears h hPayer).mono fun _ v hPulled => ?_
  refine (after_purchases_clears (h.clears hPulled) hBack).mono fun _ x hTaken => ?_
  refine After.mono ShareToken.after_mintFor_moves ?_
  rintro _ y ⟨t, l, hOld, hMint, -, hy⟩
  refine (hPulled.trans hTaken).trans (hy ▸ ⟨keepsShares_of_put hOld, .issued hOld hMint⟩)

theorem after_settleWithdrawal_clears {split : Fee.Split} {kept shares : Amount} {legs : Nat}
    (h : w.Engaged user f u.chain) (hStable : s.stable = some w.stable) (hShare : token = w.share) :
    After (settleWithdrawal f s token receiver owner split kept shares legs) u fun _ v =>
      w.Clears user u.chain v.chain := by
  simp only [settleWithdrawal, after_bind, after_result, known_eq_ok, after_update, after_emit,
    hStable, Option.some.injEq]
  rintro _ rfl
  refine (after_payment_clears h).mono fun _ v hPaid => ?_
  refine ShareToken.after_burnFor.mono ?_
  rintro _ x ⟨t, t', hOld, -, -, hRetire, hx⟩ s' t'' hs' hCollect
  subst hShare
  have hBurned : w.Clears user v.chain x.chain :=
    hx ▸ ⟨keepsShares_of_put hOld, .retired hOld (.inl h.caller) hRetire⟩
  rw [h.self] at hs' ⊢
  exact (hPaid.trans hBurned).trans (Wiring.clears_recorded hs' (.collected hCollect))

end Solvers

section Operators

variable (hReady : w.Ready u.chain) (hUser : user ≠ w.router) (hCaller : f.caller = user)
  (hBack : w.Shielded user back)

include hReady hUser hCaller

section Legs

variable {legs : List Pool.Leg} {limit : Amount} {receiver owner : Address}

include hBack in
theorem after_solverDepositByAssets_clears :
    After (solverDepositByAssets back f legs limit receiver) u fun _ v =>
      w.Clears user u.chain v.chain := by
  refine after_guarded_clears hReady hUser hCaller fun g s v hWork hs => ?_
  simp only [after_bind, after_result]
  intro _ _ _ _ parts _
  exact after_solverDeposit_clears hWork hBack hs

include hBack in
theorem after_solverDepositByShares_clears :
    After (solverDepositByShares back f legs limit receiver) u fun _ v =>
      w.Clears user u.chain v.chain := by
  refine after_guarded_clears hReady hUser hCaller fun g s v hWork hs => ?_
  simp only [after_bind, after_view, after_result]
  intro _ _ _ _ parts _ purchases _
  exact after_solverDeposit_clears hWork hBack hs

theorem after_solverWithdrawByAssets_clears :
    After (solverWithdrawByAssets f legs limit receiver owner) u fun _ v =>
      w.Clears user u.chain v.chain := by
  refine after_guarded_clears hReady hUser hCaller fun g s v hWork hs => ?_
  obtain ⟨-, hKnown, -⟩ := hWork.ready.router hs
  simp only [after_bind, after_view, after_result, known_eq_ok, after_pure]
  intro _ _ _ _ parts _ gross _ token hToken shares _ _ _
  have hShare := share_of_known hWork.ready hs hToken
  refine (after_withdrawals_clears hWork fun part x hWork =>
    after_withdrawValue_clears hWork).mono fun received x hReceived split _ kept _ => ?_
  exact (after_settleWithdrawal_clears (hWork.clears hReceived) hKnown hShare).mono fun _ _ =>
    hReceived.trans

theorem after_solverWithdrawByShares_clears :
    After (solverWithdrawByShares f legs limit receiver owner) u fun _ v =>
      w.Clears user u.chain v.chain := by
  refine after_guarded_clears hReady hUser hCaller fun g s v hWork hs => ?_
  obtain ⟨-, hKnown, -⟩ := hWork.ready.router hs
  simp only [after_bind, after_view, after_result, after_foldlM_view, known_eq_ok, after_pure]
  intro _ _ _ _ parts _ gross _ _ _ split _ token hToken shares _ _ _ netByShares _ _ _
  have hShare := share_of_known hWork.ready hs hToken
  refine (after_withdrawals_clears hWork fun part x hWork =>
    after_withdrawShares_clears hWork).mono fun received x hReceived surplus _ fee _ => ?_
  exact (after_settleWithdrawal_clears (hWork.clears hReceived) hKnown hShare).mono fun _ _ =>
    hReceived.trans

end Legs

variable {giver taker : Address} {shares value amount minResult : Amount}

omit hReady hUser hCaller in
include hBack in
/-- What is pulled out of one pool goes into the other. -/
theorem after_redeposited_clears {g : Frame} {s : State} {pair : Pair} {withdraw : Exec Amount}
    (h : w.Engaged user g u.chain)
    (hWithdraw : After withdraw u fun _ v => w.Clears user u.chain v.chain) :
    After (do redeposit back g s pair (← withdraw) minResult) u fun _ v =>
      w.Clears user u.chain v.chain := by
  simp only [redeposit, after_bind, after_view, after_result, after_emit, after_pure]
  refine hWithdraw.mono fun pulled v hPulled => ?_
  refine (after_depositIntoPool_clears (h.clears hPulled) hBack).mono fun _ x hTaken => ?_
  exact fun _ _ _ _ => hPulled.trans hTaken

include hBack in
theorem after_rebalanceByShares_clears :
    After (rebalanceByShares back f giver taker shares minResult) u fun _ v =>
      w.Clears user u.chain v.chain := by
  refine after_guarded_clears hReady hUser hCaller fun g s v hWork hs => ?_
  simp only [after_bind, after_view, after_result]
  intro _ _ _ _ pair _ _ _ value _
  split
  · exact after_pure.2 (.refl _ _ _)
  · exact after_redeposited_clears hBack hWork (after_withdrawShares_clears hWork)

include hBack in
theorem after_rebalanceByValue_clears :
    After (rebalanceByValue back f giver taker value minResult) u fun _ v =>
      w.Clears user u.chain v.chain := by
  refine after_guarded_clears hReady hUser hCaller fun g s v hWork hs => ?_
  simp only [after_bind, after_result]
  intro _ _ _ _ pair _ _ _
  split
  · exact after_pure.2 (.refl _ _ _)
  · exact after_redeposited_clears hBack hWork (after_withdrawValue_clears hWork)

include hBack in
/-- The shares that an operator gets for its stable go from custody to the operator. -/
theorem after_rebalanceExternally_clears :
    After (rebalanceExternally back f giver taker amount minResult) u fun _ v =>
      w.Clears user u.chain v.chain := by
  refine after_guarded_clears hReady hUser hCaller fun g s v hWork hs => ?_
  obtain ⟨-, -, hKeeper, -⟩ := hWork.ready.router hs
  simp only [after_bind, after_result]
  intro _ _ _ _ pair _ _ _
  split
  · exact after_pure.2 (.refl _ _ _)
  · simp only [after_bind, after_view, after_result, known_eq_ok]
    have hPayer : v.chain.Payer user g.self g.caller := .inl (.inl hWork.caller)
    refine (after_pullStable_clears hWork hPayer).mono fun _ x hPulled => ?_
    refine (after_depositIntoPool_clears (hWork.clears hPulled) hBack).mono ?_
    intro minted y hTaken deposited _ _ _ custody hCustody released _
    obtain rfl : w.custody = custody := Option.some.inj (hKeeper.symm.trans hCustody)
    have hSoFar := hPulled.trans hTaken
    split
    · simp only [after_bind, after_emit, after_pure]
      refine Custody.after_transferShares.mono ?_
      rintro _ z ⟨⟨q, hq, -⟩, hMove⟩
      refine hSoFar.trans ⟨fun p _ _ => ?_, .trade (Custody.trade_of_transferShares hq hMove)⟩
      have hGiver : w.router ≠ w.custody := by
        intro hSame
        cases (hWork.clears hSoFar).stands.symm.trans (hSame ▸ kind?_of_contract? hq)
      have hTaker : w.router ≠ g.caller := hWork.caller ▸ hUser.symm
      simpa only [hGiver, hTaker, and_false, if_false, Nat.add_zero] using
        hMove.balance_transfer p w.router
    · simp only [after_bind, after_emit, after_pure]
      exact hSoFar

end Operators

theorem after_pause_clears (hCaller : f.caller = user) :
    After (pause f) u fun _ v => w.Clears user u.chain v.chain := by
  refine After.clears ?_ (after_pause (.inl hCaller))
  simp only [pause, after_guarded, after_bind, after_result, store, after_put, after_emit]
  intro s hs _ _ _ _ _
  exact .of_books fun t => books?_put_same hs (by rfl) t

/-- Whatever the router of a treasury is told, by anyone but itself, it owns no more and no less
pool shares afterwards. -/
theorem after_run_keepsShares (hReady : w.Ready u.chain) (hCaller : f.caller ≠ w.router)
    (depth : Nat) (command : Command) :
    After (run (nested depth) f command) u fun _ v => w.KeepsShares u.chain v.chain := by
  have hBack := Wiring.shielded_nested hCaller depth
  cases hNeeds : command.needsRunning with
  | false =>
    refine (after_run_arranged hBack.toCallsBack hNeeds).mono fun _ v hArranged => ?_
    exact .of_books fun t => (hArranged.same t).2
  | true =>
    refine After.mono (Q := fun _ v => w.Clears f.caller u.chain v.chain) ?_
      fun _ _ => Wiring.Clears.keeps
    cases command with
    | handleDeposit => exact After.answered (after_handleDeposit_clears hReady hCaller rfl hBack)
    | handleWithdraw => exact After.answered (after_handleWithdraw_clears hReady hCaller rfl)
    | solverDepositByAssets =>
      exact after_map.2 (after_solverDepositByAssets_clears hReady hCaller rfl hBack)
    | solverDepositByShares =>
      exact after_map.2 (after_solverDepositByShares_clears hReady hCaller rfl hBack)
    | solverWithdrawByAssets =>
      exact after_map.2 (after_solverWithdrawByAssets_clears hReady hCaller rfl)
    | solverWithdrawByShares =>
      exact After.answered (after_solverWithdrawByShares_clears hReady hCaller rfl)
    | rebalanceByShares =>
      exact after_map.2 (after_rebalanceByShares_clears hReady hCaller rfl hBack)
    | rebalanceByValue =>
      exact after_map.2 (after_rebalanceByValue_clears hReady hCaller rfl hBack)
    | rebalanceExternally =>
      exact after_map.2 (after_rebalanceExternally_clears hReady hCaller rfl hBack)
    | reinvestFees => exact After.answered (after_reinvestFees_clears hReady hCaller rfl hBack)
    | pause => exact After.answered (after_pause_clears rfl)
    | _ => cases hNeeds

end Router

end Treasury
