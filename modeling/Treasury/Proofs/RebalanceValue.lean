import Treasury.Proofs.DepositValue
import Treasury.Proofs.ExitPrice
import Treasury.Proofs.Releases

/-! Rebalancing conserves value. What one pool gives up arrives in another but for the dust
tolerance and one unit, and an operator that brings its own stable gets shares worth no more than
what it has brought. What the router holds itself, its fees and the shares of the treasury stay as
they are. -/
namespace Treasury

open Exec Chain

namespace Wiring

/-- Value changes pools. The router holds as much stable of its own as before, and so does everyone
of shares of the treasury. -/
structure Rearranges (w : Wiring) (user : Address) (pools : List Address) (taken loss : Nat)
    (c c' : Chain) : Prop where
  trade : Trade user c c'
  conserves : w.Conserves pools taken 0 loss c c'
  handles : w.Handles 0 0 c c'

variable {w : Wiring} {user owner receiver p : Address} {c c₁ c' : Chain} {pools : List Address}
  {q : Custody} {taken paid loss loss' n shares : Nat}

theorem Conserves.weaken (h : w.Conserves pools taken paid loss c c') (hLoss : loss ≤ loss') :
    w.Conserves pools taken paid loss' c c' := by
  have hLower := h.lower
  exact ⟨h.steady, h.upper, by omega⟩

/-- What is gained and spent again makes no difference. -/
theorem Handles.settled (h : w.Handles n n c c') : w.Handles 0 0 c c' := by
  have hIdle := h.idle
  exact ⟨by omega, h.shares⟩

/-- The router gains what it takes from an owner. -/
theorem Fixed.handles_take (h : w.Fixed c q) (hOwner : owner ≠ w.router)
    (hMove : c.Moves w.stable (.transferFrom w.router owner w.router n) c') :
    w.Handles n 0 c c' := by
  obtain ⟨t, ht, -⟩ := h.complete.share
  obtain ⟨u, hu⟩ := h.complete.stable
  have hShare : w.share ≠ w.stable := by
    intro hSame
    rw [hSame, hu] at ht
    cases ht
  constructor
  · have hAt := hMove.balance_transferFrom w.stable w.router
    rwa [if_neg fun hBoth => hOwner hBoth.2.symm, if_pos ⟨rfl, rfl⟩] at hAt
  · intro x
    have hAt := hMove.balance_transferFrom w.share x
    simpa only [hShare, false_and, if_false, Nat.add_zero] using hAt

/-- The custody contract gives shares of a pool to a receiver, for nothing. -/
theorem Fixed.conserves_give (h : w.Fixed c q) (hCounts : q.supports p = true)
    (hReceiver : receiver ≠ w.custody)
    (hMove : c.Moves p (.transfer w.custody receiver shares) c') :
    w.Conserves q.supported.toList 0 0 (shares * c.rate p / rateScale + 1) c c' ∧
      w.Handles 0 0 c c' := by
  have hAlike : Alike c c' := hMove.alike
  have hBalance := hMove.balance_transfer
  have hStableNe := h.stable_ne hCounts
  obtain ⟨hShareNe, -⟩ := h.share_ne hCounts
  have hHeld : c'.balance p w.custody + shares = c.balance p w.custody := by
    have hAt := hBalance p w.custody
    rwa [if_pos ⟨rfl, rfl⟩, if_neg fun hBoth => hReceiver hBoth.2.symm, Nat.add_zero] at hAt
  have hCounted := h.counted_of_one hCounts hAlike fun x hx hNe => by
    have hAt := hBalance x w.custody
    simpa only [hNe, false_and, if_false, Nat.add_zero] using hAt
  have hIdle : c'.balance w.stable w.router = c.balance w.stable w.router := by
    have hAt := hBalance w.stable w.router
    simpa only [hStableNe.symm, false_and, if_false, Nat.add_zero] using hAt
  have hWorth : w.worth c' p = c'.balance p w.custody * c.rate p / rateScale := by
    rw [worth, hAlike.rate]
  have hBefore : w.worth c p = (c'.balance p w.custody + shares) * c.rate p / rateScale := by
    rw [worth, hHeld]
  obtain ⟨hLower, hUpper⟩ := Rate.worth_loss (c'.balance p w.custody) shares (c.rate p)
  generalize shares * c.rate p / rateScale = value at hLower hUpper ⊢
  refine ⟨⟨.of_alike hAlike, ?_, ?_⟩, ⟨by omega, fun x => ?_⟩⟩
  · rw [managed, managed]
    omega
  · rw [managed, managed]
    omega
  · have hAt := hBalance w.share x
    simpa only [hShareNe, false_and, if_false, Nat.add_zero] using hAt

/-- What a fixed-rate pool says that some shares are worth. -/
theorem Fixed.valueOf_eq (h : w.Fixed c q) (hCounts : q.supports p = true)
    (hValue : Strategy.valueOf p p shares c = .ok n) : n = shares * c.rate p / rateScale := by
  obtain ⟨-, s, hs⟩ := h.pools p hCounts
  rw [Strategy.valueOf_fixedRate hs] at hValue
  rw [rate_of hs]
  exact (Amount.mulDiv_eq_ok.1 hValue).2.2.symm

/-- New shares are worth no more than was deposited for them. -/
theorem Joins.worth_le (h : w.Joins p n shares c c') : shares * c.rate p / rateScale ≤ n := by
  obtain ⟨hPool, -, -, hShares, -, -, -, -, -⟩ := h
  obtain ⟨hPaid, -⟩ := Rate.sharesForDeposit_bounds hShares
  rw [rate_of hPool]
  apply Nat.div_le_of_le_mul
  rw [Nat.mul_comm rateScale]
  exact hPaid

/-- What is deposited into a pool comes to at least what the pool says that the new shares are
worth. -/
theorem Fixed.converts_valued (h : w.Fixed c q) (hCounts : q.supports p = true)
    (hNone : ∀ t, c.kind? t ≠ some .ledger → c.allowance t w.router p = 0)
    (hJoins : w.Joins p n shares c c') (hDrift : n - shares * c.rate p / rateScale ≤ loss) :
    w.Converts user q.supported.toList loss c c' := by
  apply h.converts_joined hCounts hNone hJoins
  have hWorth := (Rate.worth_loss (c.balance p w.custody) shares (c.rate p)).1
  omega

/-- An owner's stable is taken and deposited into a pool. -/
theorem Fixed.rearranges_supplied (h : w.Fixed c q) (hCounts : q.supports p = true)
    (hUser : user ≠ w.router) (hPull : Trade user c c₁)
    (hMove : c.Moves w.stable (.transferFrom w.router user w.router n) c₁)
    (hNone : ∀ t, c₁.kind? t ≠ some .ledger → c₁.allowance t w.router p = 0)
    (hJoins : w.Joins p n shares c₁ c') :
    w.Rearranges user q.supported.toList n (n - shares * c'.rate p / rateScale) c c' ∧
      shares * c'.rate p / rateScale ≤ n := by
  obtain ⟨hTaken, -⟩ := h.conserves_take hUser hMove
  have hFixed := hTaken.steady.fixed h
  have hPut : Trade user c₁ c' := hFixed.trade_joined hJoins
  rw [hPut.alike.rate]
  have hConverts : w.Converts user q.supported.toList (n - shares * c₁.rate p / rateScale) c₁ c' :=
    hFixed.converts_valued hCounts hNone hJoins (Nat.le_refl _)
  have hHandles := (h.handles_take hUser hMove).trans (hFixed.handles_joined hCounts hNone hJoins)
  rw [Nat.zero_add, Nat.add_zero] at hHandles
  exact ⟨⟨hPull.trans hPut, hTaken.then_converts hConverts, hHandles.settled⟩, hJoins.worth_le⟩

/-- Whoever has brought stable is given shares that are worth no more than what came of it. -/
theorem Rearranges.then_given {value : Nat}
    (h : w.Rearranges user q.supported.toList n (n - value) c c₁) (hFixed : w.Fixed c₁ q)
    (hCounts : q.supports p = true) (hUser : user ≠ w.custody)
    (hMove : c₁.Moves p (.transfer w.custody user shares) c')
    (hWorth : shares * c₁.rate p / rateScale ≤ value) (hValue : value ≤ n) :
    w.Rearranges user q.supported.toList n (n + 1) c c' := by
  obtain ⟨hGiven, hSame⟩ := hFixed.conserves_give hCounts hUser hMove
  have hBoth := h.conserves.trans hGiven
  rw [Nat.add_zero, Nat.add_zero] at hBoth
  exact ⟨h.trade.trans (Custody.trade_of_transferShares hFixed.custody hMove),
    hBoth.weaken (by omega), h.handles.trans hSame⟩

end Wiring

namespace Router

variable {wiring : Wiring} {w : World} {f : Frame} {back : Callback} {q : Custody} {s : State}
  {giver taker : Address} {pair : Pair} {pulled minResult : Amount}

/-- Both pools of a move are registered, and the one that takes may be deposited into. -/
theorem pairOf_spec {registry : Pool.Registry} (hSound : registry.Sound)
    (h : pairOf registry giver taker = .ok pair) :
    (pair.giver.pool = giver ∧ pair.taker.pool = taker) ∧
      registry.get? pair.giver.pool = some pair.giver ∧
      registry.get? pair.taker.pool = some pair.taker ∧
      pair.taker.status.acceptsDeposits = true := by
  simp only [pairOf, Result.bind_eq_ok, ensure_eq_ok, Pool.Registry.require_eq_ok] at h
  obtain ⟨_, _, source, hSource, target, hTarget, _, _, _, hStatus, ⟨⟩⟩ := h
  have hGiver : source.pool = giver := hSound.keyed _ _ hSource
  have hTaker : target.pool = taker := hSound.keyed _ _ hTarget
  refine ⟨⟨hGiver, hTaker⟩, ?_, ?_, hStatus⟩
  · rw [hGiver, hSource]
  · rw [hTaker, hTarget]

/-- A move is between two pools. -/
theorem ne_of_pairOf {registry : Pool.Registry} (h : pairOf registry giver taker = .ok pair) :
    giver ≠ taker := by
  simp only [pairOf, Result.bind_eq_ok, ensure_eq_ok] at h
  obtain ⟨_, hApart, -⟩ := h
  exact hApart

/-- What is pulled out of a pool arrives in the other but for the dust tolerance. -/
theorem after_redeposit_converts (user : Address) (h : wiring.Fixed w.chain q)
    (hSelf : f.self = wiring.router) (hCounts : q.supports pair.taker.pool = true)
    (hAgree : q.supports pair.taker.pool = true → pair.taker.adapter = pair.taker.pool)
    (hNone : ∀ t spender, w.chain.kind? t ≠ some .ledger →
      w.chain.allowance t wiring.router spender = 0) :
    After (redeposit back f s pair pulled minResult) w fun _ v =>
      wiring.Converts user q.supported.toList s.dustTolerance w.chain v.chain ∧
        wiring.Handles 0 pulled w.chain v.chain := by
  simp only [redeposit, after_bind, after_view, after_result, checkMove, Result.bind_eq_ok,
    ensure_eq_ok, after_emit, after_pure, hAgree hCounts]
  refine (after_depositIntoPool_joins h hSelf hCounts hAgree).mono fun minted v hJoins => ?_
  intro deposited hValue _ hCheck
  obtain ⟨_, hDrift, -⟩ := hCheck
  have hNone' := fun t => hNone t pair.taker.pool
  have hTrade : Trade user w.chain v.chain := h.trade_joined hJoins
  have hFixed : wiring.Fixed v.chain q := (Wiring.Steady.of_alike hTrade.alike).fixed h
  rw [hFixed.valueOf_eq hCounts hValue, hTrade.alike.rate] at hDrift
  exact ⟨h.converts_valued hCounts hNone' hJoins hDrift, h.handles_joined hCounts hNone' hJoins⟩

/-- What leaves a pool and is deposited into another changes all managed value by the dust tolerance
and one unit at most. -/
theorem after_redeposit_rearranges {user : Address} {c : Chain} {shares : Nat}
    (h : wiring.Stands c s q) (hSelf : f.self = wiring.router) (hUser : wiring.router ≠ user)
    (hPair : pairOf s.registry giver taker = .ok pair)
    (hCounts : q.supports pair.giver.pool = true)
    (hLeaves : wiring.Leaves pair.giver.pool shares pulled c w.chain) :
    After (redeposit back f s pair pulled minResult) w fun _ v =>
      wiring.Rearranges user q.supported.toList 0 (s.dustTolerance + 1) c v.chain := by
  obtain ⟨-, -, hTaker, hStatus⟩ := pairOf_spec h.agree.registry hPair
  have hPulled : wiring.Converts user q.supported.toList 1 c w.chain :=
    (h.fixed.converts_withdraw hCounts hLeaves).1
  have hGained := h.fixed.handles_left hCounts hLeaves
  have hFixed : wiring.Fixed w.chain q := hPulled.conserves.steady.fixed h.fixed
  have hNone := hPulled.trade.allowance_eq_zero hUser h.reserved
  refine (after_redeposit_converts user hFixed hSelf (h.counts hTaker hStatus)
    (h.adapter_eq hTaker) hNone).mono fun _ v hDone => ?_
  obtain ⟨hPut, hSpent⟩ := hDone
  have hConverts := hPulled.trans hPut
  have hHandles := hGained.trans hSpent
  rw [Nat.zero_add, Nat.add_zero] at hHandles
  refine ⟨hConverts.trade, ?_, hHandles.settled⟩
  rw [Nat.add_comm]
  exact hConverts.conserves

/-- A move either is not made, or rearranges value. -/
def Moved (w : Wiring) (user : Address) (pools : List Address) (taken loss : Nat) (c : Chain)
    (answer : Amount) (v : World) : Prop :=
  answer = 0 ∧ v.chain = c ∨ w.Rearranges user pools taken loss c v.chain

theorem after_rebalanceByShares_moved {shares : Amount} (h : wiring.Stands w.chain s q)
    (hSelf : f.self = wiring.router) (hCaller : f.caller ≠ wiring.router) :
    After (rebalanceByShares back f giver taker shares minResult) w
      (Moved wiring f.caller q.supported.toList 0 (s.dustTolerance + 1) w.chain) := by
  simp only [rebalanceByShares, after_guarded, after_bind, after_view, after_result,
    State.requireRunning, ensure_eq_ok, forall_const, after_ite, after_pure]
  intro s' hs' _ _ _ _ pair hPair _ value _
  obtain rfl : s = s' := storage_unique h.router (hSelf ▸ hs')
  refine ⟨fun _ => .inl ⟨rfl, rfl⟩, fun _ => ?_⟩
  obtain ⟨-, hGiver, -⟩ := pairOf_spec h.agree.registry hPair
  refine After.mono (after_withdrawShares_leaves (by exact h.fixed) (by exact hSelf)
    (h.adapter_eq hGiver)) fun pulled u hDone => ?_
  obtain ⟨hCounts, hLeaves⟩ := hDone
  refine After.mono (after_redeposit_rearranges h (by exact hSelf) hCaller.symm hPair hCounts
    hLeaves) fun _ v hRearranges => ?_
  exact .inr hRearranges

theorem after_rebalanceByValue_moved {value : Amount} (h : wiring.Stands w.chain s q)
    (hSelf : f.self = wiring.router) (hCaller : f.caller ≠ wiring.router) :
    After (rebalanceByValue back f giver taker value minResult) w
      (Moved wiring f.caller q.supported.toList 0 (s.dustTolerance + 1) w.chain) := by
  simp only [rebalanceByValue, after_guarded, after_bind, after_result, State.requireRunning,
    ensure_eq_ok, forall_const, after_ite, after_pure]
  intro s' hs' _ _ _ _ pair hPair _
  obtain rfl : s = s' := storage_unique h.router (hSelf ▸ hs')
  refine ⟨fun _ => .inl ⟨rfl, rfl⟩, fun _ => ?_⟩
  obtain ⟨-, hGiver, -⟩ := pairOf_spec h.agree.registry hPair
  refine After.mono (after_withdrawValue_leaves (by exact h.fixed) (by exact hSelf)
    (h.adapter_eq hGiver)) fun pulled u hDone => ?_
  obtain ⟨shares, hCounts, hLeaves⟩ := hDone
  refine After.mono (after_redeposit_rearranges h (by exact hSelf) hCaller.symm hPair hCounts
    hLeaves) fun _ v hRearranges => ?_
  exact .inr hRearranges

/-- Shares that may be released for a value are worth no more. -/
theorem releasable_spec {c : Chain} {config : Pool.Config} {custody : Address}
    {value released : Amount} (h : wiring.Fixed c q) (hCounts : q.supports config.pool = true)
    (hAgree : config.adapter = config.pool)
    (hReleased : releasable custody config value c = .ok released) :
    released * c.rate config.pool / rateScale ≤ value := by
  obtain ⟨-, s, hs⟩ := h.pools _ hCounts
  obtain ⟨rfl, -⟩ := releasable_fixedRate hs hAgree hReleased
  rw [rate_of hs]
  apply Nat.le_trans _ (Rate.worth_fitting_le value s.rate)
  exact Nat.div_le_div_right (Nat.mul_le_mul_right _ (Nat.min_le_left _ _))

/-- An operator's stable arrives in a pool, and the operator gets shares of the other that are worth
no more. -/
theorem after_rebalanceExternally_moved {amount : Amount} (h : wiring.Stands w.chain s q)
    (hSelf : f.self = wiring.router) (hCaller : w.chain.kind? f.caller = none) :
    After (rebalanceExternally back f giver taker amount minResult) w
      (Moved wiring f.caller q.supported.toList amount (amount + 1) w.chain) := by
  obtain ⟨hStable, hCustody, -⟩ := h.fixed.complete.links h.router
  have hUser := h.payer_ne hCaller
  have hKeeper := ne_of_contract? h.fixed.custody hCaller
  simp only [rebalanceExternally, after_guarded, after_bind, after_view, after_result,
    State.requireRunning, ensure_eq_ok, forall_const, after_ite, after_pure, pullStable,
    View.load_eq_ok, known_eq_ok, checkMove, Result.bind_eq_ok, after_emit]
  intro s' hs' _ _ _ _ pair hPair _
  obtain rfl : s = s' := storage_unique h.router (hSelf ▸ hs')
  refine ⟨fun _ => .inl ⟨rfl, rfl⟩, fun _ s' hs' stable hst => ?_⟩
  obtain rfl : s = s' := storage_unique h.router (hSelf ▸ hs')
  obtain rfl : wiring.stable = stable := Option.some.inj (hStable.symm.trans hst)
  obtain ⟨⟨hGiverPool, hTakerPool⟩, hGiver, hTaker, hStatus⟩ :=
    pairOf_spec h.agree.registry hPair
  have hCounts := h.counts hTaker hStatus
  refine Token.after_transferFrom.mono fun _ u hMove => ?_
  rw [hSelf] at hMove
  have hPull : Trade f.caller w.chain u.chain :=
    .collected ((acts_user _ _).payer wiring.router) (by simp [kind?_of_contract? h.router]) hMove
  have hNone := hPull.allowance_eq_zero hUser.symm h.reserved
  have hFixed : wiring.Fixed u.chain q := (Wiring.Steady.of_alike hPull.alike).fixed h.fixed
  refine After.mono (after_depositIntoPool_joins hFixed (by exact hSelf) hCounts
    (h.adapter_eq hTaker)) fun minted v hJoins => ?_
  intro deposited hValue _ custody hk released hReleased
  obtain rfl : wiring.custody = custody := Option.some.inj (hCustody.symm.trans hk)
  obtain ⟨hSupplied, hDeposited⟩ := h.fixed.rearranges_supplied hCounts hUser hPull hMove
    (fun t => hNone t pair.taker.pool) hJoins
  have hFixed' := hSupplied.conserves.steady.fixed h.fixed
  rw [← hTakerPool, h.adapter_eq hTaker hCounts] at hValue
  rw [← hFixed'.valueOf_eq hCounts hValue] at hSupplied hDeposited
  constructor
  · intro _
    refine Custody.after_transferShares.mono fun _ v' hDone => ?_
    obtain ⟨⟨q', hq', hGives, -⟩, hGiven⟩ := hDone
    obtain rfl : q = q' := storage_unique hFixed'.custody hq'
    rw [← hGiverPool] at hGives hGiven
    have hWorth := releasable_spec hFixed' hGives (h.adapter_eq hGiver hGives) hReleased
    exact .inr (hSupplied.then_given hFixed' hGives hKeeper hGiven hWorth hDeposited)
  · intro _
    exact .inr ⟨hSupplied.trade, hSupplied.conserves.weaken (by omega), hSupplied.handles⟩

end Router

namespace Wiring

/-- A call to the router that moves value between pools, with what it takes from the operator and
how much of all managed value it may lose. -/
inductive Rebalances (w : Wiring) (c : Chain) : Router.Command → Nat → Nat → Prop where
  | byShares (giver taker : Address) (shares minResult : Amount) :
      Rebalances w c (.rebalanceByShares giver taker shares minResult) 0
        ((c.routing w.router).dustTolerance + 1)
  | byValue (giver taker : Address) (value minResult : Amount) :
      Rebalances w c (.rebalanceByValue giver taker value minResult) 0
        ((c.routing w.router).dustTolerance + 1)
  | externally (giver taker : Address) (amount minResult : Amount) :
      Rebalances w c (.rebalanceExternally giver taker amount minResult) amount (amount + 1)

/-- What a rebalancing leaves alone: the stable that the router holds itself, all that the router
has written down, fees among it, and the shares of the treasury. -/
structure Undisturbed (w : Wiring) (c c' : Chain) : Prop where
  idle : Router.idleBalance w.router c' = Router.idleBalance w.router c
  routing : c'.routing w.router = c.routing w.router
  shares : ∀ x, c'.balance w.share x = c.balance w.share x
  supply : c'.supply w.share = c.supply w.share

theorem Undisturbed.refl (w : Wiring) (c : Chain) : w.Undisturbed c c :=
  ⟨rfl, rfl, fun _ => rfl, rfl⟩

variable {w : Wiring} {c c' : Chain} {q : Custody} {user : Address} {pools : List Address}
  {taken loss : Nat}

theorem Rebalances.byValue_within {tolerance : Nat}
    (h : (c.routing w.router).dustTolerance = tolerance) (giver taker : Address)
    (value minResult : Amount) :
    w.Rebalances c (.rebalanceByValue giver taker value minResult) 0 (tolerance + 1) :=
  h ▸ .byValue giver taker value minResult

theorem Rearranges.undisturbed (h : w.Rearranges user pools taken loss c c')
    (hFixed : w.Fixed c q) : w.Undisturbed c c' := by
  obtain ⟨t, ht, -⟩ := hFixed.complete.share
  have hComplete' := (h.conserves.steady.fixed hFixed).complete
  refine ⟨?_, h.trade.alike.routing w.router, h.handles.shares,
    h.trade.supply (kind?_of_contract? ht)⟩
  rw [hComplete'.idleBalance_eq, hFixed.complete.idleBalance_eq]
  exact congrArg Except.ok h.handles.idle

end Wiring

/-- A rebalancing between fixed-rate pools is not made, or it keeps all managed value but for the
dust tolerance and one unit. Stable that an operator brings adds to the value at most, and is paid
for in pool shares at a loss of at most one unit. Nothing else is disturbed. -/
theorem WiredRun.rebalances_conserve_value {w : Wiring} {c : Chain} (hRun : WiredRun w c)
    (hComplete : w.Complete c) (hPools : w.FixedRatePools c) {caller : Digest}
    {command : Router.Command} {out : Outcome} {taken loss : Nat}
    (hCall : c.submit (.account caller) w.router (.router command) = .ok out)
    (hRebalances : w.Rebalances c command taken loss) :
    w.Undisturbed c out.chain ∧
      (out.answer = .amount 0 ∧ out.chain = c ∨
        ∀ nav, Router.totalManagedAssets w.router c = .ok nav →
          w.Becomes nav taken 0 loss out.chain) := by
  obtain ⟨s, q, hStands⟩ := hRun.stands hComplete hPools
  have hUser := hRun.account_free caller
  have hCaller := hStands.payer_ne hUser
  have hAfter : After ((Command.router command).run c.callback w.router (.account caller))
      { chain := c } fun answer v => answer = .amount 0 ∧ v.chain = c ∨
        w.Rearranges (.account caller) q.supported.toList taken loss c v.chain := by
    have hAnswered : ∀ {taken loss n : Nat} {v : World},
        Router.Moved w (.account caller) q.supported.toList taken loss c n v →
          Answer.amount n = .amount 0 ∧ v.chain = c ∨
            w.Rearranges (.account caller) q.supported.toList taken loss c v.chain := by
      intro taken loss n v hMoved
      exact hMoved.imp_left fun hNone => ⟨congrArg _ hNone.1, hNone.2⟩
    cases hRebalances with
    | byShares giver taker shares minResult =>
      rw [routing_of hStands.router]
      exact after_map.2 ((Router.after_rebalanceByShares_moved hStands (by rfl) hCaller).mono
        fun _ _ => hAnswered)
    | byValue giver taker value minResult =>
      rw [routing_of hStands.router]
      exact after_map.2 ((Router.after_rebalanceByValue_moved hStands (by rfl) hCaller).mono
        fun _ _ => hAnswered)
    | externally giver taker amount minResult =>
      exact after_map.2 ((Router.after_rebalanceExternally_moved hStands (by rfl) hUser).mono
        fun _ _ => hAnswered)
  rcases of_submit hAfter hCall with hNone | hMoved
  · have hSame : out.chain = c := hNone.2
    refine ⟨?_, .inl hNone⟩
    rw [hSame]
    exact .refl w c
  · exact ⟨hMoved.undisturbed hStands.fixed,
      .inr fun nav hNav => hStands.fixed.becomes hNav hMoved.conserves⟩

/-- An operator moves 20 of the 100 in one pool, at a rate of 1, into another, at a rate of 1.5. -/
theorem WiredRun.rebalances_conserve_value_moved : ∃ c out,
    WiredRun Standard.places c ∧ Standard.places.Complete c ∧
      Standard.places.FixedRatePools c ∧
      Standard.places.Rebalances c
        (.rebalanceByValue Standard.pool (.ofNumber 6) 20 0) 0 6 ∧
      c.submit (.account 0) Standard.router
        (.router (.rebalanceByValue Standard.pool (.ofNumber 6) 20 0)) = .ok out ∧
      Router.totalManagedAssets Standard.router c = .ok 100 ∧
      Standard.places.Undisturbed c out.chain ∧ Standard.places.Becomes 100 0 0 6 out.chain := by
  have hEnd : (Standard.places.follow {} (Standard.pooled 0 1 { admin := .account 0 } rateScale
      100 ++
      [.call 1 Standard.share (.share (.deposit 100 (.account 1))),
        .call 0 Standard.router (.router (.updatePoolTarget Standard.pool 500_000)),
        .deploy 0 (.fixedRate (.account 0) Standard.stable Standard.custody
          1_500_000_000_000_000_000),
        .call 0 Standard.router (.router (.registerAdapter (.ofNumber 6) (.ofNumber 6))),
        .call 0 Standard.router (.router (.addPool (.ofNumber 6) 500_000))])).any (fun c =>
      Standard.places.completes c && (c.submit (.account 0) Standard.router
        (.router (.rebalanceByValue Standard.pool (.ofNumber 6) 20 0))).toOption.any fun out =>
          decide (Standard.places.FixedRatePools c) &&
            ((c.routing Standard.router).dustTolerance == 5 &&
              ((Router.totalManagedAssets Standard.router c).toOption == some 100 &&
                out.answer.amount? == some 13))) = true := by decide +kernel
  obtain ⟨c, out, hRun, hComplete, hCall, hHolds⟩ := Wiring.exists_submit hEnd
  simp only [Bool.and_eq_true, decide_eq_true_eq, beq_iff_eq] at hHolds
  obtain ⟨hPools, hTolerance, hNav, hMade⟩ := hHolds
  have hNav := Result.of_toOption hNav
  have hRebalances : Standard.places.Rebalances c
      (.rebalanceByValue Standard.pool (.ofNumber 6) 20 0) 0 6 :=
    .byValue_within hTolerance Standard.pool (.ofNumber 6) 20 0
  obtain ⟨hUndisturbed, hNone | hBecomes⟩ :=
    rebalances_conserve_value hRun hComplete hPools hCall hRebalances
  · cases hNone.1.symm.trans (Answer.of_amount? hMade)
  · exact ⟨c, out, hRun, hComplete, hPools, hRebalances, hCall, hNav, hUndisturbed,
      hBecomes 100 hNav⟩

/-- The value can become too large to be found out. At a rate of 1, one pool holds the largest
amount whose value can be, and the 10 that another pool holds are moved into it. -/
theorem WiredRun.rebalance_overflows_value : ∃ c out,
    WiredRun Standard.places c ∧ Standard.places.Complete c ∧
      Standard.places.FixedRatePools c ∧
      Standard.places.Rebalances c
        (.rebalanceByValue Standard.pool (.ofNumber 6) 10 0) 0 6 ∧
      c.submit (.account 0) Standard.router
        (.router (.rebalanceByValue Standard.pool (.ofNumber 6) 10 0)) = .ok out ∧
      out.answer = .amount 10 ∧
      Router.totalManagedAssets Standard.router c = .ok ((Amount.bound - 1) / rateScale + 10) ∧
      Router.totalManagedAssets Standard.router out.chain = .error .overflow := by
  have hEnd : (Standard.places.follow {} (Standard.opening 0 { admin := .account 0 } ++
      [.deploy 0 (.fixedRate (.account 0) Standard.stable Standard.custody rateScale),
        .call 0 Standard.router (.router (.registerAdapter Standard.pool Standard.pool)),
        .call 0 Standard.router (.router (.addPool Standard.pool 500_000)),
        .deploy 0 (.fixedRate (.account 0) Standard.stable Standard.custody rateScale),
        .call 0 Standard.router (.router (.registerAdapter (.ofNumber 6) (.ofNumber 6))),
        .call 0 Standard.router (.router (.addPool (.ofNumber 6) 500_000)),
        .call 0 Standard.stable (.stable (.mint (.account 1)
          ((Amount.bound - 1) / rateScale + 10))),
        .call 1 Standard.stable (.token (.approve Standard.router
          ((Amount.bound - 1) / rateScale + 10))),
        .call 0 Standard.router (.router (.grantRole Roles.solver (.account 1))),
        .call 1 Standard.router (.router (.solverDepositByAssets
          [⟨.ofNumber 6, (Amount.bound - 1) / rateScale⟩, ⟨Standard.pool, 10⟩] 0
          (.account 1)))])).any (fun c =>
      Standard.places.completes c && (c.submit (.account 0) Standard.router
        (.router (.rebalanceByValue Standard.pool (.ofNumber 6) 10 0))).toOption.any fun out =>
          decide (Standard.places.FixedRatePools c) &&
            ((c.routing Standard.router).dustTolerance == 5 &&
              (out.answer.amount? == some 10 &&
                ((Router.totalManagedAssets Standard.router c).toOption ==
                  some ((Amount.bound - 1) / rateScale + 10) &&
                (Router.totalManagedAssets Standard.router out.chain).fault? ==
                  some .overflow)))) = true := by decide +kernel
  obtain ⟨c, out, hRun, hComplete, hCall, hHolds⟩ := Wiring.exists_submit hEnd
  simp only [Bool.and_eq_true, decide_eq_true_eq, beq_iff_eq] at hHolds
  obtain ⟨hPools, hTolerance, hMade, hNav, hAfter⟩ := hHolds
  have hRebalances : Standard.places.Rebalances c
      (.rebalanceByValue Standard.pool (.ofNumber 6) 10 0) 0 6 :=
    .byValue_within hTolerance Standard.pool (.ofNumber 6) 10 0
  exact ⟨c, out, hRun, hComplete, hPools, hRebalances, hCall, Answer.of_amount? hMade,
    Result.of_toOption hNav, Result.of_fault? hAfter⟩

end Treasury
