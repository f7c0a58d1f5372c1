import Treasury.Proofs.Governed
import Treasury.Proofs.LegOrder

/-! Two ways to deposit. A user goes through the share token, which prices the deposit and lets the
router pick a pool; a solver goes to the router and names a pool, and the router lets the share
token issue shares. For the pool that the router would pick, both come to the same. -/
namespace Treasury

open Exec Chain

/-- A treasury at whose router deposits can be made: all four contracts point at each other, the
router's registry is in order, and its pools are reached through fixed-rate adapters. -/
structure Wiring.Open (w : Wiring) (c : Chain) (s : Router.State) : Prop where
  complete : w.Complete c
  router : c.contract? w.router = some (.router s)
  sound : s.registry.Sound
  fixedRate : w.FixedRatePools c

namespace Router

variable {w : Wiring} {c : Chain} {s : State} {p : Address} {a : Amount} {back : Callback}
  {config : Pool.Config} {f g : Frame}

theorem requireWithinCap_congr (h : f.self = g.self) :
    requireWithinCap f a = requireWithinCap g a := by
  simp only [requireWithinCap, h]

/-- It does not matter to a pool for whom the router deposits. -/
theorem depositIntoPool_congr (hSelf : f.self = g.self) (hLocked : f.locked = g.locked) :
    depositIntoPool back f config a = depositIntoPool back g config a := by
  obtain ⟨_, caller, _⟩ := f
  cases hSelf
  cases hLocked
  rfl

/-- The pool that the next deposit goes to is registered and takes deposits. -/
theorem nextDepositPool_spec (h : w.Open c s)
    (hNext : nextDepositPool w.router c = .ok (some p)) :
    ∃ pools config, snapshots s .deposit c = .ok pools ∧
      ((Pool.Ranking.depositPool pools).bind fun i => s.registry.toList[i]?) = some config ∧
      config.pool = p ∧ s.registry.require p = .ok config ∧
      Direction.deposit.require config.status = .ok () := by
  simp only [nextDepositPool, View.bind_eq_ok, View.callee_eq_ok, View.pure_apply,
    Except.ok.injEq] at hNext
  obtain ⟨s', hs', pools, hPools, hChosen⟩ := hNext
  obtain rfl : s = s' := storage_unique h.router hs'
  obtain ⟨i, hIndex, hPool⟩ := Option.bind_eq_some_iff.1 hChosen
  obtain ⟨found, hFound, rfl⟩ := Option.map_eq_some_iff.1 hPool
  obtain ⟨found', hFound', hEligible⟩ := Pool.Ranking.depositPool_eligible hIndex
  obtain rfl : found = found' := Option.some.inj (hFound.symm.trans hFound')
  obtain ⟨config, value, weight, hConfig, -, rfl⟩ := snapshots_spec hPools hFound
  refine ⟨pools, config, hPools, Option.bind_eq_some_iff.2 ⟨i, hIndex, hConfig⟩, rfl, ?_, ?_⟩
  · exact Pool.Registry.require_eq_ok.2 (h.sound.get?_of_mem (List.mem_of_getElem? hConfig))
  · exact ensure_eq_ok.2 (admits_of_snapshots hPools hFound hEligible hConfig)

end Router

namespace Router

variable {back : Callback} {f : Frame} {initiator receiver : Address} {assets shares : Amount}

/-- Deposit what has been taken from a user into the pool with the largest deficit. -/
def invest (back : Callback) (f : Frame) (s : State) (initiator receiver : Address)
    (assets : Amount) : Exec Unit := do
  let pools ← snapshots s .deposit
  match (Pool.Ranking.depositPool pools).bind fun i => s.registry.toList[i]? with
  | none => refuse .poolNotDepositEligible
  | some config =>
    let poolShares ← depositIntoPool back f config assets
    emit f.self (.deposited initiator receiver config.pool assets poolShares)

instance additive_invest {s : State} [back.Adds] :
    Additive (invest back f s initiator receiver assets) := by
  unfold invest
  refine @Additive.bind _ _ _ _ _ fun pools => ?_
  split <;> infer_instance

/-- A deposit of a user is checked, taken and invested. -/
theorem handleDeposit_eq : handleDeposit back f initiator assets shares receiver =
    (guarded f "handle_deposit" fun f s => do
      s.requireRunning
      requireShareToken s f.caller
      ensure (assets ≠ 0 ∧ shares ≠ 0) .zeroAmount
      requireWithinCap f assets
      pullStable f initiator assets
      invest back f s initiator receiver assets) := rfl

/-- A single leg is resolved to the config of its pool. -/
theorem resolveAll_singleton {registry : Pool.Registry} {direction : Direction}
    {config : Pool.Config} {n : Amount} {parts : List Part}
    (hConfig : registry.require config.pool = .ok config)
    (hStatus : direction.require config.status = .ok ()) :
    resolveAll registry direction [⟨config.pool, n⟩] = .ok parts ↔
      n ≠ 0 ∧ [⟨config, n⟩] = parts := by
  simp only [resolveAll, Result.bind_eq_ok, ensure_eq_ok, resolve_eq_ok, List.forall_mem_singleton]
  constructor
  · rintro ⟨_, -, ⟨hSome, -⟩, -, hNames⟩
    obtain ⟨part, _, ⟨hAmount, hFound, -⟩, hRest, rfl⟩ := List.forall₂_cons_left_iff.1 hNames
    obtain rfl := List.forall₂_nil_left_iff.1 hRest
    obtain ⟨found, m⟩ := part
    obtain rfl : config = found := Except.ok.inj (hConfig.symm.trans hFound)
    obtain rfl : m = n := hAmount
    exact ⟨hSome, rfl⟩
  · rintro ⟨hSome, rfl⟩
    exact ⟨(), List.cons_ne_nil _ _, ⟨hSome, List.not_mem_nil⟩, List.pairwise_singleton _ _,
      .cons ⟨rfl, hConfig, hStatus⟩ .nil⟩

end Router

/-- A deposit into one pool, whoever brings it: the payer's stable goes through the router into the
pool, and the receiver gets treasury shares at the price before. -/
structure Wiring.Invests (w : Wiring) (back : Router.Callback) (s : Router.State)
    (config : Pool.Config) (payer receiver : Address) (a n : Amount) (c c' : Chain) : Prop where
  running : s.paused = false
  amount : a ≠ 0
  shares : n ≠ 0
  cap : Router.requireWithinCap ⟨w.router, w.router, []⟩ a c = .ok ()
  price : ∃ t, c.contract? w.share = some (.share t) ∧ t.sharesFor a c = .ok n
  invested : ∃ c₁ m c₂ es t l, c.Moves w.stable (.transferFrom w.router payer w.router a) c₁ ∧
    Ends (Router.depositIntoPool back ⟨w.router, w.router, [w.router]⟩ config a) c₁ m c₂ es ∧
    c₂.contract? w.share = some (.share t) ∧ t.ledger.mint receiver n = .ok l ∧
    c' = c₂.put w.share (.share { t with ledger := l })

/-- What can be taken from an account is an amount. -/
theorem Chain.Moves.lt_bound {c c' : Chain} {t spender owner taker : Address} {n : Amount}
    (h : c.Moves t (.transferFrom spender owner taker n) c') : n < Amount.bound := by
  obtain ⟨l, l', -, hMove, -⟩ := h.spec
  simp only [Token.Move.onLedger, Token.Ledger.transferFrom, Token.Ledger.transfer,
    Token.Ledger.credit, Result.bind_eq_ok, Amount.add_eq_ok] at hMove
  obtain ⟨_, _, _, _, _, ⟨hRange, -⟩, -⟩ := hMove
  exact Nat.lt_of_le_of_lt (Nat.le_add_left _ _) hRange

section Paths

variable {w : Wiring} {c c' : Chain} {s : Router.State} {p payer receiver : Address}
  {a n : Amount} {back : Router.Callback} {config : Pool.Config}

namespace Router

theorem ends_invest {f : Frame} {pools : List Pool.Snapshot} {u : Unit}
    {es : List (Address × Event)} (hPools : snapshots s .deposit c = .ok pools)
    (hChosen : ((Pool.Ranking.depositPool pools).bind fun i => s.registry.toList[i]?) =
      some config) :
    Ends (invest back f s payer receiver a) c u c' es ↔
      ∃ m es', Ends (depositIntoPool back f config a) c m c' es' ∧
        es' ++ [(f.self, .deposited payer receiver config.pool a m)] = es := by
  rw [invest, ends_view_bind]
  simp only [hPools, Except.ok.injEq, exists_eq_left', hChosen]
  rw [ends_bind]
  simp only [ends_emit]
  constructor
  · rintro ⟨m, _, es', _, hLeg, ⟨rfl, rfl⟩, hEs⟩
    exact ⟨m, es', hLeg, hEs⟩
  · rintro ⟨m, es', hLeg, hEs⟩
    exact ⟨m, c', es', _, hLeg, ⟨rfl, rfl⟩, hEs⟩

/-- To carry out one purchase is all there is to do for a list of it. -/
theorem ends_purchases_one {f : Frame} {b : Purchase} {u : Unit} {es : List (Address × Event)} :
    Ends ([b].forM (purchase back f)) c u c' es ↔ Ends (purchase back f b) c u c' es := by
  change Ends (purchase back f b >>= fun _ => pure ()) c u c' es ↔ _
  rw [bind_pure_unit]

/-- A purchase with no lower limit is a deposit. -/
theorem ends_purchase_free {f : Frame} {u : Unit} {es : List (Address × Event)} :
    Ends (purchase back f ⟨config, a, 0⟩) c u c' es ↔
      ∃ m, Ends (depositIntoPool back f config a) c m c' es := by
  rw [purchase, ends_bind]
  simp only [ends_result, ensure_eq_ok, Nat.zero_le, true_and]
  constructor
  · rintro ⟨m, _, es', _, hLeg, ⟨rfl, rfl⟩, rfl⟩
    rw [List.append_nil]
    exact ⟨m, hLeg⟩
  · rintro ⟨m, hLeg⟩
    exact ⟨m, c', es, [], hLeg, ⟨rfl, rfl⟩, List.append_nil es⟩

/-- The router has the share token issue shares, and announces it. -/
theorem ends_issue {self token : Address} {shares : Amount} {event : Event}
    {es : List (Address × Event)} :
    Ends (do
        ShareToken.mintFor token self receiver shares
        emit self event
        pure shares) c n c' es ↔
      ∃ t l, c.contract? token = some (.share t) ∧ t.router = some self ∧ shares ≠ 0 ∧
        t.ledger.mint receiver shares = .ok l ∧
        c' = c.put token (.share { t with ledger := l }) ∧ shares = n ∧ [(self, event)] = es := by
  constructor
  · intro hEnds
    obtain ⟨_, c₁, es₁, es₂, hMint, hEnd, rfl⟩ := ends_bind.1 hEnds
    simp only [ShareToken.mintFor, ends_amend, ShareToken.issue, ShareToken.requireRouter,
      Result.bind_eq_ok, ensure_eq_ok] at hMint
    obtain ⟨t, _, ht, ⟨_, hRouter, _, hSome, l, hMint, ⟨⟩⟩, rfl, rfl⟩ := hMint
    obtain ⟨_, c₂, es₃, es₄, hEmit, hPure, rfl⟩ := ends_bind.1 hEnd
    obtain ⟨rfl, rfl⟩ := ends_emit.1 hEmit
    obtain ⟨rfl, rfl, rfl⟩ := ends_pure.1 hPure
    exact ⟨t, l, ht, hRouter, hSome, hMint, rfl, rfl, rfl⟩
  · rintro ⟨t, l, ht, hRouter, hSome, hMint, rfl, rfl, rfl⟩
    refine ends_bind.2 ⟨(), _, [], _, ?_, ends_bind.2 ⟨(), _, _, [], ends_emit.2 ⟨rfl, rfl⟩,
      ends_pure.2 ⟨rfl, rfl, rfl⟩, rfl⟩, rfl⟩
    simp only [ShareToken.mintFor, ends_amend, ShareToken.issue, ShareToken.requireRouter,
      Result.bind_eq_ok, ensure_eq_ok]
    exact ⟨t, _, ht, ⟨(), hRouter, (), hSome, l, hMint, rfl⟩, rfl, trivial⟩

end Router

/-- A deposit into a pool leaves the share token pointed at its router. -/
theorem Router.share_of_leg {user : Address} (hBack : Router.CallsBack user back)
    {f : Router.Frame} {m : Amount} {es : List (Address × Event)} {t : ShareToken}
    (hLeg : Ends (Router.depositIntoPool back f config a) c m c' es)
    (ht : c.contract? w.share = some (.share t)) :
    ∃ t', c'.contract? w.share = some (.share t') ∧ t'.router = t.router := by
  obtain ⟨_, rfl, hFlow⟩ := hLeg.after (Router.after_depositIntoPool hBack)
  have hFace := face?_of_outline? (hFlow.outline? w.share)
  simp only [face?, ht, Option.map_some, Option.map_eq_some_iff] at hFace
  obtain ⟨y, hy, hSame⟩ := hFace
  simp only [Contract.face, Prod.mk.injEq] at hSame
  cases y <;> cases hSame.1
  exact ⟨_, hy, by simpa [Contract.links] using hSame.2⟩

section Chosen

variable [back.Adds] (h : w.Open c s) {pools : List Pool.Snapshot}
  (hPools : Router.snapshots s .deposit c = .ok pools)
  (hChosen : ((Pool.Ranking.depositPool pools).bind fun i => s.registry.toList[i]?) = some config)

include h hPools hChosen

/-- The router takes a user's stable, and puts it into the pool that it has chosen. -/
theorem Router.ends_handleDeposit {u : Unit} {es : List (Address × Event)} :
    Ends (handleDeposit back ⟨w.router, w.share, []⟩ payer a n receiver) c u c' es ↔
      s.paused = false ∧ (a ≠ 0 ∧ n ≠ 0) ∧
        requireWithinCap ⟨w.router, w.router, []⟩ a c = .ok () ∧ ∃ c₁ m es',
        c.Moves w.stable (.transferFrom w.router payer w.router a) c₁ ∧
        Ends (depositIntoPool back ⟨w.router, w.router, [w.router]⟩ config a) c₁ m c' es' ∧
        es' ++ [(w.router, .deposited payer receiver config.pool a m)] = es := by
  obtain ⟨hStable, -, hToken⟩ := h.complete.links h.router
  obtain ⟨stable, hUnit⟩ := h.complete.stable
  -- What is taken changes nothing but the stable token, so the router still chooses the same pool.
  have hLater : ∀ c₁, c.Moves w.stable (.transferFrom w.router payer w.router a) c₁ →
      snapshots s .deposit c₁ = .ok pools := fun c₁ hPull =>
    (h.fixedRate.snapshots_frame h.complete h.router hUnit (by simp [Contract.kind]) fun _ =>
      hPull.frame).trans hPools
  have hCap : requireWithinCap ⟨w.router, w.share, [w.router]⟩ a =
      requireWithinCap ⟨w.router, w.router, []⟩ a := requireWithinCap_congr rfl
  have hLeg : depositIntoPool back ⟨w.router, w.share, [w.router]⟩ config a =
      depositIntoPool back ⟨w.router, w.router, [w.router]⟩ config a :=
    depositIntoPool_congr rfl rfl
  simp only [handleDeposit_eq, ends_guarded, List.not_mem_nil, not_false_eq_true, true_and,
    ends_result_bind, ends_view_bind, ends_pullStable_bind, requireShareToken, State.requireRunning,
    ensure_eq_ok, hCap]
  constructor
  · rintro ⟨s', hs', _, hRuns, _, -, _, hSome, _, hWithin, s'', t, c₁, hs'', ht, hPull, hRest⟩
    obtain rfl : s = s' := storage_unique h.router hs'
    obtain rfl : s = s'' := storage_unique h.router hs''
    obtain rfl : w.stable = t := Option.some.inj (hStable.symm.trans ht)
    rw [ends_invest (hLater c₁ hPull) hChosen, hLeg] at hRest
    obtain ⟨m, es', hLeg, hEs⟩ := hRest
    exact ⟨hRuns, hSome, hWithin, c₁, m, es', hPull, hLeg, hEs⟩
  · rintro ⟨hRuns, hSome, hWithin, c₁, m, es', hPull, hEnds, hEs⟩
    refine ⟨s, h.router, (), hRuns, (), hToken, (), hSome, (), hWithin, s, w.stable, c₁, h.router,
      hStable, hPull, ?_⟩
    rw [ends_invest (hLater c₁ hPull) hChosen, hLeg]
    exact ⟨m, es', hEnds, hEs⟩

/-- A user's deposit invests in the pool that the router has chosen. -/
theorem ShareToken.ends_deposit : (∃ es, Ends (deposit back w.share payer a receiver) c n c' es) ↔
    w.Invests back s config payer receiver a n c c' := by
  obtain ⟨t, ht, hRouter⟩ := h.complete.share
  simp only [deposit, ends_entering, ends_view_bind, ends_result_bind, View.callee_eq_ok,
    ensure_eq_ok, known_eq_ok]
  constructor
  · rintro ⟨es, t', ht', _, hAmount, shares, hPrice, _, hShares, router, hTo, hRest⟩
    obtain rfl : t = t' := storage_unique ht ht'
    obtain rfl : w.router = router := Option.some.inj (hRouter.symm.trans hTo)
    obtain ⟨_, c₂, es₁, es₂, hDeposit, hMint, rfl⟩ := ends_bind.1 hRest
    obtain ⟨hRuns, -, hCap, c₁, m, es', hPull, hLeg, -⟩ :=
      (Router.ends_handleDeposit h hPools hChosen).1 hDeposit
    simp only [ends_update_bind, ends_pure, Result.bind_eq_ok] at hMint
    obtain ⟨t', _, ht', ⟨l, hMint, ⟨⟩⟩, rfl, rfl, rfl⟩ := hMint
    exact ⟨hRuns, hAmount, hShares, hCap, ⟨t, ht, hPrice⟩,
      c₁, m, c₂, es', t', l, hPull, hLeg, ht', hMint, rfl⟩
  · rintro ⟨hRuns, hAmount, hShares, hCap, ⟨t', ht', hPrice⟩,
      c₁, m, c₂, es', t₂, l, hPull, hLeg, ht₂, hMint, rfl⟩
    obtain rfl : t = t' := storage_unique ht ht'
    have hDeposit : Ends (Router.handleDeposit back ⟨w.router, w.share, []⟩ payer a n receiver) c ()
        c₂ (es' ++ [(w.router, .deposited payer receiver config.pool a m)]) :=
      (Router.ends_handleDeposit h hPools hChosen).2
        ⟨hRuns, ⟨hAmount, hShares⟩, hCap, c₁, m, es', hPull, hLeg, rfl⟩
    refine ⟨_, t, ht, (), hAmount, n, hPrice, (), hShares, w.router, hRouter,
      ends_bind.2 ⟨(), c₂, _, [], hDeposit, ?_, rfl⟩⟩
    simp only [ends_update_bind, ends_pure, Result.bind_eq_ok]
    exact ⟨t₂, _, ht₂, ⟨l, hMint, rfl⟩, trivial, rfl, trivial⟩

end Chosen

section Named

variable [back.Adds] (hBack : Router.CallsBack payer back) (h : w.Open c s)

include hBack h

theorem Router.ends_solverDeposit_one :
    (∃ es, Ends (solverDeposit back ⟨w.router, payer, [w.router]⟩ s [⟨config, a, 0⟩] 0 receiver) c n
      c' es) ↔ a ≠ 0 ∧ n ≠ 0 ∧ requireWithinCap ⟨w.router, w.router, []⟩ a c = .ok () ∧
      (∃ t, c.contract? w.share = some (.share t) ∧ t.sharesFor a c = .ok n) ∧
      ∃ c₁ m c₂ es t l, c.Moves w.stable (.transferFrom w.router payer w.router a) c₁ ∧
        Ends (depositIntoPool back ⟨w.router, w.router, [w.router]⟩ config a) c₁ m c₂ es ∧
        c₂.contract? w.share = some (.share t) ∧ t.ledger.mint receiver n = .ok l ∧
        c' = c₂.put w.share (.share { t with ledger := l }) := by
  obtain ⟨hStable, -, hToken⟩ := h.complete.links h.router
  obtain ⟨t, ht, hRouter⟩ := h.complete.share
  have hCap : requireWithinCap ⟨w.router, payer, [w.router]⟩ a =
      requireWithinCap ⟨w.router, w.router, []⟩ a := requireWithinCap_congr rfl
  have hLeg : depositIntoPool back ⟨w.router, payer, [w.router]⟩ config a =
      depositIntoPool back ⟨w.router, w.router, [w.router]⟩ config a :=
    depositIntoPool_congr rfl rfl
  have hIssuer : ∀ {c₁ c₂ m es}, c.Moves w.stable (.transferFrom w.router payer w.router a) c₁ →
      Ends (depositIntoPool back ⟨w.router, w.router, [w.router]⟩ config a) c₁ m c₂ es →
      ∃ t, c₂.contract? w.share = some (.share t) ∧ t.router = some w.router := by
    intro c₁ c₂ m es hPull hEnds
    obtain ⟨stable, hUnit⟩ := h.complete.stable
    have hOther : w.share ≠ w.stable := ne_of_contracts ht hUnit (by simp)
    obtain ⟨t', ht', hSame⟩ := share_of_leg hBack hEnds ((hPull.frame hOther).trans ht)
    exact ⟨t', ht', hSame.trans hRouter⟩
  simp only [solverDeposit, List.map_cons, List.map_nil, ends_result_bind, ends_view_bind,
    ends_pullStable_bind, Amount.sum_eq_ok, List.sum_cons, List.sum_nil, Nat.add_zero, ensure_eq_ok,
    known_eq_ok, hToken, List.length_singleton]
  constructor
  · rintro ⟨es, total, ⟨hRange, rfl⟩, _, hAmount, _, hWithin, token, ⟨⟩, shares, hPrice, _,
      hShares, _, -, s', stable, c₁, hs', ht', hPull, hRest⟩
    obtain rfl : s = s' := storage_unique h.router hs'
    obtain rfl : w.stable = stable := Option.some.inj (hStable.symm.trans ht')
    obtain ⟨_, c₂, es₁, es₂, hPurchases, hIssue, rfl⟩ := ends_bind.1 hRest
    obtain ⟨m, hEnds⟩ := ends_purchase_free.1 (ends_purchases_one.1 hPurchases)
    obtain ⟨t', l, ht', -, -, hMint, rfl, rfl, rfl⟩ := ends_issue.1 hIssue
    rw [hCap] at hWithin
    rw [hLeg] at hEnds
    exact ⟨hAmount, hShares, hWithin, ⟨t, ht, (ShareToken.previewDeposit_eq_ok ht).1 hPrice⟩,
      c₁, m, c₂, _, t', l, hPull, hEnds, ht', hMint, rfl⟩
  · rintro ⟨hAmount, hShares, hWithin, ⟨t', ht', hPrice⟩,
      c₁, m, c₂, es, t₂, l, hPull, hEnds, ht₂, hMint, rfl⟩
    obtain rfl : t = t' := storage_unique ht ht'
    obtain ⟨t', ht', hIssuer⟩ := hIssuer hPull hEnds
    obtain rfl : t₂ = t' := storage_unique ht₂ ht'
    have hPurchases : Ends ([(⟨config, a, 0⟩ : Purchase)].forM
        (purchase back ⟨w.router, payer, [w.router]⟩)) c₁ () c₂ es := by
      rw [ends_purchases_one, ends_purchase_free, hLeg]
      exact ⟨m, hEnds⟩
    rw [← hCap] at hWithin
    refine ⟨_, a, ⟨hPull.lt_bound, rfl⟩, (), hAmount, (), hWithin, w.share, rfl, n,
      (ShareToken.previewDeposit_eq_ok ht).2 hPrice, (), hShares, (), Nat.zero_le n, s, w.stable,
      c₁, h.router, hStable, hPull, ends_bind.2 ⟨(), c₂, es,
        [(w.router, .solverDeposit payer receiver a n 1)], hPurchases, ?_, rfl⟩⟩
    exact ends_issue.2 ⟨t₂, l, ht₂, hIssuer, hShares, hMint, rfl, rfl, rfl⟩

/-- A solver's deposit with one leg invests in the pool that the leg names. -/
theorem Router.ends_solverDepositByAssets (hSolver : s.roles.has Roles.solver payer = true)
    (hConfig : s.registry.require config.pool = .ok config)
    (hStatus : Direction.deposit.require config.status = .ok ()) :
    (∃ es, Ends (solverDepositByAssets back ⟨w.router, payer, []⟩ [⟨config.pool, a⟩] 0 receiver) c n
      c' es) ↔ w.Invests back s config payer receiver a n c c' := by
  simp only [solverDepositByAssets, ends_guarded, List.not_mem_nil, not_false_eq_true, true_and,
    ends_result_bind, State.requireRunning, Roles.requireRole, ensure_eq_ok]
  constructor
  · rintro ⟨es, s', hs', _, hRuns, _, -, parts, hParts, hRest⟩
    obtain rfl : s = s' := storage_unique h.router hs'
    obtain ⟨-, rfl⟩ := (resolveAll_singleton hConfig hStatus).1 hParts
    obtain ⟨hAmount, hShares, hCap, hPrice, hInvested⟩ :=
      (ends_solverDeposit_one hBack h).1 ⟨es, hRest⟩
    exact ⟨hRuns, hAmount, hShares, hCap, hPrice, hInvested⟩
  · rintro ⟨hRuns, hAmount, hShares, hCap, hPrice, hInvested⟩
    obtain ⟨es, hEnds⟩ :=
      (ends_solverDeposit_one hBack h).2 ⟨hAmount, hShares, hCap, hPrice, hInvested⟩
    exact ⟨es, s, h.router, (), hRuns, (), hSolver, _,
      (resolveAll_singleton hConfig hStatus).2 ⟨hAmount, rfl⟩, hEnds⟩

end Named

end Paths

namespace Chain

variable {c c' : Chain} {caller target : Address} {command : Command} {m : Exec Amount} {n : Amount}

/-- What is submitted to get an amount ends with one. -/
theorem answer_of_submit (hRun : command.run c.callback target caller = Answer.amount <$> m)
    {out : Outcome} (h : c.submit caller target command = .ok out) :
    ∃ n es, out.answer = .amount n ∧ Ends m c n out.chain es := by
  have hEnds := ends_of_submit h
  rw [hRun, ends_map] at hEnds
  obtain ⟨n, hEnds, hAnswer⟩ := hEnds
  exact ⟨n, out.events, hAnswer.symm, hEnds⟩

theorem submit_amount_of_ends (hRun : command.run c.callback target caller = Answer.amount <$> m)
    {es : List (Address × Event)} (h : Ends m c n c' es) :
    ∃ out, c.submit caller target command = .ok out ∧ out.answer = .amount n ∧ out.chain = c' := by
  have hEnds : Ends (command.run c.callback target caller) c (.amount n) c' es := by
    rw [hRun, ends_map]
    exact ⟨n, h, rfl⟩
  obtain ⟨marks, hCall⟩ := submit_of_ends hEnds
  exact ⟨_, hCall, rfl, rfl⟩

/-- If two calls for an amount come to the same, both are refused, or both give the same amount and
leave the same chain. -/
theorem submits_agree {caller' target' : Address} {command' : Command} {m' : Exec Amount}
    (hRun : command.run c.callback target caller = Answer.amount <$> m)
    (hRun' : command'.run c.callback target' caller' = Answer.amount <$> m')
    (hSame : ∀ n c', (∃ es, Ends m c n c' es) ↔ ∃ es, Ends m' c n c' es) :
    (∃ e e', c.submit caller target command = .error e ∧
      c.submit caller' target' command' = .error e') ∨
    ∃ out out' n, c.submit caller target command = .ok out ∧
      c.submit caller' target' command' = .ok out' ∧ out.answer = .amount n ∧
      out'.answer = .amount n ∧ out'.chain = out.chain := by
  cases hCall : c.submit caller target command with
  | ok out =>
    obtain ⟨n, es, hAnswer, hEnds⟩ := answer_of_submit hRun hCall
    obtain ⟨es', hEnds'⟩ := (hSame n out.chain).1 ⟨es, hEnds⟩
    obtain ⟨out', hCall', hAnswer', hChain⟩ := submit_amount_of_ends hRun' hEnds'
    exact .inr ⟨out, out', n, rfl, hCall', hAnswer, hAnswer', hChain⟩
  | error e =>
    cases hCall' : c.submit caller' target' command' with
    | ok out' =>
      obtain ⟨n, es, -, hEnds⟩ := answer_of_submit hRun' hCall'
      obtain ⟨es', hEnds'⟩ := (hSame n out'.chain).2 ⟨es, hEnds⟩
      obtain ⟨out, hOk, -⟩ := submit_amount_of_ends hRun hEnds'
      rw [hCall] at hOk
      cases hOk
    | error e' => exact .inl ⟨e, e', rfl, rfl⟩

end Chain

/-- Whoever has called whatever before, a solver that deposits into the pool which the router would
pick gets what it would get as a user: both calls are refused, or both mint the same number of
shares and leave every contract the same. -/
theorem Reachable.solver_deposits_as_user {w : Wiring} {c : Chain} (hRun : Reachable c)
    (hComplete : w.Complete c) (hBuilt : w.router ∉ c.blank) (hPools : w.FixedRatePools c)
    {depositor : Digest}
    (hSolver : (c.routing w.router).roles.has Roles.solver (.account depositor) = true)
    {pool : Address} (hNext : Router.nextDepositPool w.router c = .ok (some pool)) (assets : Amount)
    (receiver : Address) :
    (∃ e e',
      c.submit (.account depositor) w.share (.share (.deposit assets receiver)) = .error e ∧
      c.submit (.account depositor) w.router
        (.router (.solverDepositByAssets [⟨pool, assets⟩] 0 receiver)) = .error e') ∨
    ∃ out out' minted,
      c.submit (.account depositor) w.share (.share (.deposit assets receiver)) = .ok out ∧
      c.submit (.account depositor) w.router
        (.router (.solverDepositByAssets [⟨pool, assets⟩] 0 receiver)) = .ok out' ∧
      out.answer = .amount minted ∧ out'.answer = .amount minted ∧ out'.chain = out.chain := by
  obtain ⟨s, hs, -⟩ := hComplete.router
  have hOpen : w.Open c s := ⟨hComplete, hs, (hRun.governed hs hBuilt).sound, hPools⟩
  rw [routing_of hs] at hSolver
  obtain ⟨pools, config, hSnapshots, hChosen, rfl, hConfig, hStatus⟩ :=
    Router.nextDepositPool_spec hOpen hNext
  have hBack : Router.CallsBack (.account depositor) c.callback := Router.callsBack_nested _ _
  refine submits_agree rfl rfl fun n c' => ?_
  rw [ShareToken.ends_deposit hOpen hSnapshots hChosen,
    Router.ends_solverDepositByAssets hBack hOpen hSolver hConfig hStatus]

/-- Of two pools, the router would pick the second, which has nothing yet. A solver deposits 30
there by either way, when 50 shares are worth 40. -/
theorem Reachable.solver_deposits_as_user_invested : ∃ c out out',
    Reachable c ∧ Standard.places.Complete c ∧ Standard.router ∉ c.blank ∧
      Standard.places.FixedRatePools c ∧
      (c.routing Standard.router).roles.has Roles.solver (.account 1) = true ∧
      Router.nextDepositPool Standard.router c = .ok (some (.ofNumber 6)) ∧
      c.submit (.account 1) Standard.share (.share (.deposit 30 (.account 2))) = .ok out ∧
      c.submit (.account 1) Standard.router (.router (.solverDepositByAssets
        [⟨.ofNumber 6, 30⟩] 0 (.account 2))) = .ok out' ∧
      out.answer = .amount 37 ∧ out'.answer = .amount 37 ∧ out'.chain = out.chain := by
  have hEnd : (Standard.places.follow {} (Standard.pooled 0 1
      { admin := .account 0 } 1_500_000_000_000_000_000 100 ++
      [.call 0 Standard.router (.router (.grantRole Roles.solver (.account 1))),
        .call 1 Standard.router
          (.router (.solverDepositByAssets [⟨Standard.pool, 50⟩] 0 (.account 1))),
        .call 0 Standard.router (.router (.recordShortfall 9)),
        .call 0 Standard.router (.router (.updatePoolTarget Standard.pool 500_000)),
        .deploy 0 (.fixedRate (.account 0) Standard.stable Standard.custody rateScale),
        .call 0 Standard.router (.router (.registerAdapter (.ofNumber 6) (.ofNumber 6))),
        .call 0 Standard.router (.router (.addPool (.ofNumber 6) 500_000))])).any (fun c =>
      Standard.places.completes c && (c.submit (.account 1) Standard.share (.share
        (.deposit 30 (.account 2)))).toOption.any fun out =>
          decide (Standard.places.FixedRatePools c) &&
            (c.routing Standard.router).roles.has Roles.solver (.account 1) &&
            (Router.nextDepositPool Standard.router c).toOption == some (some (.ofNumber 6)) &&
            out.answer.amount? == some 37) = true := by decide +kernel
  obtain ⟨c, out, hRun, hComplete, hCall, hHolds⟩ := Wiring.exists_submit hEnd
  simp only [Bool.and_eq_true, decide_eq_true_eq, beq_iff_eq] at hHolds
  obtain ⟨⟨⟨hPools, hSolver⟩, hNext⟩, hAnswer⟩ := hHolds
  have hPick := Result.of_toOption hNext
  have hMinted := Answer.of_amount? hAnswer
  have hReachable := hRun.reachable
  have hBuilt : Standard.router ∉ c.blank := hRun.kept.constructed _ (by decide)
  have hSplit := solver_deposits_as_user hReachable hComplete hBuilt hPools hSolver hPick 30
    (.account 2)
  rcases hSplit with ⟨e, -, hRefused, -⟩ |
    ⟨out₁, out', n, hUser, hAsSolver, hAnswer₁, hAnswer', hChain⟩
  · have hBoth := hCall.symm.trans hRefused
    cases hBoth
  · obtain rfl : out = out₁ := Except.ok.inj (hCall.symm.trans hUser)
    obtain rfl : 37 = n := Answer.amount.inj (hMinted.symm.trans hAnswer₁)
    exact ⟨c, out, out', hReachable, hComplete, hBuilt, hPools, hSolver, hPick, hCall, hAsSolver,
      hAnswer₁, hAnswer', hChain⟩

end Treasury
