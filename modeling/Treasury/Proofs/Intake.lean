import Treasury.Proofs.Legs
import Treasury.Proofs.Pricing

/-! What deposits take in. A payer's stable is taken within the cap and put into pools, and shares
are issued for it. -/
namespace Treasury

open Exec Chain

/-- A deposit is only begun if the cap leaves room for it. -/
theorem Router.requireWithinCap_spec {f : Frame} {c : Chain} {s : State} {n : Amount}
    (hs : c.contract? f.self = some (.router s)) (h : requireWithinCap f n c = .ok ()) :
    s.depositCap ≠ 0 → ∃ nav, totalManagedAssets f.self c = .ok nav ∧ nav + n ≤ s.depositCap := by
  intro hCap
  simp only [requireWithinCap, View.bind_eq_ok, View.load_eq_ok] at h
  obtain ⟨s', hs', h⟩ := h
  obtain rfl : s = s' := storage_unique hs hs'
  rw [if_neg hCap] at h
  simp only [View.bind_eq_ok, View.lift_apply, Amount.add_eq_ok, ensure_eq_ok] at h
  obtain ⟨nav, hNav, _, ⟨-, rfl⟩, hRoom⟩ := h
  exact ⟨nav, hNav, hRoom⟩

namespace Wiring

/-- A payer's stable is taken in, within the deposit cap, and all managed value is found first. -/
structure TakesIn (w : Wiring) (s : Router.State) (q : Custody) (payer : Address)
    (taken loss : Nat) (c c' : Chain) : Prop where
  conserves : w.Conserves q.supported.toList taken 0 loss c c'
  paid : c'.balance w.stable payer + taken = c.balance w.stable payer
  room : s.depositCap ≠ 0 →
    ∃ nav, Router.totalManagedAssets w.router c = .ok nav ∧ nav + taken ≤ s.depositCap

variable {w : Wiring} {s : Router.State} {q : Custody} {payer : Address} {taken loss : Nat}
  {c c₁ c₂ c' : Chain}

/-- Whoever is no contract is not the router. -/
theorem Stands.payer_ne (h : w.Stands c s q) (hPayer : c.kind? payer = none) :
    payer ≠ w.router :=
  ne_of_contract? h.router hPayer

/-- What has been taken is converted. -/
theorem Stands.takesIn (h : w.Stands c s q) {n : Amount} (hPayer : c.kind? payer = none)
    (hRoom : s.depositCap ≠ 0 →
      ∃ nav, Router.totalManagedAssets w.router c = .ok nav ∧ nav + n ≤ s.depositCap)
    (hMove : c.Moves w.stable (.transferFrom w.router payer w.router n) c₁)
    (hConverts : w.Converts payer q.supported.toList loss c₁ c') :
    w.TakesIn s q payer n loss c c' := by
  obtain ⟨hTaken, hPaid⟩ := h.fixed.conserves_take (h.payer_ne hPayer) hMove
  refine ⟨hTaken.then_converts hConverts, ?_, hRoom⟩
  rw [hConverts.outside payer (by rw [hMove.alike.kind?, hPayer]), hPaid]

/-- The allowances of the router are left as they are while it takes stable in. -/
theorem Stands.reserved_of_move (h : w.Stands c s q) {m : Token.Move} {t : Address}
    (hMove : c.Moves t m c₁) (hGrants : ∀ owner x n, m ≠ .approve owner x n) (b spender : Address)
    (hKind : c₁.kind? b ≠ some .ledger) : c₁.allowance b w.router spender = 0 := by
  rw [hMove.alike.kind?] at hKind
  have hLess : c₁.allowance b w.router spender ≤ c.allowance b w.router spender :=
    hMove.allowance_le fun owner x n hApprove => absurd hApprove (hGrants owner x n)
  rw [h.reserved b spender hKind] at hLess
  exact Nat.le_zero.1 hLess

/-- Shares are issued for what has been taken in. -/
theorem TakesIn.put (h : w.TakesIn s q payer taken loss c c₁) (hFixed : w.Fixed c q) {a : Address}
    {old new : Contract} (hOld : c₁.contract? a = some old) (hFace : new.face = old.face)
    (hKind : old.kind = .share ∨ old.kind = .router) :
    w.TakesIn s q payer taken loss c (c₁.put a new) := by
  obtain ⟨hPut, -, hSame⟩ := (h.conserves.steady.fixed hFixed).conserves_put new hOld hFace
    hKind
  exact ⟨h.conserves.then_same hPut, by rw [hSame, h.paid], h.room⟩

end Wiring

namespace Router

variable {wiring : Wiring} {w : World} {f : Frame} {back : Callback} {q : Custody} {s : State}
  {initiator receiver : Address}

/-- A user's deposit is taken in by trades alone. -/
theorem after_handleDeposit_takesIn {assets shares : Amount} (h : wiring.Stands w.chain s q)
    (hSelf : f.self = wiring.router) (hPayer : w.chain.kind? initiator = none) :
    After (handleDeposit back f initiator assets shares receiver) w fun _ v =>
      Trade initiator w.chain v.chain ∧
        ∃ pool minted,
          (wiring.router, .deposited initiator receiver pool assets minted) ∈ v.events ∧
          wiring.TakesIn s q initiator assets (w.chain.units [pool]) w.chain v.chain := by
  obtain ⟨hStable, -⟩ := h.fixed.complete.links h.router
  simp only [handleDeposit, after_guarded, after_bind, after_view, after_result, ensure_eq_ok,
    State.requireRunning, requireShareToken, forall_const, pullStable, View.load_eq_ok,
    known_eq_ok]
  intro s' hs' _ _ _ _ _ hCap s'' hs'' stable hst
  obtain rfl : s = s' := storage_unique h.router (hSelf ▸ hs')
  obtain rfl : s = s'' := storage_unique h.router (hSelf ▸ hs'')
  obtain rfl : wiring.stable = stable := Option.some.inj (hStable.symm.trans hst)
  have hRoom := requireWithinCap_spec (f := ⟨f.self, f.caller, f.self :: f.locked⟩) hs' hCap
  refine Token.after_transferFrom.mono fun _ u hMove pools hPools => ?_
  split
  · simp only [refuse, reduceCtorEq, after_result, false_implies, implies_true]
  · next config hConfig =>
    simp only [after_bind, after_emit]
    obtain ⟨i, hPick, hAt⟩ := Option.bind_eq_some_iff.1 hConfig
    have hGet := h.agree.registry.get?_of_mem (List.mem_of_getElem? hAt)
    obtain ⟨found, hFound, hEligible⟩ := Pool.Ranking.depositPool_eligible hPick
    have hCounts := h.counts hGet (admits_of_snapshots hPools hFound hEligible hAt)
    rw [hSelf] at hMove
    have hFixed : wiring.Fixed u.chain q :=
      (Wiring.Steady.of_alike hMove.alike).fixed h.fixed
    refine After.mono (after_depositIntoPool_converts initiator hFixed (by exact hSelf) hCounts
      (h.adapter_eq hGet) (h.reserved_of_move hMove (by simp))) ?_
    intro minted v hConverts
    have hPull : Trade initiator w.chain u.chain :=
      .collected ((acts_user _ _).payer wiring.router) (by simp [kind?_of_contract? h.router]) hMove
    rw [hMove.alike.rate] at hConverts
    refine ⟨hPull.trans hConverts.trade, config.pool, minted, by simp [hSelf],
      h.takesIn hPayer (hSelf ▸ hRoom) hMove ?_⟩
    rw [units_singleton]
    exact hConverts

/-- The legs of a solver's deposit are filled one after the other, and shares are issued for the
whole. -/
theorem after_solverDeposit_takesIn {purchases : List Purchase} {minShares : Amount}
    (h : wiring.Stands w.chain s q) (hSelf : f.self = wiring.router)
    (hPayer : w.chain.kind? f.caller = none)
    (hKnown : ∀ p ∈ purchases, s.registry.get? p.config.pool = some p.config ∧
      p.config.status.acceptsDeposits = true) :
    After (solverDeposit back f s purchases minShares receiver) w fun _ v =>
      ∃ total nav, Amount.sum (purchases.map Purchase.pay) = .ok total ∧
        totalManagedAssets wiring.router w.chain = .ok nav ∧
        wiring.TakesIn s q f.caller total (w.chain.units (purchases.map fun p => p.config.pool))
          w.chain v.chain := by
  obtain ⟨hStable, -, hShare⟩ := h.fixed.complete.links h.router
  simp only [solverDeposit, after_bind, after_view, after_result, ensure_eq_ok, forall_const,
    known_eq_ok, after_emit, after_pure, pullStable, View.load_eq_ok]
  intro total hTotal _ _ hCap token hToken shares hQuote _ _ s' hs' stable hst
  obtain rfl : s = s' := storage_unique h.router (hSelf ▸ hs')
  obtain rfl : wiring.stable = stable := Option.some.inj (hStable.symm.trans hst)
  obtain rfl : wiring.share = token := Option.some.inj (hShare.symm.trans hToken)
  obtain ⟨nav, hNav⟩ := h.fixed.complete.managed_of_previewDeposit hQuote
  have hRoom := requireWithinCap_spec hs' hCap
  rw [hSelf] at hRoom
  refine Token.after_transferFrom.mono fun _ u hMove => ?_
  rw [hSelf] at hMove
  have hFixed : wiring.Fixed u.chain q := (Wiring.Steady.of_alike hMove.alike).fixed h.fixed
  refine After.mono (after_purchases_converts hFixed hSelf (h.payer_ne hPayer).symm
    (fun p hp => ?_)
    (h.reserved_of_move hMove (by simp))) ?_
  · obtain ⟨hGet, hStatus⟩ := hKnown p hp
    have hCounts := h.counts hGet hStatus
    exact ⟨hCounts, h.adapter_eq hGet hCounts⟩
  intro _ v hConverts
  rw [units_congr hMove.alike.rate] at hConverts
  have hTaken := h.takesIn hPayer hRoom hMove hConverts
  refine ShareToken.after_mintFor_moves.mono ?_
  rintro _ v' ⟨t, l, hOld, -, -, hv⟩
  rw [hv]
  exact ⟨total, nav, hTotal, hNav, hTaken.put h.fixed hOld (by rfl) (.inl (by rfl))⟩

theorem purchasesOfShares_spec {c : Chain} {parts : List Part} {purchases : List Purchase}
    (h : purchasesOfShares parts c = .ok purchases) :
    purchases.map Purchase.config = parts.map Part.config := by
  rw [purchasesOfShares] at h
  induction parts generalizing purchases with
  | nil =>
    rw [List.mapM_nil] at h
    cases h
    rfl
  | cons part rest ih =>
    simp only [List.mapM_cons, View.bind_eq_ok, View.pure_apply, Except.ok.injEq] at h
    obtain ⟨_, ⟨pay, -, rfl⟩, tail, hTail, rfl⟩ := h
    rw [List.map_cons, List.map_cons, ih hTail]

variable {legs : List Pool.Leg} {minShares : Amount}

/-- What a solver's deposit takes, whichever way the legs are named. -/
theorem after_solverDeposit_legs {purchases : List Purchase} {parts : List Part}
    (h : wiring.Stands w.chain s q) (hSelf : f.self = wiring.router)
    (hPayer : w.chain.kind? f.caller = none)
    (hParts : resolveAll s.registry .deposit legs = .ok parts)
    (hPurchases : purchases.map Purchase.config = parts.map Part.config) :
    After (solverDeposit back f s purchases minShares receiver) w fun _ v =>
      ∃ total nav, Amount.sum (purchases.map Purchase.pay) = .ok total ∧
        totalManagedAssets wiring.router w.chain = .ok nav ∧
        wiring.TakesIn s q f.caller total (w.chain.units (legs.map Pool.Leg.pool)) w.chain
          v.chain := by
  obtain ⟨hLegs, hKnown⟩ := resolveAll_spec h.agree.registry hParts
  have hPools : purchases.map (fun p => p.config.pool) = legs.map Pool.Leg.pool := by
    have hMap := congrArg (List.map Pool.Config.pool) hPurchases
    rw [List.map_map, List.map_map] at hMap
    rw [← hLegs, List.map_map]
    exact hMap
  rw [← hPools]
  apply after_solverDeposit_takesIn h hSelf hPayer
  intro p hp
  have hMem : p.config ∈ parts.map Part.config := hPurchases ▸ List.mem_map_of_mem hp
  obtain ⟨part, hPart, hSame⟩ := List.mem_map.1 hMem
  obtain ⟨hGet, hStatus⟩ := hKnown part hPart
  rw [hSame] at hGet hStatus
  exact ⟨hGet, ensure_eq_ok.1 hStatus⟩

theorem after_solverDepositByAssets_takesIn (h : wiring.Stands w.chain s q)
    (hSelf : f.self = wiring.router) (hPayer : w.chain.kind? f.caller = none) :
    After (solverDepositByAssets back f legs minShares receiver) w fun _ v =>
      ∃ nav, totalManagedAssets wiring.router w.chain = .ok nav ∧
        wiring.TakesIn s q f.caller (Pool.Leg.total legs)
          (w.chain.units (legs.map Pool.Leg.pool)) w.chain v.chain := by
  simp only [solverDepositByAssets, after_guarded, State.requireRunning, Roles.requireRole,
    after_bind, after_result, ensure_eq_ok, forall_const]
  intro s' hs' _ _ _ parts hParts
  obtain rfl : s = s' := storage_unique h.router (hSelf ▸ hs')
  obtain ⟨hLegs, -⟩ := resolveAll_spec h.agree.registry hParts
  refine After.mono (after_solverDeposit_legs (by exact h) (by exact hSelf) (by exact hPayer) hParts
    (by rw [purchasesOfAssets, List.map_map]; rfl)) ?_
  rintro _ v ⟨total, nav, hTotal, hNav, hTaken⟩
  have hPays : (purchasesOfAssets parts).map Purchase.pay = legs.map Pool.Leg.amount := by
    rw [← hLegs, purchasesOfAssets, List.map_map, List.map_map]
    rfl
  rw [hPays, Pool.Leg.sum_eq_ok] at hTotal
  exact ⟨nav, hNav, hTotal.2 ▸ hTaken⟩

theorem after_solverDepositByShares_takesIn (h : wiring.Stands w.chain s q)
    (hSelf : f.self = wiring.router) (hPayer : w.chain.kind? f.caller = none) :
    After (solverDepositByShares back f legs minShares receiver) w fun _ v =>
      ∃ total nav, totalManagedAssets wiring.router w.chain = .ok nav ∧
        wiring.TakesIn s q f.caller total (w.chain.units (legs.map Pool.Leg.pool)) w.chain
          v.chain := by
  simp only [solverDepositByShares, after_guarded, State.requireRunning, Roles.requireRole,
    after_bind, after_view, after_result, ensure_eq_ok, forall_const]
  intro s' hs' _ _ _ parts hParts purchases hPurchases
  obtain rfl : s = s' := storage_unique h.router (hSelf ▸ hs')
  refine After.mono (after_solverDeposit_legs (by exact h) (by exact hSelf) (by exact hPayer) hParts
    (purchasesOfShares_spec hPurchases)) ?_
  rintro _ v ⟨total, nav, -, hNav, hTaken⟩
  exact ⟨total, nav, hNav, hTaken⟩

end Router

/-- A user's deposit is priced by the backing, taken in, and paid for in shares. -/
theorem ShareToken.after_deposit_takesIn {wiring : Wiring} {w : World} {back : Router.Callback}
    {s : Router.State} {q : Custody} {caller receiver : Address} {assets : Amount}
    (h : wiring.Stands w.chain s q) (hPayer : w.chain.kind? caller = none) :
    After (ShareToken.deposit back wiring.share caller assets receiver) w fun _ v =>
      ∃ pool minted nav,
        (wiring.router, .deposited caller receiver pool assets minted) ∈ v.events ∧
        Router.totalManagedAssets wiring.router w.chain = .ok nav ∧
        wiring.TakesIn s q caller assets (w.chain.units [pool]) w.chain v.chain := by
  obtain ⟨token, hToken, hKnown⟩ := h.fixed.complete.share
  simp only [ShareToken.deposit, after_entering, after_bind, after_view, after_result,
    View.callee_eq_ok, ensure_eq_ok, forall_const, known_eq_ok, after_update, after_pure]
  intro t hShare _ shares hShares _ router hRouter
  obtain rfl : token = t := storage_unique hToken hShare
  obtain rfl : wiring.router = router := Option.some.inj (hKnown.symm.trans hRouter)
  obtain ⟨b, hBacking⟩ := ShareToken.sharesFor_spec hShares
  obtain ⟨nav, hNav⟩ := h.fixed.complete.managed_of_backing hToken hBacking
  refine After.mono (Router.after_handleDeposit_takesIn (by exact h) (by rfl) (by exact hPayer)) ?_
  rintro _ v ⟨-, pool, minted, hEvent, hTaken⟩ t' t'' hOld hMint
  obtain ⟨l, -, ⟨⟩⟩ := Result.bind_eq_ok.1 hMint
  exact ⟨pool, minted, nav, hEvent, hNav,
    hTaken.put h.fixed hOld (by rfl) (.inl (by rfl))⟩

end Treasury
