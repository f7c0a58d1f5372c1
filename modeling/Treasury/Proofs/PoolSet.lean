import Treasury.Proofs.Governing

/-! Changes to the set of pools. They involve two contracts: a router, which keeps the registry, and
the custody contract that it knows, which keeps the adapters and counts value. Adapters come and go
as effects; that a pool comes or goes is a decision. -/
namespace Treasury

open Exec Chain

namespace Custody

variable {self caller pool adapter : Address} {w : World}

theorem after_bindAdapter :
    After (bindAdapter self caller pool adapter) w fun _ v =>
      ∃ q, w.chain.contract? self = some (.custody q) ∧ q.router = some caller ∧
        q.adapter? pool = none ∧ Strategy.poolId adapter w.chain = .ok pool ∧
        v.chain = w.chain.put self
          (.custody { q with adapters := q.adapters.write pool (some adapter) }) := by
  simp only [bindAdapter, requireRouter, after_entering, after_bind, after_view, after_result,
    View.callee_eq_ok, ensure_eq_ok, forall_const, after_update]
  rintro q hq hRouter hFree reported hReported rfl q' _ hq' ⟨⟩
  obtain rfl : q = q' := storage_unique hq hq'
  exact ⟨q, hq, hRouter, hFree, hReported, rfl⟩

theorem after_unbindAdapter :
    After (unbindAdapter self caller pool) w fun _ v =>
      ∃ q q', w.chain.contract? self = some (.custody q) ∧ q.unbind caller pool = .ok q' ∧
        v.chain = w.chain.put self (.custody q') := by
  exact after_amend fun q q' v hq hUnbind hv => ⟨q, q', hq, hUnbind, hv⟩

theorem after_supportPool :
    After (supportPool self caller pool) w fun _ v =>
      ∃ q q', w.chain.contract? self = some (.custody q) ∧ q.support caller pool = .ok q' ∧
        v.chain = w.chain.put self (.custody q') := by
  exact after_amend fun q q' v hq hSupport hv => ⟨q, q', hq, hSupport, hv⟩

/-- What is left of a pool is worth nothing, or dust. -/
def Negligible (q : Custody) (k pool : Address) (c : Chain) : Prop :=
  ∃ residual, held q k pool c = .ok residual ∧ (residual = 0 ∨ isDust q k residual c = .ok true)

/-- What a pool counts for no longer, or what is left of it is negligible and it is taken out. -/
inductive Uncounts (c : Chain) (caller k pool : Address) (q : Custody) : Custody → Prop where
  | idle (h : q.supports pool = false) : Uncounts c caller k pool q q
  | removed {supported : Roster} (hKnown : q.router = some caller)
      (hSupports : q.supports pool = true) (hRest : q.Negligible k pool c)
      (hRemove : q.supported.swapRemove pool = .ok supported) :
      Uncounts c caller k pool q { q with supported }

theorem after_unsupportPool :
    After (unsupportPool self caller pool) w fun _ v =>
      ∃ q supported, w.chain.contract? self = some (.custody q) ∧ q.router = some caller ∧
        q.supports pool = true ∧ q.Negligible self pool w.chain ∧
        q.supported.swapRemove pool = .ok supported ∧
        v.chain = w.chain.put self (.custody { q with supported }) := by
  simp only [unsupportPool, requireRouter, after_entering, after_bind, after_view, after_result,
    View.callee_eq_ok, ensure_eq_ok, forall_const]
  intro q hq hRouter hSupports residual hHeld
  have hRest : ∀ negligible : Bool, ∀ u : World, u.chain = w.chain →
      (negligible = true → q.Negligible self pool w.chain) →
      After (do
        ensure (negligible = true) Refusal.balanceAboveDust
        Exec.update self fun c : Custody => do
          pure { c with supported := ← c.supported.swapRemove pool }) u fun _ v =>
        ∃ q supported, w.chain.contract? self = some (.custody q) ∧ q.router = some caller ∧
          q.supports pool = true ∧ q.Negligible self pool w.chain ∧
          q.supported.swapRemove pool = .ok supported ∧
          v.chain = w.chain.put self (.custody { q with supported }) := by
    intro negligible u hu hLittle
    simp only [after_bind, after_result, ensure_eq_ok, forall_const, after_update, hu]
    intro hNegligible q' _ hq' hRemove
    obtain rfl : q = q' := storage_unique hq hq'
    obtain ⟨supported, hOut, ⟨⟩⟩ := Result.bind_eq_ok.1 hRemove
    exact ⟨q, supported, hq, hRouter, hSupports, hLittle hNegligible, hOut, rfl⟩
  split
  · next hNone =>
    exact after_bind.2 (after_pure.2 (hRest true _ rfl fun _ => ⟨residual, hHeld, .inl hNone⟩))
  · refine after_bind.2 (after_view.2 fun negligible hDust => ?_)
    refine hRest negligible _ rfl fun hTrue => ⟨residual, hHeld, .inr ?_⟩
    exact hTrue ▸ hDust

end Custody

namespace Router

variable {user : Address} {w : World} {f : Frame} {back : Callback} {pool : Address}

/-- A router keeps the config of a pool in step with the adapter that it was told. -/
theorem after_rebind {adapter : Address} {Q : Unit → World → Prop}
    (h : ∀ s s', w.chain.contract? f.self = some (.router s) → Rebinds pool adapter s s' →
      Q () { w with chain := w.chain.put f.self (.router s') }) :
    After (Exec.update f.self fun s : State =>
      match s.registry.get? pool with
      | none => pure s
      | some config => do
        pure { s with registry := ← s.registry.update { config with adapter } }) w Q := by
  rw [after_update]
  intro s s' hs hUpdate
  refine h s s' hs ?_
  cases hGet : s.registry.get? pool with
  | none =>
    simp only [hGet] at hUpdate
    cases hUpdate
    exact .unknown hGet
  | some config =>
    simp only [hGet] at hUpdate
    obtain ⟨registry, hKept, ⟨⟩⟩ := Result.bind_eq_ok.1 hUpdate
    exact .known hGet hKept

/-- A router has an adapter bound, by its custody contract or by another router in its place. -/
theorem after_registerAdapter {adapter : Address} (hBack : CallsBack user back)
    (hCaller : w.chain.Acts user f.caller) :
    After (registerAdapter back f pool adapter) w fun _ v =>
      Binds user pool adapter w.chain v.chain := by
  simp only [registerAdapter, requireAdmin, Roles.requireAdmin, Roles.requireRole, after_guarded,
    after_bind, after_view, after_result, View.contract_eq_ok, known_eq_ok, ensure_eq_ok,
    forall_const]
  intro s hs hFree hAdmin k hk x hx
  have hEntitled : w.chain.Entitled user s := ⟨f.caller, hCaller, hAdmin⟩
  split
  · next r =>
    simp only [after_bind]
    refine (hBack.bind _ _ pool adapter (acts_of_contract hs)).mono fun _ u hBinds => ?_
    refine after_rebind fun s₁ s' hStays hRebinds => ?_
    exact after_emit.2 (.relayed hs hk (kind?_of_contract? hx) hBinds hStays hRebinds hEntitled)
  · simp only [after_bind]
    refine Custody.after_bindAdapter.mono ?_
    intro _ u hBound
    obtain ⟨q, hq, hKnown, hFree, hPool, hu⟩ := hBound
    have hNe := custody_ne_router hq hs
    refine after_rebind fun s' t hs' hRebinds => ?_
    simp only [after_emit]
    rw [hu, contract?_put_other hNe hs, ← hs] at hs'
    obtain rfl : s = s' := storage_unique hs hs'
    rw [hu]
    exact .bound hs hk hq hKnown hFree hPool hRebinds hEntitled

/-- A router has its custody contract give up a pool that is wound down, or unknown to it. -/
inductive Discards (user a pool : Address) (c : Chain) : Chain → Prop where
  | intro {s : State} {k : Address} {q q₁ q' : Custody} (hRouter : c.contract? a = some (.router s))
      (hAdmin : s.roles.has Roles.admin user = true)
      (hWound : ∀ config, s.registry.get? pool = some config →
        config.status = .suspended ∧ config.target = 0)
      (hKeeper : s.custody = some k) (hCustody : c.contract? k = some (.custody q))
      (hUncounts : q.Uncounts c a k pool q₁) (hUnbind : q₁.unbind a pool = .ok q') :
      Discards user a pool c (c.put k (.custody q'))

/-- To give a pool up is to change settings of a custody contract. -/
theorem Discards.settled {a : Address} {c c' : Chain} (h : Discards user a pool c c') :
    Settled user c c' := by
  obtain @⟨s, k, q, q₁, q', hRouter, hAdmin, hWound, hKeeper, hCustody, hUncounts, hUnbind⟩ := h
  have hSuspended := fun config hGet => (hWound config hGet).1
  cases hUncounts with
  | idle => exact .step .refl (.released hRouter hKeeper hCustody hSuspended (.inr hUnbind) hAdmin)
  | @removed supported hKnown hSupports hRest hRemove =>
    have hNe := custody_ne_router hCustody hRouter
    have hFirst : Settled user c (c.put _ (.custody { q with supported })) :=
      .step .refl (.released hRouter hKeeper hCustody hSuspended
        (.inl ⟨supported, hKnown, hSupports, hRemove, rfl⟩) hAdmin)
    rw [← put_put c (.custody { q with supported })]
    exact hFirst.step (.released (contract?_put_other hNe hRouter) hKeeper
      (contract?_put_self _ hCustody) hSuspended (.inr hUnbind) hAdmin)

/-- What a router does once it has found that it may give a pool up. -/
theorem after_release {s : State} {k adapter : Address} {q : Custody}
    (hRouter : w.chain.contract? f.self = some (.router s))
    (hAdmin : s.roles.has Roles.admin f.caller = true)
    (hWound : ∀ config, s.registry.get? pool = some config →
      config.status = .suspended ∧ config.target = 0)
    (hKeeper : s.custody = some k) (hCustody : w.chain.contract? k = some (.custody q)) :
    After (do
      if q.supports pool = true then
        Custody.unsupportPool k f.self pool
      Custody.unbindAdapter k f.self pool
      Exec.emit f.self (.adapterRemoved pool adapter)) w fun _ v =>
        Discards f.caller f.self pool w.chain v.chain := by
  have hUnbind : ∀ q₁ : Custody, ∀ u : World, q.Uncounts w.chain f.self k pool q₁ →
      u.chain.contract? k = some (.custody q₁) →
      (∀ x, u.chain.put k x = w.chain.put k x) →
      After (Custody.unbindAdapter k f.self pool) u fun _ v =>
        Discards f.caller f.self pool w.chain v.chain := by
    intro q₁ u hUncounts hq₁ hPut
    refine Custody.after_unbindAdapter.mono fun _ v hUnbound => ?_
    obtain ⟨q₂, q', hq₂, hUnbind, hv⟩ := hUnbound
    obtain rfl : q₁ = q₂ := storage_unique hq₁ hq₂
    rw [hv, hPut]
    exact .intro hRouter hAdmin hWound hKeeper hCustody hUncounts hUnbind
  split
  · simp only [after_bind, after_emit]
    refine Custody.after_unsupportPool.mono fun _ u hUnsupported => ?_
    obtain ⟨q₂, supported, hq₂, hKnown, hSupports, hRest, hRemove, hu⟩ := hUnsupported
    obtain rfl : q = q₂ := storage_unique hCustody hq₂
    exact hUnbind _ u (.removed hKnown hSupports hRest hRemove)
      (hu ▸ contract?_put_self _ hCustody) fun x => by rw [hu, put_put]
  · next hIdle =>
    simp only [after_bind, after_emit]
    exact hUnbind q w (.idle (Bool.eq_false_iff.2 hIdle)) hCustody fun _ => rfl

theorem after_removeAdapter :
    After (removeAdapter f pool) w fun _ v => Discards f.caller f.self pool w.chain v.chain := by
  simp only [removeAdapter, requireAdmin, Roles.requireAdmin, Roles.requireRole, after_guarded]
  intro s hs _
  refine after_bind.2 (after_result.2 fun _ hAllowed => ?_)
  have hAdmin : s.roles.has Roles.admin f.caller = true := ensure_eq_ok.1 hAllowed
  cases hGet : s.registry.get? pool
  case' none =>
    have hWound : ∀ config, s.registry.get? pool = some config →
        config.status = .suspended ∧ config.target = 0 := by simp [hGet]
  case' some config =>
    refine after_bind.2 (after_result.2 fun _ hEnded => ?_)
    have hWound : ∀ config, s.registry.get? pool = some config →
        config.status = .suspended ∧ config.target = 0 := by
      simpa [hGet] using ensure_eq_ok.1 hEnded
  -- From here on it makes no difference whether the pool is registered.
  all_goals
    simp only [after_bind, after_view, after_result, known_eq_ok]
    intro k hk bound hBound
    obtain ⟨q, hq, -⟩ := View.bind_eq_ok.1 hBound
    rw [View.callee_eq_ok] at hq
    cases bound with
    | none => simp only [refuse, after_result, reduceCtorEq, false_implies, implies_true]
    | some adapter =>
      refine after_bind.2 (after_view.2 fun isSupported hSupported => ?_)
      rw [Custody.isSupported_eq hq] at hSupported
      cases hSupported
      exact after_release hs hAdmin hWound hk hq

theorem after_addPool {target : Nat} :
    After (addPool f pool target) w fun _ v => w.chain.Decrees f.caller f.self v.chain := by
  simp only [addPool, requireAdmin, Roles.requireAdmin, Roles.requireRole, after_guarded,
    after_bind, after_view, after_result, ensure_eq_ok, forall_const, known_eq_ok]
  intro s hs _ hAdmin hWhole hRoom k hk bound hBound
  obtain ⟨q, hq, hBound⟩ := View.bind_eq_ok.1 hBound
  rw [View.callee_eq_ok] at hq
  cases bound with
  | none => simp only [refuse, after_result, reduceCtorEq, false_implies, implies_true]
  | some adapter =>
    simp only [after_bind, after_view, after_result, ensure_eq_ok, forall_const, store, after_put,
      after_emit]
    rintro reported _ _ registry hPush
    have hNe := (custody_ne_router hq hs).symm
    refine Custody.after_supportPool.mono fun _ u hSupported => ?_
    obtain ⟨q', q'', hq', hSupport, hu⟩ := hSupported
    rw [contract?_put_other hNe hq, ← hq] at hq'
    obtain rfl : q = q' := storage_unique hq hq'
    rw [hu]
    have hAdapter : q.adapter? pool = some adapter := by simpa using hBound
    exact .added hs hAdmin hWhole hRoom hk hq hAdapter hPush hSupport

theorem after_removePool :
    After (removePool f pool) w fun _ v => w.chain.Orders f.caller f.self v.chain := by
  simp only [removePool, requireAdmin, Roles.requireAdmin, Roles.requireRole, after_guarded,
    after_bind, after_view, after_result, ensure_eq_ok, forall_const, known_eq_ok,
    Pool.Registry.require_eq_ok, store, after_put, after_emit]
  rintro s hs _ hAdmin config hGet hStatus k hk bound hBound rfl ⟨removed, registry⟩ hRemove
  obtain ⟨q, hq, hBound⟩ := View.bind_eq_ok.1 hBound
  rw [View.callee_eq_ok] at hq
  have hUnbound : q.adapter? pool = none := by simpa using hBound
  have hSame : removed = config :=
    Option.some.inj ((Pool.Registry.get?_of_swapRemove hRemove).symm.trans hGet)
  exact .removed hs hAdmin hk hq hUnbound hGet hStatus (hSame ▸ hRemove)

end Router

end Treasury
