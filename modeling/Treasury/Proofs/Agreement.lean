import Treasury.Proofs.Service

/-! The router and its custody contract agree about pools. What counts as value is registered and
valued through the adapter that the router uses, and every registered pool that is not suspended
counts as value. -/
namespace Treasury

open Exec Chain

namespace Contract

/-- The router's storage, or that of a fresh router. -/
def routing : Contract → Router.State
  | router s => s
  | _ => {}

/-- The custody contract's storage, or that of a fresh one. -/
def keeping : Contract → Custody
  | custody q => q
  | _ => {}

theorem routing_bare (x : Contract) : x.bare.routing = x.routing := by cases x <;> rfl

theorem keeping_bare (x : Contract) : x.bare.keeping = x.keeping := by cases x <;> rfl

end Contract

namespace Chain

/-- The storage of the router at an address. Where none stands yet it is that of a fresh one. -/
def routing (c : Chain) (a : Address) : Router.State :=
  ((c.contract? a).map Contract.routing).getD {}

/-- The storage of the custody contract at an address. Where none stands yet it is that of a fresh
one. -/
def keeping (c : Chain) (a : Address) : Custody := ((c.contract? a).map Contract.keeping).getD {}

variable {c c' : Chain} {a b : Address} {old new : Contract}

theorem routing_of {s : Router.State} (h : c.contract? a = some (.router s)) :
    c.routing a = s := by rw [routing, h]; rfl

theorem keeping_of {q : Custody} (h : c.contract? a = some (.custody q)) :
    c.keeping a = q := by rw [keeping, h]; rfl

theorem routing_put (hOld : c.contract? a = some old) (hSame : new.routing = old.routing)
    (b : Address) : (c.put a new).routing b = c.routing b := by
  rw [routing, map_put hOld hSame, routing]

theorem keeping_put (hOld : c.contract? a = some old) (hSame : new.keeping = old.keeping)
    (b : Address) : (c.put a new).keeping b = c.keeping b := by
  rw [keeping, map_put hOld hSame, keeping]

theorem Alike.routing (h : Alike c c') (a : Address) : c'.routing a = c.routing a := by
  rw [Chain.routing, h.map Contract.routing_bare, Chain.routing]

end Chain

/-- What a flow leaves of a router is all but fees and whether it runs. -/
theorem Flow.routing {user : Address} {c c' : Chain} (h : Flow user c c') {α : Type}
    {G : Router.State → α} (hFees : ∀ s fees, G { s with fees } = G s)
    (hPaused : ∀ s, G { s with paused := true } = G s) (a : Address) :
    G (c'.routing a) = G (c.routing a) := by
  have hMap := h.map (F := fun x => G x.routing) (fun x => by rw [Contract.routing_bare])
    hFees hPaused a
  have hGet := congrArg (fun o => o.getD (G {})) hMap
  simpa only [Chain.routing, ← Option.getD_map, Option.map_map, Function.comp_def] using hGet

/-- A router and its custody contract agree. -/
structure Agree (c : Chain) (s : Router.State) (q : Custody) : Prop where
  registry : s.registry.Sound
  supported : q.supported.Sound
  counted : ∀ p, q.supports p = true →
    ∃ config, s.registry.get? p = some config ∧ q.adapter? p = some config.adapter
  live : ∀ p config, s.registry.get? p = some config → config.status ≠ .suspended →
    q.supports p = true
  bound : ∀ p config x, s.registry.get? p = some config → q.adapter? p = some x →
    x = config.adapter
  served : ∀ p x, q.adapter? p = some x → c.Serves x p
  fee : s.withdrawalFee ≤ maxWithdrawalFee

namespace Agree

variable {c c' : Chain} {s s' : Router.State} {q q' : Custody} {pool adapter : Address}

theorem fresh (c : Chain) : Agree c {} {} where
  registry := Pool.Registry.sound_empty
  supported := Roster.sound_empty
  counted p h := by simp [Custody.supports, Roster.contains] at h
  live p config h := by simp [Pool.Registry.get?_empty] at h
  bound p config x _ h := by simp [Custody.adapter?] at h
  served p x h := by simp [Custody.adapter?] at h
  fee := Nat.zero_le _

theorem mono (h : Agree c s q) (hServes : ∀ x p, c.Serves x p → c'.Serves x p) : Agree c' s q :=
  { h with served := fun p x hx => hServes x p (h.served p x hx) }

theorem custody (h : Agree c s q) (hSupported : q'.supported = q.supported)
    (hAdapters : q'.adapters = q.adapters) : Agree c s q' where
  registry := h.registry
  supported := hSupported ▸ h.supported
  counted p hp := by
    rw [Custody.supports, hSupported] at hp
    rw [Custody.adapter?, hAdapters]
    exact h.counted p hp
  live p config hGet hStatus := by
    rw [Custody.supports, hSupported]
    exact h.live p config hGet hStatus
  bound p config x hGet hx := by
    rw [Custody.adapter?, hAdapters] at hx
    exact h.bound p config x hGet hx
  served p x hx := by
    rw [Custody.adapter?, hAdapters] at hx
    exact h.served p x hx
  fee := h.fee

theorem router (h : Agree c s q) (hRegistry : s.registry.Tracks Pool.Config.Evolves s'.registry)
    (hFee : s'.withdrawalFee ≤ maxWithdrawalFee) : Agree c s' q := by
  refine ⟨hRegistry.sound, h.supported, fun p hp => ?_, fun p config hGet hStatus => ?_,
    fun p config x hGet hx => ?_, h.served, hFee⟩
  · obtain ⟨old, hOld, hAdapter⟩ := h.counted p hp
    obtain ⟨new, hNew, hEvolves⟩ := hRegistry.each p old hOld
    exact ⟨new, hNew, hEvolves.adapter ▸ hAdapter⟩
  · obtain ⟨old, hOld, hEvolves⟩ := hRegistry.before hGet
    exact h.live p old hOld fun hSuspended => hStatus (hEvolves.suspended hSuspended)
  · obtain ⟨old, hOld, hEvolves⟩ := hRegistry.before hGet
    rw [hEvolves.adapter]
    exact h.bound p old x hOld hx

/-- Nothing that the agreement is about has changed in the router. -/
theorem unchanged (h : Agree c s q) (hRegistry : s'.registry = s.registry)
    (hFee : s'.withdrawalFee = s.withdrawalFee) : Agree c s' q := by
  apply h.router _ (hFee ▸ h.fee)
  rw [hRegistry]
  exact .refl h.registry .refl

theorem amended (h : Agree c s q) (hAmended : Router.Amended s s') : Agree c s' q := by
  apply h.router (hAmended.registry h.registry)
  rcases hAmended.fee with hSame | hWithin
  · rw [hSame]
    exact h.fee
  · exact hWithin

/-- A pool without an adapter does not count as value. -/
theorem idle (h : Agree c s q) (hFree : q.adapter? pool = none) : q.supports pool ≠ true := by
  intro hSupports
  obtain ⟨config, -, hAdapter⟩ := h.counted pool hSupports
  rw [hFree] at hAdapter
  cases hAdapter

/-- A pool without an adapter may get one. -/
theorem binds (h : Agree c s q) (hFree : q.adapter? pool = none)
    (hPool : Strategy.poolId adapter c = .ok pool) (hRebinds : Router.Rebinds pool adapter s s') :
    Agree c s' { q with adapters := q.adapters.write pool (some adapter) } := by
  have hIdle := h.idle hFree
  obtain ⟨hSound, hGet, hFee, hAt⟩ : s'.registry.Sound ∧
      (∀ p, p ≠ pool → s'.registry.get? p = s.registry.get? p) ∧
        s'.withdrawalFee = s.withdrawalFee ∧
          ∀ config, s'.registry.get? pool = some config →
            config.adapter = adapter ∧ config.status = .suspended := by
    cases hRebinds with
    | unknown hNone =>
      exact ⟨h.registry, fun _ _ => rfl, rfl, fun config hConfig => by simp [hNone] at hConfig⟩
    | @known config registry hConfig hUpdate =>
      have hKey : config.pool = pool := h.registry.keyed pool config hConfig
      have hAll := Pool.Registry.get?_update h.registry hUpdate
      refine ⟨h.registry.update hUpdate, fun p hp => ?_, rfl, fun new hNew => ?_⟩
      · rw [hAll, if_neg (by rw [hKey]; exact hp)]
      · rw [hAll, if_pos hKey.symm] at hNew
        cases hNew
        exact ⟨rfl, Classical.byContradiction fun hLive => hIdle (h.live pool config hConfig hLive)⟩
  refine ⟨hSound, h.supported, fun p hp => ?_, fun p config hConfig hLive => ?_,
    fun p config x hConfig hx => ?_, fun p x hx => ?_, hFee ▸ h.fee⟩
  · have hNe : p ≠ pool := by
      rintro rfl
      exact hIdle hp
    rw [hGet p hNe, Custody.adapter?, Table.read_write_of_ne _ _ hNe]
    exact h.counted p hp
  · by_cases hp : p = pool
    · subst hp
      exact absurd (hAt config hConfig).2 hLive
    · rw [hGet p hp] at hConfig
      exact h.live p config hConfig hLive
  · by_cases hp : p = pool
    · subst hp
      rw [Custody.adapter?, Table.read_write_self] at hx
      cases hx
      exact (hAt config hConfig).1.symm
    · rw [hGet p hp] at hConfig
      rw [Custody.adapter?, Table.read_write_of_ne _ _ hp] at hx
      exact h.bound p config x hConfig hx
  · by_cases hp : p = pool
    · subst hp
      rw [Custody.adapter?, Table.read_write_self] at hx
      cases hx
      exact .inl (Strategy.poolId_eq_ok.1 hPool)
    · rw [Custody.adapter?, Table.read_write_of_ne _ _ hp] at hx
      exact h.served p x hx

/-- A pool that is wound down need not count as value. -/
theorem unsupported (h : Agree c s q) {supported : Roster}
    (hWound : ∀ config, s.registry.get? pool = some config → config.status = .suspended)
    (hSupports : q.supports pool = true) (hRemove : q.supported.swapRemove pool = .ok supported) :
    Agree c s { q with supported } := by
  have hMember : ∀ p, supported.contains p = true ↔ q.supports p = true ∧ p ≠ pool :=
    fun p => Roster.contains_swapRemove h.supported hSupports hRemove
  refine ⟨h.registry, h.supported.swapRemove hSupports hRemove, fun p hp => ?_,
    fun p config hConfig hLive => ?_, h.bound, h.served, h.fee⟩
  · exact h.counted p ((hMember p).1 hp).1
  · refine (hMember p).2 ⟨h.live p config hConfig hLive, ?_⟩
    rintro rfl
    exact hLive (hWound config hConfig)

theorem unbound (h : Agree c s q) {caller : Address} (hUnbind : q.unbind caller pool = .ok q') :
    Agree c s q' := by
  obtain ⟨-, hIdle, rfl⟩ := Custody.unbind_spec hUnbind
  -- What is still bound was bound before.
  have hBefore : ∀ p x, (q.adapters.write pool none).read p = some x → q.adapter? p = some x := by
    intro p x hx
    rw [Table.read_write] at hx
    split at hx
    · cases hx
    · exact hx
  refine ⟨h.registry, h.supported, fun p hp => ?_, h.live,
    fun p config x hConfig hx => h.bound p config x hConfig (hBefore p x hx),
    fun p x hx => h.served p x (hBefore p x hx), h.fee⟩
  have hNe : p ≠ pool := by
    rintro rfl
    rw [Custody.supports] at hp hIdle
    rw [hIdle] at hp
    cases hp
  rw [Custody.adapter?, Table.read_write_of_ne _ _ hNe]
  exact h.counted p hp

/-- A new pool is registered with the adapter that it is bound to, and counts as value. -/
theorem added (h : Agree c s q) {caller : Address} {target : Nat} {registry : Pool.Registry}
    (hBound : q.adapter? pool = some adapter)
    (hPush : s.registry.push { pool, adapter, target, status := .active } = .ok registry)
    (hSupport : q.support caller pool = .ok q') : Agree c { s with registry } q' := by
  have hGet := Pool.Registry.get?_push h.registry hPush
  obtain ⟨-, hIdle, rfl⟩ := Custody.support_spec hSupport
  refine ⟨h.registry.push hPush, h.supported.push hIdle, fun p hp => ?_,
    fun p config hConfig hLive => ?_, fun p config x hConfig hx => ?_, h.served, h.fee⟩
  · rw [hGet]
    split
    · next hp =>
      subst hp
      exact ⟨_, rfl, hBound⟩
    · next hNe =>
      rw [Custody.supports, Roster.contains_push, decide_eq_false hNe, Bool.false_or] at hp
      exact h.counted p hp
  · rw [hGet] at hConfig
    rw [Custody.supports, Roster.contains_push]
    split at hConfig
    · next hp => simp [hp]
    · rw [Bool.or_eq_true]
      exact .inr (h.live p config hConfig hLive)
  · rw [hGet] at hConfig
    split at hConfig
    · next hp =>
      subst hp
      cases hConfig
      exact Option.some.inj (hx.symm.trans hBound)
    · exact h.bound p config x hConfig hx

/-- A pool without an adapter does not count as value, so it may be taken off the registry. -/
theorem removed (h : Agree c s q) {config : Pool.Config} {registry : Pool.Registry}
    (hUnbound : q.adapter? pool = none)
    (hRemove : s.registry.swapRemove pool = .ok (config, registry)) :
    Agree c { s with registry } q := by
  have hGet := Pool.Registry.get?_swapRemove h.registry hRemove
  -- What is still registered was registered before.
  have hBefore : ∀ p found, registry.get? p = some found → s.registry.get? p = some found := by
    intro p found hFound
    rw [hGet] at hFound
    split at hFound
    · cases hFound
    · exact hFound
  refine ⟨h.registry.swapRemove hRemove, h.supported, fun p hp => ?_,
    fun p found hFound => h.live p found (hBefore p found hFound),
    fun p found x hFound => h.bound p found x (hBefore p found hFound), h.served, h.fee⟩
  obtain ⟨found, hFound, hAdapter⟩ := h.counted p hp
  have hNe : p ≠ pool := by
    rintro rfl
    exact h.idle hUnbound hp
  exact ⟨found, by rw [hGet, if_neg hNe, hFound], hAdapter⟩

end Agree

end Treasury
