import Treasury.Proofs.Effect
import Treasury.Proofs.Registries
import Treasury.Router.Governance

/-! What admins decide about a router. A decision replaces the storage of the router, and what the
router has to see to before it does is a premise here. Only a new pool involves another contract:
custody counts its shares from then on. -/
namespace Treasury

open Exec Chain

namespace Pool

/-- A target is a part of the whole, and only an active pool has one. -/
structure Config.Fit (config : Config) : Prop where
  whole : config.target ≤ weightScale
  idle : config.status ≠ .active → config.target = 0

/-- A config after a change of its target or of where the pool is in its life. -/
structure Config.Evolves (old new : Config) : Prop where
  pool : new.pool = old.pool
  adapter : new.adapter = old.adapter
  status : new.status = old.status ∨ old.status.canBecome new.status = true
  fit : old.Fit → new.Fit

theorem Config.Evolves.refl (config : Config) : config.Evolves config := ⟨rfl, rfl, .inl rfl, id⟩

@[simp] theorem Status.acceptsDeposits_eq_true {status : Status} :
    status.acceptsDeposits = true ↔ status = .active := by cases status <;> simp [acceptsDeposits]

/-- A suspended pool stays so. -/
theorem Config.Evolves.suspended {old new : Config} (h : old.Evolves new)
    (hSuspended : old.status = .suspended) : new.status = .suspended := by
  rcases h.status with hSame | hMove
  · exact hSame.trans hSuspended
  · rw [hSuspended] at hMove
    generalize new.status = status at hMove
    cases status <;> first | rfl | cases hMove

/-- A pool that is or may be deposited into gets a target. -/
theorem Config.Evolves.targeted {config : Config} {target : Nat} (hWhole : target ≤ weightScale)
    (hEligible : target = 0 ∨ config.status = .active) : config.Evolves { config with target } :=
  ⟨rfl, rfl, .inl rfl, fun _ => ⟨hWhole, fun hIdle => hEligible.resolve_right hIdle⟩⟩

/-- Each target of a table is a part of the total. -/
theorem Target.le_total {t : Target} {table : List Target} (h : t ∈ table) :
    t.target ≤ Target.total table := by
  induction table with
  | nil => cases h
  | cons first rest ih =>
    change t.target ≤ first.target + Target.total rest
    rcases List.mem_cons.1 h with rfl | hRest
    · exact Nat.le_add_right _ _
    · exact Nat.le_trans (ih hRest) (Nat.le_add_left _ _)

end Pool

/-- The router's storage after a change that leaves pools and adapters in place. -/
structure Router.Amended (s s' : Router.State) : Prop where
  stable : s'.stable = s.stable
  custody : s'.custody = s.custody
  shareToken : s'.shareToken = s.shareToken
  registry : s.registry.Sound → s.registry.Tracks Pool.Config.Evolves s'.registry
  fee : s'.withdrawalFee = s.withdrawalFee ∨ s'.withdrawalFee ≤ maxWithdrawalFee

/-- The router's storage after a change of parameters, records or roles. -/
theorem Router.Amended.of_registry {s s' : Router.State} (hStable : s'.stable = s.stable)
    (hCustody : s'.custody = s.custody) (hShare : s'.shareToken = s.shareToken)
    (hRegistry : s'.registry = s.registry)
    (hFee : s'.withdrawalFee = s.withdrawalFee ∨ s'.withdrawalFee ≤ maxWithdrawalFee) :
    Router.Amended s s' :=
  ⟨hStable, hCustody, hShare, fun hSound => by
    rw [hRegistry]
    exact .refl hSound .refl, hFee⟩

/-- An admin gives a role or takes one away, or someone gives one up. -/
inductive Roles.Ruled (user : Address) (r : Roles) : Roles → Prop where
  | granted {role : Nat} {account : Address} {r' : Roles}
      (h : r.grant user role account = .ok r') : Ruled user r r'
  | revoked {role : Nat} {account : Address} {r' : Roles}
      (h : r.revoke user role account = .ok r') : Ruled user r r'
  | renounced {role : Nat} {r' : Roles} (h : r.renounce user role = .ok r') : Ruled user r r'

/-- What an admin may decide about a router by itself. -/
inductive Router.Decides (c : Chain) (s : Router.State) : Router.State → Prop where
  | shortfall (shortfall : Amount) : Decides c s { s with shortfall }
  | depositCap (depositCap : Amount) : Decides c s { s with depositCap }
  | dustTolerance {dustTolerance : Amount} (h : dustTolerance ≤ maxDustTolerance) :
      Decides c s { s with dustTolerance }
  | reinvestIncentive {reinvestIncentive : Nat} (h : reinvestIncentive ≤ maxReinvestIncentive) :
      Decides c s { s with reinvestIncentive }
  | withdrawalFee {withdrawalFee : Nat} (h : withdrawalFee ≤ maxWithdrawalFee) :
      Decides c s { s with withdrawalFee }
  | maxPoolCount {maxPoolCount : Nat} (hHard : maxPoolCount ≤ hardMaxPoolCount)
      (hSome : maxPoolCount ≠ 0) (hRoom : s.registry.size ≤ maxPoolCount) :
      Decides c s { s with maxPoolCount }
  | unpaused (h : s.paused = true) : Decides c s { s with paused := false }
  /-- Fees are to be reinvested in an active pool that is bound to its adapter, or nowhere. -/
  | defaultPool {defaultPool : Option Address}
      (h : ∀ pool, defaultPool = some pool → ∃ config k, s.registry.get? pool = some config ∧
        config.status = .active ∧ s.custody = some k ∧
          Custody.boundAdapter k pool c = .ok (some config.adapter)) :
      Decides c s { s with defaultPool }
  /-- A pool gets a target. -/
  | targeted {pool : Address} {target : Nat} {config : Pool.Config} {registry : Pool.Registry}
      (hGet : s.registry.get? pool = some config) (hWhole : target ≤ weightScale)
      (hEligible : target = 0 ∨ config.status.acceptsDeposits = true)
      (hUpdate : s.registry.update { config with target } = .ok registry) :
      Decides c s { s with registry }
  /-- All pools get targets that make up the whole. -/
  | replaced {targets : List Pool.Target} {configs : List Pool.Config} {registry : Pool.Registry}
      (hLength : targets.length = s.registry.size)
      (hConfigs : retarget s.registry [] targets = .ok configs)
      (hWhole : Pool.Target.total targets = weightScale)
      (hUpdate : configs.foldlM Pool.Registry.update s.registry = .ok registry) :
      Decides c s { s with registry }
  /-- An impaired pool is active again. -/
  | resumed {pool : Address} {config : Pool.Config} {registry : Pool.Registry}
      (hGet : s.registry.get? pool = some config)
      (hMove : config.status.canBecome .active = true)
      (hUpdate : s.registry.update { config with status := .active } = .ok registry) :
      Decides c s { s with registry }
  /-- A pool is active no longer. It has no target and is not the default pool. -/
  | stopped {pool : Address} {status : Pool.Status} {config : Pool.Config}
      {registry : Pool.Registry} (hGet : s.registry.get? pool = some config)
      (hMove : config.status.canBecome status = true) (hStatus : status ≠ .active)
      (hUpdate : s.registry.update { config with status, target := 0 } = .ok registry) :
      Decides c s { s with
        registry, defaultPool := if s.defaultPool = some pool then none else s.defaultPool }

/-- A decision about the router at `a`. -/
inductive Chain.Governs (user a : Address) (c : Chain) : Chain → Prop where
  | decided {s s' : Router.State} (hRouter : c.contract? a = some (.router s))
      (hAdmin : s.roles.has Roles.admin user = true) (h : Router.Decides c s s') :
      Governs user a c (c.put a (.router s'))
  | ranked {s : Router.State} {roles : Roles} (hRouter : c.contract? a = some (.router s))
      (h : s.roles.Ruled user roles) : Governs user a c (c.put a (.router { s with roles }))
  /-- A router registers a pool and has its shares counted. -/
  | added {k pool adapter : Address} {target : Nat} {s : Router.State} {q q' : Custody}
      {registry : Pool.Registry} (hRouter : c.contract? a = some (.router s))
      (hAdmin : s.roles.has Roles.admin user = true) (hWhole : target ≤ weightScale)
      (hRoom : s.registry.size < s.maxPoolCount) (hKeeper : s.custody = some k)
      (hCustody : c.contract? k = some (.custody q)) (hBound : q.adapter? pool = some adapter)
      (hPush : s.registry.push { pool, adapter, target, status := .active } = .ok registry)
      (hSupport : q.support a pool = .ok q') :
      Governs user a c ((c.put a (.router { s with registry })).put k (.custody q'))
  /-- A router takes a pool off its registry that is suspended and given up. -/
  | removed {k pool : Address} {s : Router.State} {q : Custody} {config : Pool.Config}
      {registry : Pool.Registry} (hRouter : c.contract? a = some (.router s))
      (hAdmin : s.roles.has Roles.admin user = true) (hKeeper : s.custody = some k)
      (hCustody : c.contract? k = some (.custody q)) (hUnbound : q.adapter? pool = none)
      (hGet : s.registry.get? pool = some config) (hStatus : config.status = .suspended)
      (hRemove : s.registry.swapRemove pool = .ok (config, registry)) :
      Governs user a c (c.put a (.router { s with registry }))

/-- The roles that a contract keeps, if it keeps any. -/
def Contract.roles? : Contract → Option Roles
  | roles r => some r
  | router s => some s.roles
  | _ => none

/-- All contracts keep the roles that they kept. -/
def Chain.SameRoles (c c' : Chain) : Prop :=
  ∀ a, (c'.contract? a).map Contract.roles? = (c.contract? a).map Contract.roles?

/-- A decision about the router at `a` that leaves roles as they are. -/
structure Chain.Decrees (user a : Address) (c c' : Chain) : Prop where
  governs : c.Governs user a c'
  roles : c.SameRoles c'

/-- A decision that the router at `a` keeps to itself: no other contract is changed. -/
structure Chain.Orders (user a : Address) (c c' : Chain) : Prop extends c.Decrees user a c' where
  alone : ∃ s s', c.contract? a = some (.router s) ∧ c' = c.put a (.router s')

namespace Custody

variable {c : Chain} {k : Address} {q : Custody}

theorem isSupported_eq (hq : c.contract? k = some (.custody q)) (pool : Address) :
    isSupported k pool c = .ok (q.supports pool) :=
  View.bind_eq_ok.2 ⟨q, View.callee_eq_ok.2 hq, rfl⟩

theorem boundAdapter_eq (hq : c.contract? k = some (.custody q)) (pool : Address) :
    boundAdapter k pool c = .ok (q.adapter? pool) :=
  View.bind_eq_ok.2 ⟨q, View.callee_eq_ok.2 hq, rfl⟩

end Custody

namespace Router

variable {s s' : State} {c : Chain}

/-- The configs that a table of targets leads to are those of the registry with new targets. -/
theorem retarget_spec {r : Pool.Registry} {targets : List Pool.Target} {seen : List Address}
    {configs : List Pool.Config} (h : retarget r seen targets = .ok configs) :
    ∀ new ∈ configs, ∃ t ∈ targets, ∃ old, r.get? t.pool = some old ∧
      new = { old with target := t.target } ∧ (t.target = 0 ∨ old.status = .active) := by
  induction targets generalizing seen configs with
  | nil =>
    cases h
    simp
  | cons t rest ih =>
    simp only [retarget, Result.bind_eq_ok, ensure_eq_ok, Pool.Registry.require_eq_ok,
      Pool.Status.acceptsDeposits_eq_true] at h
    obtain ⟨_, _, config, hGet, _, hEligible, tail, hTail, ⟨⟩⟩ := h
    intro new hNew
    rcases List.mem_cons.1 hNew with rfl | hNew
    · exact ⟨t, List.mem_cons_self, config, hGet, rfl, hEligible⟩
    · obtain ⟨t', ht', hFound⟩ := ih hTail new hNew
      exact ⟨t', List.mem_cons_of_mem _ ht', hFound⟩

/-- All pools get targets that make up the whole. -/
theorem tracks_replaced {R : Pool.Config → Pool.Config → Prop} {r r' : Pool.Registry}
    {targets : List Pool.Target} {configs : List Pool.Config} (hSound : r.Sound)
    (hRefl : ∀ config, R config config)
    (hTarget : ∀ t ∈ targets, ∀ old : Pool.Config, t.target = 0 ∨ old.status = .active →
      R old { old with target := t.target })
    (hConfigs : retarget r [] targets = .ok configs)
    (hUpdate : configs.foldlM Pool.Registry.update r = .ok r') : r.Tracks R r' := by
  refine .foldlM (.refl hSound hRefl) hSound (fun new hNew => ?_) hUpdate
  obtain ⟨t, ht, old, hOld, rfl, hEligible⟩ := retarget_spec hConfigs new hNew
  exact ⟨t.pool, old, hOld, rfl, hTarget t ht old hEligible⟩

/-- A decision leaves pools and adapters in place. -/
theorem Decides.amended (h : Decides c s s') : Amended s s' := by
  cases h with
  | shortfall | depositCap | dustTolerance | reinvestIncentive | maxPoolCount | unpaused
  | defaultPool => exact .of_registry rfl rfl rfl rfl (.inl rfl)
  | withdrawalFee hLimit => exact .of_registry rfl rfl rfl rfl (.inr hLimit)
  | @targeted pool target config _ hGet hWhole hEligible hUpdate =>
    refine ⟨rfl, rfl, rfl, fun hSound => ?_, .inl rfl⟩
    rw [Pool.Status.acceptsDeposits_eq_true] at hEligible
    have hEvolves : config.Evolves { config with target } := .targeted hWhole hEligible
    exact (Pool.Registry.Tracks.refl hSound .refl).update hSound hGet hEvolves.pool
      hEvolves hUpdate
  | replaced _ hConfigs hWhole hUpdate =>
    refine ⟨rfl, rfl, rfl, fun hSound => ?_, .inl rfl⟩
    refine tracks_replaced hSound .refl (fun t ht old hEligible => ?_) hConfigs hUpdate
    exact .targeted (hWhole ▸ Pool.Target.le_total ht) hEligible
  | @resumed pool config _ hGet hMove hUpdate =>
    refine ⟨rfl, rfl, rfl, fun hSound => ?_, .inl rfl⟩
    have hEvolves : config.Evolves { config with status := .active } :=
      ⟨rfl, rfl, .inr hMove, fun hFit => ⟨hFit.whole, fun hIdle => absurd rfl hIdle⟩⟩
    exact (Pool.Registry.Tracks.refl hSound .refl).update hSound hGet hEvolves.pool
      hEvolves hUpdate
  | @stopped pool status config _ hGet hMove _ hUpdate =>
    refine ⟨rfl, rfl, rfl, fun hSound => ?_, .inl rfl⟩
    have hEvolves : config.Evolves { config with status, target := 0 } :=
      ⟨rfl, rfl, .inr hMove, fun _ => ⟨Nat.zero_le _, fun _ => rfl⟩⟩
    exact (Pool.Registry.Tracks.refl hSound .refl).update hSound hGet hEvolves.pool
      hEvolves hUpdate

end Router

namespace Chain.Governs

variable {user a : Address} {c c' : Chain}

/-- What depends neither on what admins decide about a router nor on which pools are counted is the
same after a decision. -/
theorem map {α : Type} (h : c.Governs user a c') {F : Contract → α}
    (hDecides : ∀ s s', Router.Decides c s s' → F (.router s') = F (.router s))
    (hRoles : ∀ s roles, F (.router { s with roles }) = F (.router s))
    (hRegistry : ∀ s registry, F (.router { s with registry }) = F (.router s))
    (hSupported : ∀ q supported, F (.custody { q with supported }) = F (.custody q))
    (b : Address) : (c'.contract? b).map F = (c.contract? b).map F := by
  cases h with
  | decided hRouter _ h => exact map_put hRouter (hDecides _ _ h) b
  | ranked hRouter => exact map_put hRouter (hRoles _ _) b
  | removed hRouter => exact map_put hRouter (hRegistry _ _) b
  | added hRouter _ _ _ _ hCustody _ _ hSupport =>
    obtain ⟨-, -, rfl⟩ := Custody.support_spec hSupport
    have hNe := (Router.custody_ne_router hCustody hRouter).symm
    refine (map_put (contract?_put_other hNe hCustody) (hSupported _ _) b).trans ?_
    exact map_put hRouter (hRegistry _ _) b

theorem same (h : c.Governs user a c') (b : Address) :
    c'.kind? b = c.kind? b ∧ c'.books? b = c.books? b :=
  kind_books_of_map
    (h.map (fun _ _ _ => rfl) (fun _ _ => rfl) (fun _ _ => rfl) (fun _ _ => rfl) b)

theorem blank (h : c.Governs user a c') : c'.blank = c.blank := by
  cases h <;> rfl

end Chain.Governs

theorem Router.Decides.roles {c : Chain} {s s' : Router.State} (h : Router.Decides c s s') :
    s'.roles = s.roles := by
  cases h <;> rfl

namespace Chain

variable {user a k pool : Address} {c : Chain} {s s' : Router.State} {q q' : Custody}
  {registry : Pool.Registry}

theorem Orders.decided (hRouter : c.contract? a = some (.router s))
    (hAdmin : s.roles.has Roles.admin user = true) (h : Router.Decides c s s') :
    c.Orders user a (c.put a (.router s')) where
  governs := .decided hRouter hAdmin h
  roles := map_put hRouter (congrArg some h.roles)
  alone := ⟨s, s', hRouter, rfl⟩

theorem Orders.removed {config : Pool.Config} (hRouter : c.contract? a = some (.router s))
    (hAdmin : s.roles.has Roles.admin user = true) (hKeeper : s.custody = some k)
    (hCustody : c.contract? k = some (.custody q)) (hUnbound : q.adapter? pool = none)
    (hGet : s.registry.get? pool = some config) (hStatus : config.status = .suspended)
    (hRemove : s.registry.swapRemove pool = .ok (config, registry)) :
    c.Orders user a (c.put a (.router { s with registry })) where
  governs := .removed hRouter hAdmin hKeeper hCustody hUnbound hGet hStatus hRemove
  roles := map_put hRouter (by rfl)
  alone := ⟨s, _, hRouter, rfl⟩

theorem Decrees.added {adapter : Address} {target : Nat}
    (hRouter : c.contract? a = some (.router s)) (hAdmin : s.roles.has Roles.admin user = true)
    (hWhole : target ≤ weightScale) (hRoom : s.registry.size < s.maxPoolCount)
    (hKeeper : s.custody = some k)
    (hCustody : c.contract? k = some (.custody q)) (hBound : q.adapter? pool = some adapter)
    (hPush : s.registry.push { pool, adapter, target, status := .active } = .ok registry)
    (hSupport : q.support a pool = .ok q') :
    c.Decrees user a ((c.put a (.router { s with registry })).put k (.custody q')) := by
  refine ⟨.added hRouter hAdmin hWhole hRoom hKeeper hCustody hBound hPush hSupport, fun b => ?_⟩
  have hNe := (Router.custody_ne_router hCustody hRouter).symm
  exact (map_put (contract?_put_other hNe hCustody) (by rfl) b).trans (map_put hRouter (by rfl) b)

end Chain

end Treasury
