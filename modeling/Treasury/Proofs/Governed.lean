import Treasury.Proofs.Agreement
import Treasury.Proofs.RoleCounts
import Treasury.Proofs.Settings

/-! What holds of a router whoever calls whatever. Each decision of an admin restores what holds of
the settings, and moves pools on in their lives only as it may. -/
namespace Treasury

open Exec Chain

/-- An active pool is active afterwards. -/
def Pool.Config.StaysActive (old new : Pool.Config) : Prop :=
  old.status = .active → new.status = .active

namespace Router

/-- What holds of a router that has been set up. -/
structure Governed (s : State) : Prop where
  sound : s.registry.Sound
  fit : ∀ pool config, s.registry.get? pool = some config → config.Fit
  default : ∀ pool, s.defaultPool = some pool →
    ∃ config, s.registry.get? pool = some config ∧ config.status = .active
  room : s.registry.size ≤ s.maxPoolCount
  limits : s.maxPoolCount ≠ 0 ∧ s.maxPoolCount ≤ hardMaxPoolCount
  fee : s.withdrawalFee ≤ maxWithdrawalFee
  incentive : s.reinvestIncentive ≤ maxReinvestIncentive
  tolerance : s.dustTolerance ≤ maxDustTolerance
  led : s.roles.Led

/-- What a step does to the pools of a router: they move on in their lives as they may, enter
active, and leave suspended, when they have been given up. -/
structure Progress (c : Chain) (s s' : State) : Prop where
  moves : ∀ pool old new, s.registry.get? pool = some old → s'.registry.get? pool = some new →
    new.status = old.status ∨ old.status.canBecome new.status = true
  enters : ∀ pool new, s.registry.get? pool = none → s'.registry.get? pool = some new →
    new.status = .active
  leaves : ∀ pool old, s.registry.get? pool = some old → s'.registry.get? pool = none →
    old.status = .suspended ∧
      ∃ k, s.custody = some k ∧ Custody.boundAdapter k pool c = .ok none

variable {c : Chain} {s s' : State} {r : Pool.Registry}

/-- A router that has just been set up. -/
theorem governed_of_construct {setup : Setup} (h : ({} : State).construct setup = .ok s') :
    Governed s' := by
  simp only [State.construct, Result.bind_eq_ok, ensure_eq_ok] at h
  obtain ⟨_, ⟨hFee, hIncentive, hTolerance, hSome, hHard⟩, roles, hRoles, ⟨⟩⟩ := h
  exact {
    sound := Pool.Registry.sound_empty
    fit := fun pool config hGet => by
      rw [Pool.Registry.get?_empty] at hGet
      cases hGet
    default := fun pool hPool => by cases hPool
    room := Nat.zero_le _
    limits := ⟨hSome, hHard⟩
    fee := hFee
    incentive := hIncentive
    tolerance := hTolerance
    led := Roles.led_of_found Roles.vacant_blank hRoles }

namespace Governed

/-- The default pool is active still if all active pools are. -/
theorem default_of_tracks (h : Governed s) (hTracks : s.registry.Tracks Pool.Config.StaysActive r)
    (pool : Address) (hPool : s.defaultPool = some pool) :
    ∃ config, r.get? pool = some config ∧ config.status = .active := by
  obtain ⟨old, hOld, hActive⟩ := h.default pool hPool
  obtain ⟨new, hNew, hStays⟩ := hTracks.each pool old hOld
  exact ⟨new, hNew, hStays hActive⟩

/-- The registry is replaced by one of the same pools, all of which fit. -/
theorem of_tracks (h : Governed s) (hTracks : s.registry.Tracks Pool.Config.Evolves r)
    {default : Option Address} (hDefault : ∀ pool, default = some pool →
      ∃ config, r.get? pool = some config ∧ config.status = .active) :
    Governed { s with registry := r, defaultPool := default } :=
  { h with
    sound := hTracks.sound
    fit := fun pool new hNew => by
      obtain ⟨old, hOld, hEvolves⟩ := hTracks.before hNew
      exact hEvolves.fit (h.fit pool old hOld)
    default := hDefault
    room := hTracks.size ▸ h.room }

theorem carries (h : Governed s) (hCarries : Carries s s') : Governed s' := by
  have hTracks := hCarries.registry h.sound
  have hSettings := hCarries.settings
  simp only [State.settings, Prod.mk.injEq] at hSettings
  obtain ⟨hRoles, -, hDefault, hCount, hFee, hIncentive, hTolerance⟩ := hSettings
  have hStays : s.registry.Tracks Pool.Config.StaysActive s'.registry :=
    hTracks.mono fun old new hRebound hActive => hRebound.status.trans hActive
  exact {
    sound := hTracks.sound
    fit := fun pool new hNew => by
      obtain ⟨old, hOld, hRebound⟩ := hTracks.before hNew
      exact hRebound.fit (h.fit pool old hOld)
    default := hDefault ▸ h.default_of_tracks hStays
    room := by
      rw [hTracks.size, hCount]
      exact h.room
    limits := hCount ▸ h.limits
    fee := hFee ▸ h.fee
    incentive := hIncentive ▸ h.incentive
    tolerance := hTolerance ▸ h.tolerance
    led := hRoles ▸ h.led }

/-- Whatever is decided, the default pool is active. -/
theorem default_of_decides (h : Governed s) (hDecides : Decides c s s') (pool : Address)
    (hPool : s'.defaultPool = some pool) :
    ∃ config, s'.registry.get? pool = some config ∧ config.status = .active := by
  have hRefl : s.registry.Tracks Pool.Config.StaysActive s.registry := .refl h.sound fun _ => id
  cases hDecides with
  | shortfall | depositCap | dustTolerance | reinvestIncentive | withdrawalFee | maxPoolCount
  | unpaused => exact h.default pool hPool
  | defaultPool hChosen =>
    obtain ⟨config, _, hGet, hActive, -⟩ := hChosen pool hPool
    exact ⟨config, hGet, hActive⟩
  | @targeted _ target config _ hGet _ _ hUpdate =>
    have hStays : config.StaysActive { config with target } := id
    exact h.default_of_tracks (hRefl.update h.sound hGet (by rfl) hStays hUpdate) pool hPool
  | @resumed _ config _ hGet _ hUpdate =>
    have hStays : config.StaysActive { config with status := .active } := fun _ => rfl
    exact h.default_of_tracks (hRefl.update h.sound hGet (by rfl) hStays hUpdate) pool hPool
  | replaced _ hConfigs _ hUpdate =>
    refine h.default_of_tracks ?_ pool hPool
    exact tracks_replaced h.sound (fun _ => id) (fun _ _ _ _ hActive => hActive) hConfigs hUpdate
  | @stopped stopped status config registry hGet _ _ hUpdate =>
    -- The pool that has been stopped is not the default pool any more.
    have hNe : s.defaultPool ≠ some stopped ∧ s.defaultPool = some pool := by
      simp only at hPool
      split at hPool
      · cases hPool
      · next hNe => exact ⟨hNe, hPool⟩
    have hAll := Pool.Registry.get?_update h.sound hUpdate
    have hOther : pool ≠ config.pool := by
      rw [h.sound.keyed stopped config hGet]
      rintro rfl
      exact hNe.1 hNe.2
    obtain ⟨old, hOld, hActive⟩ := h.default pool hNe.2
    exact ⟨old, (hAll pool).trans ((if_neg hOther).trans hOld), hActive⟩

theorem decides (h : Governed s) (hDecides : Decides c s s') : Governed s' := by
  have hTracks := hDecides.amended.registry h.sound
  have hDefault := h.default_of_decides hDecides
  cases hDecides with
  | shortfall | depositCap | unpaused => exact { h with }
  | dustTolerance hLimit => exact { h with tolerance := hLimit }
  | reinvestIncentive hLimit => exact { h with incentive := hLimit }
  | withdrawalFee hLimit => exact { h with fee := hLimit }
  | maxPoolCount hHard hSome hRoom => exact { h with room := hRoom, limits := ⟨hSome, hHard⟩ }
  | defaultPool => exact { h with default := hDefault }
  | targeted | replaced | resumed | stopped => exact h.of_tracks hTracks hDefault

/-- A pool enters. -/
theorem added (h : Governed s) {pool adapter : Address} {target : Nat}
    (hWhole : target ≤ weightScale) (hRoom : s.registry.size < s.maxPoolCount)
    (hPush : s.registry.push { pool, adapter, target, status := .active } = .ok r) :
    Governed { s with registry := r } := by
  have hNew := (Pool.Registry.push_eq_ok.1 hPush).1
  have hGet := Pool.Registry.get?_push h.sound hPush
  refine { h with
    sound := h.sound.push hPush
    fit := fun p config hConfig => ?_
    default := fun p hp => ?_
    room := ?_ }
  · rw [hGet] at hConfig
    split at hConfig
    · cases hConfig
      exact ⟨hWhole, fun hIdle => absurd rfl hIdle⟩
    · exact h.fit p config hConfig
  · obtain ⟨config, hConfig, hActive⟩ := h.default p hp
    have hNe : p ≠ pool := by
      rintro rfl
      rw [Pool.Registry.contains_of_get? hConfig] at hNew
      cases hNew
    exact ⟨config, by rw [hGet, if_neg hNe, hConfig], hActive⟩
  · rw [Pool.Registry.size_push hPush]
    exact hRoom

/-- A suspended pool leaves. -/
theorem removed (h : Governed s) {pool : Address} {config : Pool.Config}
    (hFound : s.registry.get? pool = some config) (hStatus : config.status = .suspended)
    (hRemove : s.registry.swapRemove pool = .ok (config, r)) :
    Governed { s with registry := r } := by
  have hGet := Pool.Registry.get?_swapRemove h.sound hRemove
  refine { h with
    sound := h.sound.swapRemove hRemove
    fit := fun p found hConfig => ?_
    default := fun p hp => ?_
    room := ?_ }
  · rw [hGet] at hConfig
    split at hConfig
    · cases hConfig
    · exact h.fit p found hConfig
  · obtain ⟨found, hConfig, hActive⟩ := h.default p hp
    have hNe : p ≠ pool := by
      rintro rfl
      obtain rfl := Option.some.inj (hConfig.symm.trans hFound)
      rw [hStatus] at hActive
      cases hActive
    exact ⟨found, by rw [hGet, if_neg hNe, hConfig], hActive⟩
  · have hSize := Pool.Registry.size_swapRemove hRemove
    have hRoom := h.room
    change r.size ≤ s.maxPoolCount
    omega

end Governed

namespace Progress

/-- No pool enters or leaves. -/
theorem of_tracks {R : Pool.Config → Pool.Config → Prop}
    (hTracks : s.registry.Tracks R s'.registry) (hMoves : ∀ old new, R old new →
      new.status = old.status ∨ old.status.canBecome new.status = true) : Progress c s s' := by
  refine ⟨fun pool old new hOld hNew => ?_, fun pool new hNone hNew => ?_,
    fun pool old hOld hNone => ?_⟩
  · obtain ⟨found, hFound, hRel⟩ := hTracks.each pool old hOld
    obtain rfl : found = new := Option.some.inj (hFound.symm.trans hNew)
    exact hMoves old found hRel
  · simp [hTracks.absent pool hNone] at hNew
  · obtain ⟨found, hFound, -⟩ := hTracks.each pool old hOld
    simp [hNone] at hFound

theorem refl (hSound : s.registry.Sound) (hSame : s'.registry = s.registry) : Progress c s s' := by
  refine of_tracks (R := Eq) ?_ fun _ _ hEq => .inl (hEq ▸ rfl)
  rw [hSame]
  exact .refl hSound fun _ => rfl

theorem added {config : Pool.Config} (hSound : s.registry.Sound) (hActive : config.status = .active)
    (hPush : s.registry.push config = .ok r) : Progress c s { s with registry := r } := by
  have hNew := (Pool.Registry.push_eq_ok.1 hPush).1
  have hGet := Pool.Registry.get?_push hSound hPush
  refine ⟨fun pool old new hOld hFound => ?_, fun pool new hNone hFound => ?_,
    fun pool old hOld hNone => ?_⟩
  · have hNe : pool ≠ config.pool := by
      rintro rfl
      rw [Pool.Registry.contains_of_get? hOld] at hNew
      cases hNew
    rw [hGet, if_neg hNe, hOld] at hFound
    cases hFound
    exact .inl rfl
  · rw [hGet] at hFound
    split at hFound
    · cases hFound
      exact hActive
    · simp [hNone] at hFound
  · rw [hGet] at hNone
    split at hNone
    · cases hNone
    · simp [hOld] at hNone

theorem removed {k pool : Address} {config : Pool.Config} (hSound : s.registry.Sound)
    (hKeeper : s.custody = some k) (hBound : Custody.boundAdapter k pool c = .ok none)
    (hStatus : config.status = .suspended)
    (hRemove : s.registry.swapRemove pool = .ok (config, r)) :
    Progress c s { s with registry := r } := by
  have hFound := Pool.Registry.get?_of_swapRemove hRemove
  have hGet := Pool.Registry.get?_swapRemove hSound hRemove
  refine ⟨fun p old new hOld hNew => ?_, fun p new hNone hNew => ?_, fun p old hOld hNone => ?_⟩
  · rw [hGet] at hNew
    split at hNew
    · cases hNew
    · obtain rfl := Option.some.inj (hOld.symm.trans hNew)
      exact .inl rfl
  · rw [hGet] at hNew
    split at hNew
    · cases hNew
    · simp [hNone] at hNew
  · rw [hGet] at hNone
    split at hNone
    · next hp =>
      subst hp
      obtain rfl := Option.some.inj (hOld.symm.trans hFound)
      exact ⟨hStatus, k, hKeeper, hBound⟩
    · simp [hOld] at hNone

end Progress

end Router

/-- The router at an address is there still, in good order, and its pools have progressed. -/
def Chain.Progresses (a : Address) (c : Chain) (s : Router.State) (c' : Chain) : Prop :=
  ∃ s', c'.contract? a = some (.router s') ∧ Router.Governed s' ∧ Router.Progress c s s'

section Progresses

open Router (Governed Progress)

variable {user a b : Address} {c c' : Chain} {s s' t : Router.State}

theorem Chain.Carries.progresses (h : c'.Carries a s) (hGoverned : Governed s) :
    c.Progresses a s c' := by
  obtain ⟨s', hs', hCarries⟩ := h
  refine ⟨s', hs', hGoverned.carries hCarries, ?_⟩
  exact .of_tracks (hCarries.registry hGoverned.sound) fun _ _ hRebound => .inl hRebound.status

/-- One router is replaced, perhaps the one at the address. -/
theorem Chain.progresses_of_put (hs : c.contract? a = some (.router s)) (hGoverned : Governed s)
    (hOld : c.contract? b = some (.router t))
    (hNew : Governed t → Governed s' ∧ Progress c t s') :
    c.Progresses a s (c.put b (.router s')) := by
  by_cases hb : b = a
  · subst hb
    obtain ⟨⟩ := Option.some.inj (hOld.symm.trans hs)
    exact ⟨s', contract?_put_self _ hOld, hNew hGoverned⟩
  · exact ⟨s, contract?_put_other hb hs, hGoverned, .refl hGoverned.sound rfl⟩

theorem Chain.Governs.progresses (h : c.Governs user b c') (hs : c.contract? a = some (.router s))
    (hGoverned : Governed s) : c.Progresses a s c' := by
  cases h with
  | decided hRouter _ hDecides =>
    refine progresses_of_put hs hGoverned hRouter fun ht => ⟨ht.decides hDecides, ?_⟩
    exact .of_tracks (hDecides.amended.registry ht.sound) fun _ _ hEvolves => hEvolves.status
  | ranked hRouter hRuled =>
    refine progresses_of_put hs hGoverned hRouter fun ht => ?_
    exact ⟨{ ht with led := hRuled.led ht.led }, .refl ht.sound rfl⟩
  | @added k pool adapter target t q q' registry hRouter _ hWhole hRoom _ hCustody _ hPush _ =>
    obtain ⟨s', hs', hHolds⟩ := progresses_of_put hs hGoverned hRouter fun ht =>
      ⟨ht.added hWhole hRoom hPush, Progress.added (c := c) ht.sound rfl hPush⟩
    have hNe := Router.custody_ne_router hCustody hRouter
    have hStays : (c.put b (.router { t with registry })).contract? k = some (.custody q) :=
      contract?_put_other hNe.symm hCustody
    exact ⟨s', contract?_put_other (Router.custody_ne_router hStays hs') hs', hHolds⟩
  | removed hRouter _ hKeeper hCustody hUnbound hFound hStatus hRemove =>
    refine progresses_of_put hs hGoverned hRouter fun ht =>
      ⟨ht.removed hFound hStatus hRemove, ?_⟩
    have hNone := (Custody.boundAdapter_eq hCustody _).trans (congrArg Except.ok hUnbound)
    exact .removed ht.sound hKeeper hNone hStatus hRemove

/-- Whatever a chain goes through, a router stays in good order and its pools progress. -/
theorem Chain.Advances.progresses (h : c.Advances user c') (hs : c.contract? a = some (.router s))
    (hBuilt : a ∉ c.blank) (hGoverned : Governed s) : c.Progresses a s c' := by
  cases h with
  | effect hEffect => exact (hEffect.carries hs hBuilt).progresses hGoverned
  | governed hGoverns => exact hGoverns.progresses hs hGoverned
  | rewired hRewired => exact (hRewired.carries hs).progresses hGoverned
  | gains hGains =>
    have hNe := hGains.ne_of_stands (b := a) (by simp [kind?_of_contract? hs])
    refine ⟨s, ?_, hGoverned, .refl hGoverned.sound rfl⟩
    rw [hGains.contracts, if_neg hNe, hs]
  | skipped => exact ⟨s, hs, hGoverned, .refl hGoverned.sound rfl⟩

/-- A router that was not there before has just been set up, or is left blank. -/
theorem Chain.Advances.router_new (h : c.Advances user c') (hNone : c.contract? a = none)
    (hs : c'.contract? a = some (.router s)) (hBuilt : a ∉ c'.blank) :
    ∃ setup, ({} : Router.State).construct setup = .ok s := by
  have hKind : c.kind? a = none ∧ c'.kind? a = some .router :=
    ⟨by rw [Chain.kind?, hNone, Option.map_none], kind?_of_contract? hs⟩
  cases h with
  | effect h => simp [h.kind?, hKind.1] at hKind
  | governed h | rewired h => simp [(h.same a).1, hKind.1] at hKind
  | skipped =>
    change c.contract? a = _ at hs
    rw [hNone] at hs
    cases hs
  | @gains _ b x hGains =>
    have hb : a = b := Classical.byContradiction fun hNe => by
      rw [hGains.contracts, if_neg hNe, hNone] at hs
      cases hs
    subst hb
    rw [hGains.contracts, if_pos rfl] at hs
    cases hs
    obtain ⟨kind, hBuilds | ⟨hFresh, hIn | hKinds⟩⟩ := hGains.new
    · cases kind <;> first
        | (cases hBuilds; exact ⟨_, ‹_›⟩)
        | cases hBuilds
    · exact absurd hIn hBuilt
    · cases kind <;> simp [Contract.Kind.blank] at hFresh hKinds

/-- What holds of every router that has just been set up, and is kept by whatever a chain goes
through, holds of all routers that have been set up. -/
theorem Chain.Advances.all_routers {P : Router.State → Prop}
    (hNew : ∀ setup s, ({} : Router.State).construct setup = .ok s → P s)
    (h : c.Advances user c')
    (hStep : ∀ s, c.contract? a = some (.router s) → a ∉ c.blank → P s →
      ∃ s', c'.contract? a = some (.router s') ∧ P s')
    (hAll : ∀ s, c.contract? a = some (.router s) → a ∉ c.blank → P s)
    (hs : c'.contract? a = some (.router s)) (hBuilt : a ∉ c'.blank) : P s := by
  cases hStands : c.contract? a with
  | none =>
    obtain ⟨setup, hSetup⟩ := h.router_new hStands hs hBuilt
    exact hNew setup s hSetup
  | some x =>
    have hKind := (h.kind? (kind?_of_contract? hStands)).symm.trans (kind?_of_contract? hs)
    cases x with
    | router t =>
      have hBuilt' : a ∉ c.blank := fun hIn => hBuilt (h.blank hIn)
      obtain ⟨s', hs', hHolds⟩ := hStep t hStands hBuilt' (hAll t hStands hBuilt')
      obtain ⟨⟩ := Option.some.inj (hs.symm.trans hs')
      exact hHolds
    | _ => cases hKind

end Progresses

/-- The chains that can be reached from the empty one by any calls and deployments of anyone. -/
abbrev Reachable (c : Chain) : Prop := Run (fun _ => True) (fun _ => True) c

theorem WiredRun.reachable {w : Wiring} {c : Chain} (h : WiredRun w c) : Reachable c :=
  h.run.mono (fun _ _ => trivial) fun _ _ => trivial

namespace Reachable

variable {c : Chain} {a : Address} {s : Router.State}

/-- What holds of every router that has just been set up, and is kept by whatever a chain goes
through, holds of a router throughout. -/
theorem router_invariant {P : Router.State → Prop}
    (hNew : ∀ setup s, ({} : Router.State).construct setup = .ok s → P s)
    (hStep : ∀ {user : Address} {c c' : Chain} {a : Address} {s : Router.State},
      c.Advances user c' → c.contract? a = some (.router s) → a ∉ c.blank → P s →
        ∃ s', c'.contract? a = some (.router s') ∧ P s')
    (hRun : Reachable c) (hs : c.contract? a = some (.router s)) (hBuilt : a ∉ c.blank) : P s := by
  refine hRun.invariant
    (P := fun c => ∀ s, c.contract? a = some (.router s) → a ∉ c.blank → P s) ?_ ?_ s hs hBuilt
  · intro s hs
    cases hs
  · intro c c' user _ _ _ hAll hAdvances s hs hBuilt
    exact hAdvances.all_routers hNew (fun _ hs hBuilt hP => hStep hAdvances hs hBuilt hP) hAll hs
      hBuilt

theorem governed (hRun : Reachable c) (hs : c.contract? a = some (.router s))
    (hBuilt : a ∉ c.blank) : Router.Governed s := by
  refine hRun.router_invariant (fun _ _ => Router.governed_of_construct) ?_ hs hBuilt
  intro user c c' a s hAdvances hs hBuilt hGoverned
  obtain ⟨s', hs', hGoverned', -⟩ := hAdvances.progresses hs hBuilt hGoverned
  exact ⟨s', hs', hGoverned'⟩

/-- A router that was set up when it was deployed has its settings within their bounds, whoever has
called it. Only active pools have targets; the default pool is an active one; there is room for the
pools that are registered; and there is an admin. Whatever anybody does next, the router's pools
move on in their lives as they may, enter active, and leave suspended, after they have been given
up. -/
theorem router_governed (hRun : Reachable c) (hs : c.contract? a = some (.router s))
    (hBuilt : a ∉ c.blank) :
    (∀ pool config, s.registry.get? pool = some config →
      (config.status ≠ .active → config.target = 0) ∧ config.target ≤ 1_000_000) ∧
    (∀ pool, s.defaultPool = some pool →
      ∃ config, s.registry.get? pool = some config ∧ config.status = .active) ∧
    s.registry.size ≤ s.maxPoolCount ∧ 1 ≤ s.maxPoolCount ∧ s.maxPoolCount ≤ 32 ∧
    s.withdrawalFee ≤ 10_000 ∧ s.reinvestIncentive ≤ 50_000 ∧
    s.dustTolerance ≤ 1_000_000_000_000_000_000 ∧
    (∃ account, s.roles.has Roles.admin account = true) ∧
    ∀ user c', c.Leads user c' →
      ∃ s', c'.contract? a = some (.router s') ∧ Router.Progress c s s' := by
  have h := hRun.governed hs hBuilt
  refine ⟨fun pool config hGet => ?_, h.default, h.room, Nat.pos_of_ne_zero h.limits.1, h.limits.2,
    h.fee, h.incentive, h.tolerance, h.led.exists_admin, fun user c' hLeads => ?_⟩
  · have hFit := h.fit pool config hGet
    exact ⟨hFit.idle, hFit.whole⟩
  · obtain ⟨s', hs', -, hProgress⟩ := hLeads.advances.progresses hs hBuilt h
    exact ⟨s', hs', hProgress⟩

/-- The router of a standard treasury is in good order, and suspends its pool when it is told. -/
theorem router_governed_suspended : ∃ c c' s s' config, Reachable c ∧
    c.contract? Standard.router = some (.router s) ∧ Standard.router ∉ c.blank ∧
    s.registry.size ≤ s.maxPoolCount ∧ s.maxPoolCount ≤ 32 ∧ c.Leads (.account 0) c' ∧
    c'.contract? Standard.router = some (.router s') ∧ Router.Progress c s s' ∧
    s'.registry.get? Standard.pool = some config ∧ config.status = .suspended := by
  have hEnd : (Standard.places.follow {} (Standard.pooled 0 1 { admin := .account 0 } rateScale
      100)).any (fun c => Standard.places.completes c && (c.submit (.account 0) Standard.router
        (.router (.setPoolStatus Standard.pool .suspended))).toOption.any fun out =>
          ((out.chain.routing Standard.router).registry.get? Standard.pool).any
            (·.status == .suspended)) = true := by
    decide +kernel
  obtain ⟨c, out, hRun, hComplete, hCall, hHolds⟩ := Wiring.exists_submit hEnd
  obtain ⟨s, hs, -⟩ : ∃ s, c.contract? Standard.router = some (.router s) ∧ _ := hComplete.router
  have hReachable := hRun.reachable
  have hBuilt : Standard.router ∉ c.blank := hRun.kept.constructed _ (by decide)
  obtain ⟨-, -, hRoom, -, hHard, -, -, -, -, hStep⟩ := router_governed hReachable hs hBuilt
  obtain ⟨s', hs', hProgress⟩ := hStep _ _ (.called hCall)
  obtain ⟨config, hGet, hStatus⟩ := (Option.any_eq_true _ _).1 hHolds
  rw [routing_of hs'] at hGet
  exact ⟨c, out.chain, s, s', config, hReachable, hs, hBuilt, hRoom, hHard, .called hCall, hs',
    hProgress, hGet, by simpa using hStatus⟩

end Reachable

end Treasury
