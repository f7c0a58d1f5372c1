import Treasury.Proofs.Wiring

/-! The settings of a router. They are for admins to decide: whatever else happens to a chain
carries them along, and binds pools to other adapters at most. -/
namespace Treasury

open Exec Chain

namespace Pool

/-- A config of the same pool that has at most another adapter. -/
structure Config.Rebound (old new : Config) : Prop where
  pool : new.pool = old.pool
  target : new.target = old.target
  status : new.status = old.status

theorem Config.Rebound.refl (config : Config) : config.Rebound config := ⟨rfl, rfl, rfl⟩

theorem Config.Rebound.trans {a b c : Config} (h : a.Rebound b) (h' : b.Rebound c) : a.Rebound c :=
  ⟨h'.pool.trans h.pool, h'.target.trans h.target, h'.status.trans h.status⟩

theorem Config.Rebound.fit {old new : Config} (h : old.Rebound new) (hFit : old.Fit) : new.Fit :=
  ⟨h.target.symm ▸ hFit.whole, fun hIdle => h.target.trans (hFit.idle (h.status ▸ hIdle))⟩

end Pool

namespace Router

/-- What admins decide about a router, apart from its pools. -/
def State.settings (s : State) :
    Roles × Option Address × Option Address × Nat × Nat × Nat × Amount :=
  (s.roles, s.custody, s.defaultPool, s.maxPoolCount, s.withdrawalFee, s.reinvestIncentive,
    s.dustTolerance)

/-- A router keeps its settings and its pools, which may be bound to other adapters. -/
structure Carries (s s' : State) : Prop where
  registry : s.registry.Sound → s.registry.Tracks Pool.Config.Rebound s'.registry
  settings : s'.settings = s.settings

namespace Carries

variable {s s' s'' : State}

theorem of_registry (hRegistry : s'.registry = s.registry) (hSettings : s'.settings = s.settings) :
    Carries s s' := by
  refine ⟨fun hSound => ?_, hSettings⟩
  rw [hRegistry]
  exact .refl hSound .refl

theorem trans (h : Carries s s') (h' : Carries s' s'') : Carries s s'' := by
  refine ⟨fun hSound => ?_, h'.settings.trans h.settings⟩
  have hFirst := h.registry hSound
  exact hFirst.trans (fun _ _ _ => .trans) (h'.registry hFirst.sound)

end Carries

theorem Rebinds.carries {pool adapter : Address} {s s' : State} (h : Rebinds pool adapter s s') :
    Carries s s' := by
  cases h with
  | unknown => exact .of_registry rfl rfl
  | @known config registry hGet hUpdate =>
    refine ⟨fun hSound => ?_, rfl⟩
    have hRebound : config.Rebound { config with adapter } := ⟨rfl, rfl, rfl⟩
    exact (Pool.Registry.Tracks.refl hSound .refl).update hSound hGet hRebound.pool hRebound hUpdate

end Router

/-- The router at an address is there still, and keeps its settings and pools. -/
def Chain.Carries (a : Address) (s : Router.State) (c : Chain) : Prop :=
  ∃ s', c.contract? a = some (.router s') ∧ Router.Carries s s'

section Carries

variable {user a b : Address} {c c' : Chain} {s s' t : Router.State} {old new : Contract}

theorem Chain.carries_of_put (hs : c.contract? a = some (.router s))
    (hOld : c.contract? b = some old) (hOther : old.kind ≠ .router) :
    (c.put b new).Carries a s := by
  have hNe : b ≠ a := by
    rintro rfl
    obtain rfl := Option.some.inj (hOld.symm.trans hs)
    exact hOther rfl
  exact ⟨s, contract?_put_other hNe hs, .of_registry rfl rfl⟩

/-- A router is replaced by one that carries on, perhaps the one at the address. -/
theorem Chain.carries_of_put_router (hs : c.contract? a = some (.router s))
    (hOld : c.contract? b = some (.router t)) (hCarries : Router.Carries t s') :
    (c.put b (.router s')).Carries a s := by
  by_cases hb : b = a
  · subst hb
    obtain ⟨⟩ := Option.some.inj (hOld.symm.trans hs)
    exact ⟨s', contract?_put_self _ hOld, hCarries⟩
  · exact ⟨s, contract?_put_other hb hs, .of_registry rfl rfl⟩

theorem Chain.Carries.trans (h : c.Carries a s)
    (hThen : ∀ t, c.contract? a = some (.router t) → c'.Carries a t) : c'.Carries a s := by
  obtain ⟨t, ht, hFirst⟩ := h
  obtain ⟨s', hs', hSecond⟩ := hThen t ht
  exact ⟨s', hs', hFirst.trans hSecond⟩

/-- What a flow leaves of a router, and nothing of other contracts. -/
def Contract.steered? : Contract → Option Router.State
  | router s => some { s with fees := {}, paused := false }
  | _ => none

theorem Flow.carries (h : Flow user c c') (hs : c.contract? a = some (.router s)) :
    c'.Carries a s := by
  have hBare : ∀ x : Contract, x.bare.steered? = x.steered? := fun x => by cases x <;> rfl
  have hSame := h.map hBare (fun _ _ => rfl) (fun _ => rfl) a
  rw [hs, Option.map_some] at hSame
  obtain ⟨x, hx, hKept⟩ := Option.map_eq_some_iff.1 hSame
  cases x with
  | router s' =>
    have hSteered : { s' with fees := {}, paused := false } =
        { s with fees := {}, paused := false } := Option.some.inj hKept
    have hRegistry := congrArg Router.State.registry hSteered
    have hSettings := congrArg Router.State.settings hSteered
    exact ⟨s', hx, .of_registry hRegistry hSettings⟩
  | _ => cases hKept

theorem Router.Binds.carries {pool adapter : Address} (h : Router.Binds user pool adapter c c')
    (hs : c.contract? a = some (.router s)) : c'.Carries a s := by
  induction h with
  | @bound _ k _ _ q hRouter _ hCustody _ _ _ hRebinds =>
    have hNe := Router.custody_ne_router hCustody hRouter
    let kept : Custody := { q with adapters := q.adapters.write pool (some adapter) }
    have hFirst : (c.put k (.custody kept)).Carries a s :=
      carries_of_put hs hCustody (by simp [Contract.kind])
    exact hFirst.trans fun t ht =>
      carries_of_put_router ht (contract?_put_other hNe hRouter) hRebinds.carries
  | relayed _ _ _ _ hStays hRebinds _ ih =>
    exact ih.trans fun t ht => carries_of_put_router ht hStays hRebinds.carries

theorem Strategy.Tuned.kind_ne_router {caller : Address} (h : Strategy.Tuned caller old new) :
    old.kind ≠ .router := by
  cases h <;> simp [Contract.kind]

theorem Configured.carries (h : Configured user c c') (hs : c.contract? a = some (.router s)) :
    c'.Carries a s := by
  cases h with
  | minters hOld | ruled hOld | obeyed hOld =>
    exact carries_of_put hs hOld (by simp [Contract.kind])
  | released _ _ hCustody => exact carries_of_put hs hCustody (by simp [Contract.kind])
  | tuned hOld hTuned => exact carries_of_put hs hOld hTuned.kind_ne_router
  | bound hBinds => exact hBinds.carries hs

theorem Deed.carries (h : Deed user c c') (hs : c.contract? a = some (.router s))
    (hBuilt : a ∉ c.blank) : c'.Carries a s := by
  cases h with
  | minted hOld | burned hOld => exact carries_of_put hs hOld (by simp [Contract.kind])
  | standalone hOld hKind =>
    refine carries_of_put hs hOld fun hRouter => ?_
    simp [hRouter] at hKind
  | constructed _ hBlank =>
    have hNe : _ ≠ a := fun h => hBuilt (h ▸ hBlank)
    exact ⟨s, contract?_put_other hNe hs, .of_registry rfl rfl⟩

/-- An effect leaves the settings and the pools of a router that has been set up. -/
theorem Effect.carries (h : Effect user c c') (hs : c.contract? a = some (.router s))
    (hBuilt : a ∉ c.blank) : c'.Carries a s := by
  induction h generalizing s with
  | flow hFlow => exact hFlow.carries hs
  | trans hFirst _ ihFirst ihThen =>
    exact (ihFirst hs hBuilt).trans fun t ht => ihThen ht (hFirst.blank ▸ hBuilt)
  | deed h => exact h.carries hs hBuilt
  | configured h => exact h.carries hs

theorem Rewired.carries (h : Rewired user c c') (hs : c.contract? a = some (.router s)) :
    c'.Carries a s := by
  cases h with
  | custody hOld | share hOld => exact carries_of_put hs hOld (by simp [Contract.kind])
  | router hOld => exact carries_of_put_router hs hOld (.of_registry rfl rfl)

end Carries

end Treasury
