import Treasury.Proofs.AgreementRun

/-! Which adapters are listed for which pools: in the registries of routers, and in the tables of
custody contracts. Nothing gets into either that has not said which pool it serves, so whatever is
listed for a pool serves it. This holds of all routers and custody contracts there are, however they
are pointed at each other. -/
namespace Treasury

open Exec Chain

/-- Whatever a contract lists for a pool serves the pool. -/
structure Contract.Lists (c : Chain) (x : Contract) : Prop where
  sound : x.routing.registry.Sound
  registered : ∀ pool config, x.routing.registry.get? pool = some config →
    c.Serves config.adapter pool
  bound : ∀ pool adapter, x.keeping.adapter? pool = some adapter → c.Serves adapter pool

/-- Whatever is listed anywhere for a pool serves the pool. -/
def Chain.Listed (c : Chain) : Prop := ∀ a x, c.contract? a = some x → x.Lists c

namespace Contract

/-- What a contract lists. -/
def listing (x : Contract) : Pool.Registry × Table Address (Option Address) :=
  (x.routing.registry, x.keeping.adapters)

theorem listing_bare (x : Contract) : x.bare.listing = x.listing := by cases x <;> rfl

namespace Lists

variable {c c' : Chain} {x y : Contract} {s s' : Router.State} {q q' : Custody}

theorem mono (h : x.Lists c) (hServes : ∀ adapter pool, c.Serves adapter pool →
    c'.Serves adapter pool) : x.Lists c' :=
  ⟨h.sound, fun pool config hGet => hServes _ _ (h.registered pool config hGet),
    fun pool adapter hBound => hServes _ _ (h.bound pool adapter hBound)⟩

theorem of_listing (h : x.Lists c) (hSame : y.listing = x.listing) : y.Lists c := by
  obtain ⟨hRegistry, hAdapters⟩ := Prod.mk.inj hSame
  refine ⟨hRegistry ▸ h.sound, fun pool config hGet => ?_, fun pool adapter hBound => ?_⟩
  · rw [hRegistry] at hGet
    exact h.registered pool config hGet
  · rw [Custody.adapter?, hAdapters] at hBound
    exact h.bound pool adapter hBound

/-- What lists nothing is in order. -/
theorem of_empty (h : x.listing = ({}, .const none)) : x.Lists c := by
  obtain ⟨hRegistry, hAdapters⟩ := Prod.mk.inj h
  refine ⟨hRegistry ▸ Pool.Registry.sound_empty, fun pool config hGet => ?_,
    fun pool adapter hBound => ?_⟩
  · rw [hRegistry] at hGet
    rw [Pool.Registry.get?_empty] at hGet
    cases hGet
  · rw [Custody.adapter?, hAdapters, Table.read_const] at hBound
    cases hBound

/-- A router has the pools that it had, with the same adapters. -/
theorem tracks (h : (router s).Lists c)
    (hTracks : s.registry.Tracks Pool.Config.Evolves s'.registry) : (router s').Lists c := by
  refine ⟨hTracks.sound, fun pool config hGet => ?_, h.bound⟩
  obtain ⟨old, hOld, hEvolves⟩ := hTracks.before hGet
  rw [hEvolves.adapter]
  exact h.registered pool old hOld

/-- A router lists a pool anew. -/
theorem registers {config : Pool.Config} {r : Pool.Registry} (h : (router s).Lists c)
    (hSound : r.Sound) (hAll : ∀ pool,
      r.get? pool = if pool = config.pool then some config else s.registry.get? pool)
    (hServes : c.Serves config.adapter config.pool) :
    (router { s with registry := r }).Lists c := by
  refine ⟨hSound, fun pool found hGet => ?_, h.bound⟩
  simp only [routing] at hGet
  rw [hAll] at hGet
  split at hGet
  · next hPool =>
    cases hGet
    exact hPool ▸ hServes
  · exact h.registered pool found hGet

theorem rebinds {pool adapter : Address} (h : (router s).Lists c)
    (hRebinds : Router.Rebinds pool adapter s s') (hServes : c.Serves adapter pool) :
    (router s').Lists c := by
  cases hRebinds with
  | unknown => exact h
  | @known config registry hGet hUpdate =>
    have hAll := Pool.Registry.get?_update h.sound hUpdate
    have hKey : config.pool = pool := h.sound.keyed pool config hGet
    exact h.registers (h.sound.update hUpdate) hAll (hKey.symm ▸ hServes)

/-- A custody contract lists nothing that it did not list, or that does not serve its pool. -/
theorem binds {adapters : Table Address (Option Address)} (h : (custody q).Lists c)
    (hAll : ∀ pool adapter, adapters.read pool = some adapter →
      q.adapter? pool = some adapter ∨ c.Serves adapter pool) :
    (custody { q with adapters }).Lists c :=
  ⟨h.sound, h.registered, fun pool adapter hRead =>
    (hAll pool adapter hRead).elim (h.bound pool adapter) id⟩

theorem obeys {caller pool : Address} (h : (custody q).Lists c)
    (hObeys : q.Obeys c caller pool q') : (custody q').Lists c := by
  cases hObeys with
  | @bound adapter _ _ hPool =>
    refine h.binds fun p found hRead => ?_
    rw [Table.read_write] at hRead
    split at hRead
    · next hp =>
      cases hRead
      exact .inr (hp ▸ .inl (Strategy.poolId_eq_ok.1 hPool))
    · exact .inl hRead
  | unbound hUnbind =>
    obtain ⟨-, -, rfl⟩ := Custody.unbind_spec hUnbind
    refine h.binds fun p found hRead => ?_
    rw [Table.read_write] at hRead
    split at hRead
    · cases hRead
    · exact .inl hRead
  | supported hSupport =>
    obtain ⟨-, -, rfl⟩ := Custody.support_spec hSupport
    exact h.of_listing rfl
  | unsupported => exact h.of_listing rfl

end Lists

end Contract

namespace Chain.Listed

variable {c c' : Chain} {a user : Address} {old new : Contract}

/-- A contract is replaced. -/
theorem put (h : c.Listed) (hOld : c.contract? a = some old) (hKind : new.kind = old.kind)
    (hPool : new.pool? a = old.pool? a) (hNew : old.Lists c → new.Lists c) :
    (c.put a new).Listed := by
  intro b x hx
  have hLists : x.Lists c := by
    by_cases hb : b = a
    · subst hb
      rw [contract?_put_self new hOld] at hx
      exact Option.some.inj hx ▸ hNew (h b old hOld)
    · rw [contract?_put_of_ne c new hb] at hx
      exact h b x hx
  exact hLists.mono fun _ _ hServes => hServes.put hOld hKind hPool

/-- Every contract lists what it did. -/
theorem of_map (h : c.Listed) (hServes : ∀ x p, c.Serves x p → c'.Serves x p)
    (hSame : ∀ b, (c'.contract? b).map Contract.listing = (c.contract? b).map Contract.listing) :
    c'.Listed := by
  intro b x hx
  have hBefore := hSame b
  rw [hx, Option.map_some] at hBefore
  obtain ⟨y, hy, hListing⟩ := Option.map_eq_some_iff.1 hBefore.symm
  exact ((h b y hy).of_listing hListing.symm).mono hServes

theorem flow (h : c.Listed) (hFlow : Flow user c c') : c'.Listed := by
  refine h.of_map (fun x p hServes => ?_) fun b => ?_
  · exact hServes.of_same hFlow.kind? hFlow.blank (pool?_of_outline? (hFlow.outline? x))
  · exact hFlow.map Contract.listing_bare (fun _ _ => rfl) (fun _ => rfl) b

/-- An adapter that is bound to a pool serves it. -/
theorem serves_of_binds {pool adapter : Address} (h : Router.Binds user pool adapter c c') :
    c.Serves adapter pool := by
  induction h with
  | bound _ _ _ _ _ hPool => exact .inl (Strategy.poolId_eq_ok.1 hPool)
  | relayed _ _ _ _ _ _ _ ih => exact ih

theorem binds {pool adapter : Address} (h : c.Listed)
    (hBinds : Router.Binds user pool adapter c c') : c'.Listed := by
  induction hBinds with
  | bound hRouter hKeeper hCustody hKnown hFree hPool hRebinds =>
    have hNe := Router.custody_ne_router hCustody hRouter
    refine (h.put hCustody (by rfl) (by rfl) fun hLists => ?_).put
      (contract?_put_other hNe hRouter) (by rfl) (by rfl) ?_
    · exact hLists.obeys (.bound hKnown hFree hPool)
    · intro hLists
      have hServes : c.Serves _ _ := .inl (Strategy.poolId_eq_ok.1 hPool)
      exact hLists.rebinds hRebinds (hServes.put hCustody (by rfl) (by rfl))
  | relayed _ _ _ hInner hStays hRebinds _ ih =>
    refine ih.put hStays (by rfl) (by rfl) fun hLists => hLists.rebinds hRebinds ?_
    have hOutline := hInner.outline?
    exact (serves_of_binds hInner).of_same (fun b => (hInner.same b).1) hInner.blank
      (pool?_of_outline? (hOutline _))

theorem configured (h : c.Listed) (hConfigured : Configured user c c') : c'.Listed := by
  cases hConfigured with
  | minters hOld => exact h.put hOld (by rfl) (by rfl) fun hLists => hLists.of_listing rfl
  | tuned hOld hTuned =>
    refine h.put hOld hTuned.same.1 (Contract.pool?_of_outline hTuned.outline) fun hLists => ?_
    cases hTuned <;> exact hLists.of_listing rfl
  | ruled hOld hRule =>
    obtain ⟨-, _, _, _, rfl⟩ := Custody.ruled_spec hRule
    exact h.put hOld (by rfl) (by rfl) fun hLists => hLists.of_listing rfl
  | obeyed hOld hObeys => exact h.put hOld (by rfl) (by rfl) fun hLists => hLists.obeys hObeys
  | bound hBinds => exact h.binds hBinds
  | released _ _ hCustody _ hGiven =>
    exact h.put hCustody (by rfl) (by rfl) fun hLists =>
      hLists.obeys (Custody.Obeys.of_released c hGiven)

theorem deed (h : c.Listed) (hVaulted : c.Vaulted) (hDeed : Deed user c c') : c'.Listed := by
  have hEffect : Effect user c c' := .deed hDeed
  refine h.of_map (fun x p => hEffect.serves hVaulted) fun b => ?_
  cases hDeed with
  | minted hOld | burned hOld => exact map_put hOld (by rfl) b
  | @standalone _ old new hOld hKind hSame =>
    refine map_put hOld ?_ b
    cases old <;> cases new <;> simp_all [Contract.kind, Contract.listing, Contract.routing,
      Contract.keeping]
  | constructed hOld _ hBuilds =>
    refine map_put hOld ?_ b
    cases hBuilds with
    | router hConstruct =>
      simp only [Router.State.construct, Result.bind_eq_ok] at hConstruct
      obtain ⟨_, _, _, _, ⟨⟩⟩ := hConstruct
      rfl
    | custody hConstruct =>
      simp only [Custody.construct, Result.bind_eq_ok] at hConstruct
      obtain ⟨_, _, ⟨⟩⟩ := hConstruct
      rfl
    | stable | share | yieldVault | fixedRate | synthetic | wrapped | roles => rfl

theorem effect (h : c.Listed) (hVaulted : c.Vaulted) (hEffect : Effect user c c') :
    c'.Listed := by
  induction hEffect with
  | flow hFlow => exact h.flow hFlow
  | trans hFirst _ ihFirst ihThen => exact ihThen (ihFirst h hVaulted) (hFirst.vaulted hVaulted)
  | deed hDeed => exact h.deed hVaulted hDeed
  | configured hConfigured => exact h.configured hConfigured

/-- A router that registers a pool has asked its custody contract which adapter is bound to it. -/
theorem governed (h : c.Listed) (hGoverns : c.Governs user a c') : c'.Listed := by
  cases hGoverns with
  | decided hRouter _ hDecides =>
    exact h.put hRouter (by rfl) (by rfl) fun hLists =>
      hLists.tracks (hDecides.amended.registry hLists.sound)
  | ranked hRouter => exact h.put hRouter (by rfl) (by rfl) fun hLists => hLists.of_listing rfl
  | added hRouter _ _ _ _ hCustody hBound hPush hSupport =>
    have hServes := (h _ _ hCustody).bound _ _ hBound
    have hNe := Router.custody_ne_router hCustody hRouter
    refine (h.put hRouter (by rfl) (by rfl) fun hLists => ?_).put
      (contract?_put_other hNe.symm hCustody) (by rfl) (by rfl) ?_
    · exact hLists.registers (hLists.sound.push hPush)
        (Pool.Registry.get?_push hLists.sound hPush) hServes
    · exact fun hLists => hLists.obeys (.supported hSupport)
  | removed hRouter _ _ _ _ _ _ hRemove =>
    refine h.put hRouter (by rfl) (by rfl) fun hLists => ?_
    have hAll := Pool.Registry.get?_swapRemove hLists.sound hRemove
    refine ⟨hLists.sound.swapRemove hRemove, fun pool found hGet => ?_, hLists.bound⟩
    simp only [Contract.routing] at hGet
    rw [hAll] at hGet
    split at hGet
    · cases hGet
    · exact hLists.registered pool found hGet

theorem rewired (h : c.Listed) (hRewired : Rewired user c c') : c'.Listed := by
  cases hRewired with
  | custody hOld hSet =>
    simp only [Custody.setRouter, Result.bind_eq_ok] at hSet
    obtain ⟨_, _, ⟨⟩⟩ := hSet
    exact h.put hOld (by rfl) (by rfl) fun hLists => hLists.of_listing rfl
  | share hOld | router hOld =>
    exact h.put hOld (by rfl) (by rfl) fun hLists => hLists.of_listing rfl

theorem gains (h : c.Listed) (hVaulted : c.Vaulted) (hGains : c.Gains a new c') : c'.Listed := by
  have hNew : new.Lists c' := by
    refine .of_empty ?_
    obtain ⟨kind, hBuilds | ⟨rfl, -⟩⟩ := hGains.new
    · rw [Contract.listing, hBuilds.routing.1, hBuilds.keeping.2]
    · cases kind <;> rfl
  intro b x hx
  rw [hGains.contracts] at hx
  split at hx
  · exact Option.some.inj hx ▸ hNew
  · exact (h b x hx).mono fun _ _ => hGains.serves hVaulted

end Chain.Listed

/-- In a run, whatever is listed anywhere for a pool serves the pool. -/
theorem Run.listed {May : Address → Prop} {Kept : Chain → Prop} {c : Chain}
    (h : Run May Kept c) : c.Listed := by
  refine (h.invariant (P := fun c => c.Vaulted ∧ c.Listed)
    ⟨Chain.vaulted_empty, fun _ _ hx => by cases hx⟩ ?_).2
  rintro c c' user - - - ⟨hVaulted, hListed⟩ hAdvances
  refine ⟨hAdvances.vaulted hVaulted, ?_⟩
  cases hAdvances with
  | effect hEffect => exact hListed.effect hVaulted hEffect
  | governed hGoverns => exact hListed.governed hGoverns
  | rewired hRewired => exact hListed.rewired hRewired
  | gains hGains => exact hListed.gains hVaulted hGains
  | skipped => exact fun a x hx => (hListed a x hx).mono fun _ _ hServes => hServes

end Treasury
