import Treasury.Proofs.Agreement
import Treasury.Proofs.Run

/-! A router and its custody contract agree all along a run: each effect of a call keeps the
agreement, and so do decisions, deployments and calls that point a contract anew. -/
namespace Treasury

open Exec Chain

/-- Where a router and its custody contract stand. -/
structure Bond where
  router : Address
  custody : Address
deriving DecidableEq, Repr

namespace Bond

/-- A chain on which the router and the custody contract of a bond have been set up, as far as they
stand, and are pointed at nobody else. -/
structure Kept (b : Bond) (c : Chain) : Prop where
  router : ∀ x, c.contract? b.router = some x → ∃ s, x = .router s ∧ s.custody = some b.custody
  custody : ∀ x, c.contract? b.custody = some x →
    ∃ q, x = .custody q ∧ (q.router = none ∨ q.router = some b.router)
  constructed : b.router ∉ c.blank ∧ b.custody ∉ c.blank

/-- The router and the custody contract of a bond agree, as far as they stand. -/
def Agrees (b : Bond) (c : Chain) : Prop := Agree c (c.routing b.router) (c.keeping b.custody)

variable {b : Bond} {c c' : Chain} {user : Address}

namespace Kept

theorem routers_custody (h : b.Kept c) {s : Router.State} {k : Address}
    (hs : c.contract? b.router = some (.router s)) (hk : s.custody = some k) : k = b.custody := by
  obtain ⟨_, ⟨⟩, hCustody⟩ := h.router _ hs
  exact Option.some.inj (hk.symm.trans hCustody)

/-- The custody contract of a bond obeys nobody but the router. -/
theorem obeyed (h : b.Kept c) {q : Custody} {a : Address}
    (hq : c.contract? b.custody = some (.custody q)) (hKnown : q.router = some a) :
    a = b.router := by
  obtain ⟨_, ⟨⟩, hNone | hSome⟩ := h.custody _ hq
  · simp [hKnown] at hNone
  · exact Option.some.inj (hKnown.symm.trans hSome)

theorem of_faces (h : b.Kept c) (hBlank : c'.blank = c.blank)
    (hFace : ∀ a, a ∉ c.blank → c'.face? a = c.face? a) : b.Kept c' := by
  refine ⟨fun x hx => ?_, fun x hx => ?_, hBlank ▸ h.constructed⟩
  · have hSame := hFace _ h.constructed.1
    rw [face?, hx, Option.map_some] at hSame
    obtain ⟨y, hy, hSame⟩ := Option.map_eq_some_iff.1 hSame.symm
    obtain ⟨s, rfl, hCustody⟩ := h.router y hy
    cases x <;> simp only [Contract.face, Contract.links, Contract.kind, Prod.mk.injEq,
      reduceCtorEq, false_and, List.cons.injEq] at hSame
    exact ⟨_, rfl, hSame.2.2.1 ▸ hCustody⟩
  · have hSame := hFace _ h.constructed.2
    rw [face?, hx, Option.map_some] at hSame
    obtain ⟨y, hy, hSame⟩ := Option.map_eq_some_iff.1 hSame.symm
    obtain ⟨q, rfl, hRouter⟩ := h.custody y hy
    cases x <;> simp only [Contract.face, Contract.links, Contract.kind, Prod.mk.injEq,
      reduceCtorEq, false_and, List.cons.injEq] at hSame
    exact ⟨_, rfl, hSame.2.1 ▸ hRouter⟩

theorem effect (h : b.Kept c) (hEffect : Effect user c c') : b.Kept c' :=
  h.of_faces hEffect.blank fun _ => hEffect.face?

end Kept

namespace Agrees

theorem of_same (h : b.Agrees c) (hServes : ∀ x p, c.Serves x p → c'.Serves x p)
    (hRouter : c'.routing b.router = c.routing b.router)
    (hCustody : c'.keeping b.custody = c.keeping b.custody) : b.Agrees c' := by
  rw [Agrees, hRouter, hCustody]
  exact h.mono hServes

/-- A contract is replaced that is neither a router nor a custody contract. -/
theorem put (h : b.Agrees c) {a : Address} {old new : Contract} (hOld : c.contract? a = some old)
    (hKind : new.kind = old.kind) (hPool : new.pool? a = old.pool? a)
    (hOther : old.kind ≠ .router ∧ old.kind ≠ .custody) : b.Agrees (c.put a new) := by
  have hRouting : new.routing = old.routing := by
    cases old <;> cases new <;> cases hKind <;> first | rfl | exact absurd rfl hOther.1
  have hKeeping : new.keeping = old.keeping := by
    cases old <;> cases new <;> cases hKind <;> first | rfl | exact absurd rfl hOther.2
  exact h.of_same (fun _ _ hServes => hServes.put hOld hKind hPool) (routing_put hOld hRouting _)
    (keeping_put hOld hKeeping _)

/-- A custody contract is replaced. -/
theorem put_custody (h : b.Agrees c) {k : Address} {q q' : Custody}
    (hOld : c.contract? k = some (.custody q))
    (hNew : k = b.custody → Agree c (c.routing b.router) q → Agree c (c.routing b.router) q') :
    b.Agrees (c.put k (.custody q')) := by
  have hServes : ∀ x p, c.Serves x p → (c.put k (.custody q')).Serves x p :=
    fun x p hServes => hServes.put hOld (by rfl) (by rfl)
  have hRouting : (c.put k (.custody q')).routing b.router = c.routing b.router :=
    routing_put hOld (by rfl) b.router
  by_cases hk : k = b.custody
  · subst hk
    rw [Agrees, keeping_of hOld] at h
    rw [Agrees, hRouting, keeping_of (contract?_put_self _ hOld)]
    exact (hNew rfl h).mono hServes
  · apply h.of_same hServes hRouting
    rw [keeping, contract?_put_of_ne _ _ (Ne.symm hk), keeping]

/-- A router is replaced. -/
theorem put_router (h : b.Agrees c) {a : Address} {s s' : Router.State}
    (hOld : c.contract? a = some (.router s))
    (hNew : a = b.router → Agree c s (c.keeping b.custody) → Agree c s' (c.keeping b.custody)) :
    b.Agrees (c.put a (.router s')) := by
  have hServes : ∀ x p, c.Serves x p → (c.put a (.router s')).Serves x p :=
    fun x p hServes => hServes.put hOld (by rfl) (by rfl)
  have hKeeping : (c.put a (.router s')).keeping b.custody = c.keeping b.custody :=
    keeping_put hOld (by rfl) b.custody
  by_cases ha : a = b.router
  · subst ha
    rw [Agrees, routing_of hOld] at h
    rw [Agrees, hKeeping, routing_of (contract?_put_self _ hOld)]
    exact (hNew rfl h).mono hServes
  · refine h.of_same hServes ?_ hKeeping
    rw [routing, contract?_put_of_ne _ _ (Ne.symm ha), routing]

/-- A flow leaves pools and custody alone. -/
theorem flow (h : b.Agrees c) (hFlow : Flow user c c') : b.Agrees c' := by
  have hServes : ∀ x p, c.Serves x p → c'.Serves x p := fun x _ hServes =>
    hServes.of_same hFlow.kind? hFlow.blank (pool?_of_outline? (hFlow.outline? x))
  have hRegistry : (c'.routing b.router).registry = (c.routing b.router).registry :=
    hFlow.routing (G := Router.State.registry) (fun _ _ => rfl) (fun _ => rfl) b.router
  have hFee : (c'.routing b.router).withdrawalFee = (c.routing b.router).withdrawalFee :=
    hFlow.routing (G := Router.State.withdrawalFee) (fun _ _ => rfl) (fun _ => rfl) b.router
  have hKeeping : c'.keeping b.custody = c.keeping b.custody := by
    rw [keeping, hFlow.map Contract.keeping_bare (fun _ _ => rfl) (fun _ => rfl), keeping]
  rw [Agrees, hKeeping]
  exact (Agree.mono h hServes).unchanged hRegistry hFee

/-- A router binds an adapter in its custody contract. Only the router of the bond can do so in the
custody contract of the bond. -/
theorem binds (h : b.Agrees c) (hKept : b.Kept c) {pool adapter : Address}
    (hBinds : Router.Binds user pool adapter c c') : b.Agrees c' := by
  induction hBinds with
  | @bound a k s s' q hRouter hKeeper hCustody hKnown hFree hPool hRebinds =>
    let kept : Custody := { q with adapters := q.adapters.write pool (some adapter) }
    have hNe := Router.custody_ne_router hCustody hRouter
    have hStays : (c.put k (.custody kept)).contract? a = some (.router s) :=
      contract?_put_other hNe hRouter
    by_cases ha : a = b.router
    · subst ha
      obtain rfl := hKept.routers_custody hRouter hKeeper
      have hServes : ∀ x p, c.Serves x p →
          ((c.put b.custody (.custody kept)).put b.router (.router s')).Serves x p :=
        fun x p hServes =>
          (hServes.put hCustody (by rfl) (by rfl)).put hStays (by rfl) (by rfl)
      rw [Agrees, routing_of hRouter, keeping_of hCustody] at h
      rw [Agrees, routing_of (contract?_put_self _ hStays),
        keeping_of (contract?_put_other hNe.symm (contract?_put_self _ hCustody))]
      exact (h.binds hFree hPool hRebinds).mono hServes
    · have hk : k ≠ b.custody := by
        rintro rfl
        exact ha (hKept.obeyed hCustody hKnown)
      exact (h.put_custody hCustody fun hAt => absurd hAt hk).put_router hStays
        fun hAt => absurd hAt ha
  | @relayed c₁ a k s s₁ s' hRouter hKeeper hOther _ hStays hRebinds _ ih =>
    -- The router of the bond has a custody contract in the place of custody.
    have ha : a ≠ b.router := by
      rintro rfl
      obtain rfl := hKept.routers_custody hRouter hKeeper
      obtain ⟨x, hx, hKind⟩ := Option.map_eq_some_iff.1 hOther
      obtain ⟨q, rfl, -⟩ := hKept.custody x hx
      cases hKind
    exact ih.put_router hStays fun hAt => absurd hAt ha

theorem configured (h : b.Agrees c) (hKept : b.Kept c) (hUser : user ≠ b.router)
    (hConfigured : Configured user c c') : b.Agrees c' := by
  cases hConfigured with
  | minters hOld => exact h.put hOld (by rfl) (by rfl) (by simp [Contract.kind])
  | tuned hOld hTuned =>
    refine h.put hOld hTuned.same.1 (Contract.pool?_of_outline hTuned.outline) ?_
    cases hTuned <;> simp [Contract.kind]
  | ruled hOld hRule =>
    obtain ⟨-, _, _, _, rfl⟩ := Custody.ruled_spec hRule
    exact h.put_custody hOld fun _ hAgree => hAgree.custody rfl rfl
  | obeyed hOld hObeys =>
    refine h.put_custody hOld fun hk => ?_
    subst hk
    exact absurd (hKept.obeyed hOld hObeys.caller) hUser
  | bound hBinds => exact h.binds hKept hBinds
  | @released a k pool s q q' hRouter hKeeper hCustody hWound hGiven =>
    refine h.put_custody hCustody fun hk hAgree => ?_
    subst hk
    obtain rfl := hKept.obeyed hCustody (Custody.Obeys.of_released c hGiven).caller
    rw [routing_of hRouter] at hAgree ⊢
    rcases hGiven with ⟨supported, -, hSupports, hRemove, rfl⟩ | hUnbind
    · exact hAgree.unsupported hWound hSupports hRemove
    · exact hAgree.unbound hUnbind

theorem deed (h : b.Agrees c) (hKept : b.Kept c) (hVaulted : c.Vaulted)
    (hDeed : Deed user c c') : b.Agrees c' := by
  have hEffect : Effect user c c' := .deed hDeed
  cases hDeed with
  | minted hOld | burned hOld => exact h.put hOld (by rfl) (by rfl) (by simp [Contract.kind])
  | @standalone _ old new hOld hIn hSame =>
    refine h.put hOld hSame ?_ ?_
    · cases old <;> cases new <;> simp_all [Contract.kind, Contract.pool?]
    · constructor <;> intro hKind <;> simp [hKind] at hIn
  | constructed hOld hBlank hBuilds =>
    refine h.of_same (fun x p => hEffect.serves hVaulted) ?_ ?_
    · rw [routing, contract?_put_of_ne _ _ (by rintro rfl; exact hKept.constructed.1 hBlank),
        routing]
    · rw [keeping, contract?_put_of_ne _ _ (by rintro rfl; exact hKept.constructed.2 hBlank),
        keeping]

theorem effect (h : b.Agrees c) (hKept : b.Kept c) (hVaulted : c.Vaulted)
    (hUser : user ≠ b.router) (hEffect : Effect user c c') : b.Agrees c' := by
  induction hEffect with
  | flow hFlow => exact h.flow hFlow
  | trans hFirst _ ihFirst ihThen =>
    exact ihThen (ihFirst h hKept hVaulted) (hKept.effect hFirst) (hFirst.vaulted hVaulted)
  | deed hDeed => exact h.deed hKept hVaulted hDeed
  | configured hConfigured => exact h.configured hKept hUser hConfigured

/-- A decision about the router of the bond keeps the agreement, and one about another router does
not touch it. -/
theorem governed (h : b.Agrees c) (hKept : b.Kept c) {a : Address}
    (hGoverns : c.Governs user a c') : b.Agrees c' := by
  cases hGoverns with
  | decided hRouter _ hDecides =>
    exact h.put_router hRouter fun _ hAgree => hAgree.amended hDecides.amended
  | ranked hRouter => exact h.put_router hRouter fun _ hAgree => hAgree.unchanged rfl rfl
  | @added k pool adapter target s q q' registry hRouter _ _ _ hKeeper hCustody hBound hPush
      hSupport =>
    have hNe := Router.custody_ne_router hCustody hRouter
    have hStays : (c.put a (.router { s with registry })).contract? k = some (.custody q) :=
      contract?_put_other hNe.symm hCustody
    by_cases ha : a = b.router
    · subst ha
      obtain rfl := hKept.routers_custody hRouter hKeeper
      have hServes : ∀ x p, c.Serves x p → ((c.put b.router (.router { s with registry })).put
          b.custody (.custody q')).Serves x p :=
        fun x p hServes => (hServes.put hRouter (by rfl) (by rfl)).put hStays (by rfl) (by rfl)
      rw [Agrees, routing_of hRouter, keeping_of hCustody] at h
      rw [Agrees, routing_of (contract?_put_other hNe (contract?_put_self _ hRouter)),
        keeping_of (contract?_put_self _ hStays)]
      exact (h.added hBound hPush hSupport).mono hServes
    · have hk : k ≠ b.custody := by
        rintro rfl
        exact ha (hKept.obeyed hCustody (Custody.support_spec hSupport).1)
      exact (h.put_router hRouter fun hAt => absurd hAt ha).put_custody hStays
        fun hAt => absurd hAt hk
  | removed hRouter _ hKeeper hCustody hUnbound _ _ hRemove =>
    refine h.put_router hRouter fun ha hAgree => ?_
    subst ha
    obtain rfl := hKept.routers_custody hRouter hKeeper
    rw [keeping_of hCustody] at hAgree ⊢
    exact hAgree.removed hUnbound hRemove

theorem rewired (h : b.Agrees c) (hRewired : Rewired user c c') : b.Agrees c' := by
  cases hRewired with
  | custody hOld hSet =>
    simp only [Custody.setRouter, Result.bind_eq_ok] at hSet
    obtain ⟨_, _, ⟨⟩⟩ := hSet
    exact h.put_custody hOld fun _ hAgree => hAgree.custody rfl rfl
  | share hOld => exact h.put hOld (by rfl) (by rfl) (by simp [Contract.kind])
  | router hOld => exact h.put_router hOld fun _ hAgree => hAgree.unchanged rfl rfl

end Agrees

end Bond

/-- A new router has no pools and a fee within bounds. -/
theorem Construction.Builds.routing {c : Chain} {kind : Contract.Kind} {x : Contract}
    (h : Construction.Builds c kind.blank x) :
    x.routing.registry = {} ∧ x.routing.withdrawalFee ≤ maxWithdrawalFee := by
  generalize hOld : kind.blank = old at h
  cases h with
  | @router s s' setup hConstruct =>
    obtain rfl : s = {} := by cases kind <;> cases hOld; rfl
    simp only [Router.State.construct, Result.bind_eq_ok, ensure_eq_ok] at hConstruct
    obtain ⟨_, ⟨hFee, -⟩, roles, -, ⟨⟩⟩ := hConstruct
    exact ⟨rfl, hFee⟩
  | _ => exact ⟨rfl, Nat.zero_le _⟩

/-- A new custody contract has no pools. -/
theorem Construction.Builds.keeping {c : Chain} {kind : Contract.Kind} {x : Contract}
    (h : Construction.Builds c kind.blank x) :
    x.keeping.supported = {} ∧ x.keeping.adapters = .const none := by
  generalize hOld : kind.blank = old at h
  cases h with
  | @custody q q' admin limit part hConstruct =>
    obtain rfl : q = {} := by cases kind <;> cases hOld; rfl
    simp only [Custody.construct, Result.bind_eq_ok] at hConstruct
    obtain ⟨_, _, ⟨⟩⟩ := hConstruct
    exact ⟨rfl, rfl⟩
  | _ => exact ⟨rfl, rfl⟩

namespace Bond

variable {b : Bond} {c c' : Chain}

theorem Agrees.gains (h : b.Agrees c) (hVaulted : c.Vaulted) {a : Address} {x : Contract}
    (hGains : c.Gains a x c') : b.Agrees c' := by
  have hServes : ∀ y p, c.Serves y p → c'.Serves y p := fun y p => hGains.serves hVaulted
  have hFresh : c.routing a = {} ∧ c.keeping a = {} := by
    rw [routing, keeping, hGains.free]
    exact ⟨rfl, rfl⟩
  have hAt : c'.routing a = x.routing ∧ c'.keeping a = x.keeping := by
    rw [routing, keeping, hGains.contracts, if_pos rfl]
    exact ⟨rfl, rfl⟩
  have hElsewhere : ∀ y, y ≠ a → c'.routing y = c.routing y ∧ c'.keeping y = c.keeping y := by
    intro y hy
    rw [routing, keeping, hGains.contracts, if_neg hy]
    exact ⟨rfl, rfl⟩
  obtain ⟨hRouting, hKeeping⟩ : (x.routing.registry = {} ∧
      x.routing.withdrawalFee ≤ maxWithdrawalFee) ∧
        x.keeping.supported = {} ∧ x.keeping.adapters = .const none := by
    obtain ⟨kind, hBuilds | ⟨rfl, -⟩⟩ := hGains.new
    · exact ⟨hBuilds.routing, hBuilds.keeping⟩
    · cases kind <;> exact ⟨⟨rfl, Nat.zero_le _⟩, rfl, rfl⟩
  have hRouter : Agree c' (c'.routing b.router) (c.keeping b.custody) := by
    by_cases hr : b.router = a
    · rw [hr, hAt.1]
      rw [Agrees, hr, hFresh.1] at h
      apply (h.mono hServes).router _ hRouting.2
      rw [hRouting.1]
      exact .refl Pool.Registry.sound_empty .refl
    · rw [(hElsewhere _ hr).1]
      exact Agree.mono h hServes
  by_cases hk : b.custody = a
  · rw [Agrees, hk, hAt.2]
    rw [hk, hFresh.2] at hRouter
    exact hRouter.custody hKeeping.1 hKeeping.2
  · rw [Agrees, (hElsewhere _ hk).2]
    exact hRouter

/-- A router and its custody contract agree about pools at all times, as long as they are pointed at
each other and the router is not among those that call from outside. -/
theorem agrees {May : Address → Prop} {Kept : Chain → Prop} (h : Run May Kept c)
    (hBond : ∀ c, Kept c → b.Kept c) (hOther : ∀ user, May user → user ≠ b.router) :
    b.Agrees c := by
  have hStart : Chain.Vaulted {} ∧ b.Agrees {} := ⟨Chain.vaulted_empty, Agree.fresh _⟩
  refine (h.invariant (P := fun c => c.Vaulted ∧ b.Agrees c) hStart ?_).2
  rintro c c' user hMay hKept - ⟨hVaulted, hAgrees⟩ hAdvances
  refine ⟨hAdvances.vaulted hVaulted, ?_⟩
  cases hAdvances with
  | effect hEffect =>
    exact hAgrees.effect (hBond c hKept) hVaulted (hOther user hMay) hEffect
  | governed hGoverns => exact hAgrees.governed (hBond c hKept) hGoverns
  | rewired hRewired => exact hAgrees.rewired hRewired
  | gains hGains => exact hAgrees.gains hVaulted hGains
  | skipped => exact hAgrees.of_same (fun _ _ hServes => hServes) rfl rfl

/-- In a run of accounts a router and its custody contract that stand agree about pools. -/
theorem agree {Kept : Chain → Prop} {s : Router.State} {q : Custody}
    (h : Run Address.IsAccount Kept c) (hBond : ∀ c, Kept c → b.Kept c)
    (hs : c.contract? b.router = some (.router s))
    (hq : c.contract? b.custody = some (.custody q)) : Agree c s q := by
  have hAgrees : b.Agrees c := agrees h hBond fun user hUser =>
    h.ne_of_stands hUser (by simp [kind?_of_contract? hs])
  rwa [Agrees, routing_of hs, keeping_of hq] at hAgrees

end Bond

namespace Wiring

/-- The router and the custody contract of a treasury. -/
def bond (w : Wiring) : Bond := ⟨w.router, w.custody⟩

/-- The router and the custody contract of a treasury agree, as far as they stand. -/
def Agrees (w : Wiring) (c : Chain) : Prop := Agree c (c.routing w.router) (c.keeping w.custody)

theorem Kept.bond {w : Wiring} {c : Chain} (h : w.Kept c) : w.bond.Kept c := by
  refine ⟨fun x hx => ?_, fun x hx => h.custody hx, h.constructed _ (by simp [places, Wiring.bond]),
    h.constructed _ (by simp [places, Wiring.bond])⟩
  obtain ⟨hKind, -⟩ := (h.admits _ _ hx).2.2.1 rfl
  cases x <;> cases hKind
  exact ⟨_, rfl, (h.router hx).2.2.1⟩

end Wiring

/-- In a wired run the router and the custody contract agree about pools at all times. -/
theorem WiredRun.agrees {w : Wiring} {c : Chain} (h : WiredRun w c)
    (hPlace : ∃ d, w.router = .contract d) : w.Agrees c := by
  obtain ⟨place, hPlace⟩ := hPlace
  refine Bond.agrees h.run (fun c hKept => hKept.bond) ?_
  rintro _ ⟨d, rfl⟩
  simp [Wiring.bond, hPlace]

end Treasury
