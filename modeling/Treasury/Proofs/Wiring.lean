import Treasury.Proofs.Calls

/-! The wiring of a treasury: a stable token, a custody contract, a router and a share token that
are pointed at each other. An effect leaves all pointers of constructed contracts as they are, so
only a call made for that purpose, or a constructor, can change a wiring. -/
namespace Treasury

open Chain

namespace Contract

/-- What a contract of a treasury is pointed at. -/
def links : Contract → List (Option Address)
  | custody q => [q.router]
  | router s => [s.stable, s.custody, s.shareToken]
  | share t => [t.router]
  | _ => []

/-- The kind of a contract with what it is pointed at. -/
def face (x : Contract) : Kind × List (Option Address) := (x.kind, x.links)

/-- The vault of a wrapped-vault adapter. -/
def vault? : Contract → Option Address
  | wrapped s => s.vault
  | _ => none

/-- What stays of a contract whatever is done with it, as long as it is not set up anew and nothing
is pointed anywhere else. -/
def outline (x : Contract) : (Kind × List (Option Address)) × Option Address := (x.face, x.vault?)

theorem outline_bare (x : Contract) : x.bare.outline = x.outline := by cases x <;> rfl

/-- The pool that an adapter at an address serves. -/
def pool? (self : Address) : Contract → Option Address
  | fixedRate _ => some self
  | synthetic _ => some self
  | wrapped s => s.vault
  | _ => none

theorem pool?_of_outline {self : Address} {x y : Contract} (h : y.outline = x.outline) :
    y.pool? self = x.pool? self := by
  simp only [outline, face, Prod.mk.injEq] at h
  obtain ⟨⟨hKind, -⟩, hVault⟩ := h
  cases x <;> cases y <;> cases hKind <;> first | rfl | exact hVault

end Contract

namespace Chain

/-- The kind and the pointers of the contract at an address. -/
def face? (c : Chain) (a : Address) : Option (Contract.Kind × List (Option Address)) :=
  (c.contract? a).map Contract.face

/-- The outline of the contract at an address. -/
def outline? (c : Chain) (a : Address) :
    Option ((Contract.Kind × List (Option Address)) × Option Address) :=
  (c.contract? a).map Contract.outline

/-- The pool that the adapter at an address serves. -/
def pool? (c : Chain) (a : Address) : Option Address := (c.contract? a).bind (Contract.pool? a)

variable {c c' : Chain} {a b : Address} {old new : Contract}

theorem face?_of_outline? (h : c'.outline? a = c.outline? a) : c'.face? a = c.face? a := by
  have hMap := congrArg (Option.map Prod.fst) h
  rw [outline?, outline?, Option.map_map, Option.map_map] at hMap
  exact hMap

theorem pool?_of_outline? (h : c'.outline? a = c.outline? a) : c'.pool? a = c.pool? a := by
  rw [pool?, pool?]
  cases hx : c.contract? a with
  | none =>
    rw [outline?, outline?, hx, Option.map_none, Option.map_eq_none_iff] at h
    rw [h]
  | some x =>
    rw [outline?, outline?, hx, Option.map_some, Option.map_eq_some_iff] at h
    obtain ⟨y, hy, hSame⟩ := h
    rw [hy, Option.bind_some, Option.bind_some, Contract.pool?_of_outline hSame]

theorem face?_put (hOld : c.contract? a = some old) (hFace : new.face = old.face) (b : Address) :
    (c.put a new).face? b = c.face? b :=
  map_put hOld hFace b

theorem outline?_put (hOld : c.contract? a = some old) (hSame : new.outline = old.outline)
    (b : Address) : (c.put a new).outline? b = c.outline? b :=
  map_put hOld hSame b

theorem Alike.face? (h : Alike c c') (a : Address) : c'.face? a = c.face? a :=
  face?_of_outline? (h.map Contract.outline_bare a)

end Chain

/-- An adapter serves the pool that it says it serves. -/
theorem Strategy.poolId_eq_ok {c : Chain} {x pool : Address} :
    Strategy.poolId x c = .ok pool ↔ c.pool? x = some pool := by
  simp only [Strategy.poolId, View.bind_eq_ok, View.contract_eq_ok, Chain.pool?,
    Option.bind_eq_some_iff]
  refine exists_congr fun found => and_congr_right fun _ => ?_
  cases found <;> simp [Contract.pool?]

theorem Strategy.Tuned.outline {caller : Address} {old new : Contract}
    (h : Strategy.Tuned caller old new) : new.outline = old.outline := by
  cases h with
  | wrappedPaused h =>
    simp only [Wrapped.setPaused, Result.bind_eq_ok] at h
    obtain ⟨_, _, ⟨⟩⟩ := h
    rfl
  | fixedRate | fixedRatePaused | syntheticRate | turned => rfl

theorem Custody.Obeys.router {c : Chain} {caller pool : Address} {q q' : Custody}
    (h : q.Obeys c caller pool q') : q'.router = q.router := by
  cases h with
  | bound | unsupported => rfl
  | unbound h =>
    obtain ⟨-, -, rfl⟩ := unbind_spec h
    rfl
  | supported h =>
    obtain ⟨-, -, rfl⟩ := support_spec h
    rfl

/-- A custody contract obeys its router. -/
theorem Custody.Obeys.caller {c : Chain} {caller pool : Address} {q q' : Custody}
    (h : q.Obeys c caller pool q') : q.router = some caller := by
  cases h with
  | bound hRouter | unsupported hRouter => exact hRouter
  | unbound h => exact (unbind_spec h).1
  | supported h => exact (support_spec h).1

/-- A custody contract that gives a pool up obeys its router. -/
theorem Custody.Obeys.of_released (c : Chain) {caller pool : Address} {q q' : Custody}
    (h : (∃ supported, q.router = some caller ∧ q.supports pool = true ∧
        q.supported.swapRemove pool = .ok supported ∧ q' = { q with supported }) ∨
      q.unbind caller pool = .ok q') : q.Obeys c caller pool q' := by
  rcases h with ⟨supported, hRouter, hSupports, hRemove, rfl⟩ | hUnbind
  · exact .unsupported hRouter hSupports hRemove
  · exact .unbound hUnbind

/-- The admin of a custody contract may change what is dust, and who is the admin. -/
theorem Custody.ruled_spec {caller : Address} {q q' : Custody}
    (h : (∃ limit part, q.setDust caller limit part = .ok q') ∨
      ∃ admin, q.setAdmin caller admin = .ok q') :
    q.admin = some caller ∧
      ∃ admin dustLimit dustPart, q' = { q with admin, dustLimit, dustPart } := by
  rcases h with ⟨limit, part, h⟩ | ⟨admin, h⟩
  · simp only [setDust, requireAdmin, Result.bind_eq_ok, ensure_eq_ok] at h
    obtain ⟨_, hAdmin, _, _, ⟨⟩⟩ := h
    exact ⟨hAdmin, _, _, _, rfl⟩
  · simp only [setAdmin, requireAdmin, Result.bind_eq_ok, ensure_eq_ok] at h
    obtain ⟨_, hAdmin, ⟨⟩⟩ := h
    exact ⟨hAdmin, _, _, _, rfl⟩

/-- Where a custody contract points is settled by its router. -/
theorem Custody.outline_of_router {q q' : Custody} (h : q'.router = q.router) :
    (Contract.custody q').outline = (Contract.custody q).outline := by
  simp only [Contract.outline, Contract.face, Contract.links, Contract.kind, Contract.vault?, h]

/-- No amendment makes a router point anywhere else. -/
theorem Router.Amended.outline {s s' : Router.State} (h : Router.Amended s s') :
    (Contract.router s').outline = (Contract.router s).outline := by
  simp only [Contract.outline, Contract.face, Contract.links, Contract.kind, Contract.vault?,
    h.stable, h.custody, h.shareToken]

theorem Router.Records.face {s s' : Router.State} (h : Router.Records s s') :
    (Contract.router s').face = (Contract.router s).face := by
  obtain ⟨fees, rfl⟩ := h.fees
  rfl

theorem Router.Binds.outline? {pool adapter : Address} {c c' : Chain}
    (h : Router.Binds user pool adapter c c') (b : Address) : c'.outline? b = c.outline? b :=
  h.map (fun _ _ => rfl) (fun _ _ => rfl) b

theorem Configured.outline? {user : Address} {c c' : Chain} (h : Configured user c c')
    (b : Address) : c'.outline? b = c.outline? b := by
  cases h with
  | minters hOld h => exact outline?_put hOld (by rfl) b
  | tuned hOld h => exact outline?_put hOld h.outline b
  | ruled hOld h =>
    obtain ⟨-, _, _, _, rfl⟩ := Custody.ruled_spec h
    exact outline?_put hOld (by rfl) b
  | obeyed hOld h => exact outline?_put hOld (Custody.outline_of_router h.router) b
  | bound h => exact h.outline? b
  | released _ _ hCustody _ h =>
    exact outline?_put hCustody (Custody.outline_of_router (Custody.Obeys.of_released c h).router) b

/-- No decision makes a router point anywhere else. -/
theorem Chain.Governs.outline? {user a : Address} {c c' : Chain} (h : c.Governs user a c')
    (b : Address) : c'.outline? b = c.outline? b :=
  h.map (fun _ _ hDecides => hDecides.amended.outline) (fun _ _ => rfl) (fun _ _ => rfl)
    (fun _ _ => rfl) b

theorem Flow.outline? {user : Address} {c c' : Chain} (h : Flow user c c') (b : Address) :
    c'.outline? b = c.outline? b :=
  h.map Contract.outline_bare (fun _ _ => rfl) (fun _ => rfl) b

/-- A deed leaves outlines as they are, except where a constructor runs. -/
theorem Deed.outline?_or_built {user : Address} {c c' : Chain} (h : Deed user c c') (b : Address) :
    c'.outline? b = c.outline? b ∨ b ∈ c.blank ∧
      ∃ old new, Construction.Builds c' old new ∧ c'.outline? b = some new.outline := by
  cases h with
  | minted hOld | burned hOld => exact .inl (outline?_put hOld (by rfl) b)
  | @standalone _ old new hOld hKind hSame =>
    refine .inl (outline?_put hOld ?_ b)
    cases old <;> cases new <;>
      simp_all [Contract.kind, Contract.outline, Contract.face, Contract.links, Contract.vault?]
  | @constructed a old new hOld hIn hBuilds =>
    by_cases hb : b = a
    · subst hb
      refine .inr ⟨hIn, old, new, hBuilds.of_kinds (kind?_put hOld hBuilds.keeps.1), ?_⟩
      rw [Chain.outline?, contract?_put_self _ hOld, Option.map_some]
    · exact .inl (by rw [Chain.outline?, contract?_put_of_ne _ _ hb, Chain.outline?])

namespace Effect

variable {user : Address} {c c' : Chain}

/-- An effect leaves outlines as they are, except where a constructor runs. -/
theorem outline?_or_built (h : Effect user c c') (b : Address) :
    c'.outline? b = c.outline? b ∨ b ∈ c.blank ∧
      ∃ old new, Construction.Builds c' old new ∧ c'.outline? b = some new.outline := by
  induction h with
  | flow hFlow => exact .inl (hFlow.outline? b)
  | trans hFirst hThen ihFirst ihThen =>
    rcases ihThen with hSame | ⟨hIn, hBuilt⟩
    · rcases ihFirst with hBefore | ⟨hIn, old, new, hBuilds, hNew⟩
      · exact .inl (hSame.trans hBefore)
      · exact .inr ⟨hIn, old, new, hBuilds.of_kinds hThen.kind?, hSame.trans hNew⟩
    · exact .inr ⟨hFirst.blank ▸ hIn, hBuilt⟩
  | deed h => exact h.outline?_or_built b
  | configured h => exact .inl (h.outline? b)

/-- An effect leaves the outlines of constructed contracts as they are. -/
theorem outline? (h : Effect user c c') {b : Address} (hBlank : b ∉ c.blank) :
    c'.outline? b = c.outline? b :=
  (h.outline?_or_built b).resolve_right fun hBuilt => hBlank hBuilt.1

/-- An effect leaves the pointers of constructed contracts as they are. -/
theorem face? (h : Effect user c c') {b : Address} (hBlank : b ∉ c.blank) :
    c'.face? b = c.face? b :=
  face?_of_outline? (h.outline? hBlank)

end Effect

/-- Where the four contracts of a treasury stand. -/
structure Wiring where
  stable : Address
  custody : Address
  router : Address
  share : Address
deriving DecidableEq, Repr

namespace Wiring

/-- The four addresses. -/
def places (w : Wiring) : List Address := [w.stable, w.custody, w.router, w.share]

/-- What may stand at an address. At the four places it is the contract that belongs there, which
is pointed at the others or at nothing yet. Elsewhere it is anything but a second router. -/
def Admits (w : Wiring) (a : Address) (x : Contract) : Prop :=
  (a = w.stable → x.kind = .stable) ∧
    (a = w.custody → x.kind = .custody ∧ x.links ∈ [[none], [some w.router]]) ∧
    (a = w.router → x.kind = .router ∧ x.links ∈ [[some w.stable, some w.custody, none],
      [some w.stable, some w.custody, some w.share]]) ∧
    (a = w.share → x.kind = .share ∧ x.links ∈ [[none], [some w.router]]) ∧
    (x.kind = .router → a = w.router)

instance (w : Wiring) (a : Address) (x : Contract) : Decidable (w.Admits a x) := by
  unfold Admits
  infer_instance

/-- A chain on which the wiring has not been changed, nor left without a constructor's run. -/
structure Kept (w : Wiring) (c : Chain) : Prop where
  admits : ∀ a x, c.contract? a = some x → w.Admits a x
  constructed : ∀ a ∈ w.places, a ∉ c.blank

/-- A chain on which all four contracts stand and point at each other. -/
structure Complete (w : Wiring) (c : Chain) : Prop where
  stable : ∃ t, c.contract? w.stable = some (.stable t)
  custody : ∃ q, c.contract? w.custody = some (.custody q) ∧ q.router = some w.router
  router : ∃ s, c.contract? w.router = some (.router s) ∧ s.stable = some w.stable ∧
    s.custody = some w.custody ∧ s.shareToken = some w.share
  share : ∃ t, c.contract? w.share = some (.share t) ∧ t.router = some w.router

variable {w : Wiring} {c c' : Chain} {user : Address}

theorem Admits.of_face {a : Address} {x y : Contract} (h : w.Admits a x)
    (hFace : y.face = x.face) : w.Admits a y := by
  simp only [Contract.face, Prod.mk.injEq] at hFace
  simpa only [Admits, hFace.1, hFace.2] using h

namespace Kept

theorem custody (h : w.Kept c) {x : Contract} (hx : c.contract? w.custody = some x) :
    ∃ q, x = .custody q ∧ (q.router = none ∨ q.router = some w.router) := by
  obtain ⟨hKind, hLinks⟩ := (h.admits _ _ hx).2.1 rfl
  cases x with
  | custody q => exact ⟨q, rfl, by simpa [Contract.links] using hLinks⟩
  | _ => cases hKind

theorem router (h : w.Kept c) {a : Address} {s : Router.State}
    (hs : c.contract? a = some (.router s)) :
    a = w.router ∧ s.stable = some w.stable ∧ s.custody = some w.custody ∧
      (s.shareToken = none ∨ s.shareToken = some w.share) := by
  have hPlace : a = w.router := (h.admits _ _ hs).2.2.2.2 rfl
  have hLinks := ((h.admits _ _ hs).2.2.1 hPlace).2
  simp only [Contract.links, List.mem_cons, List.cons.injEq, List.not_mem_nil, or_false,
    and_true] at hLinks
  refine ⟨hPlace, ?_⟩
  rcases hLinks with ⟨hStable, hCustody, hShare⟩ | ⟨hStable, hCustody, hShare⟩
  · exact ⟨hStable, hCustody, .inl hShare⟩
  · exact ⟨hStable, hCustody, .inr hShare⟩

theorem share (h : w.Kept c) {x : Contract} (hx : c.contract? w.share = some x) :
    ∃ t, x = .share t ∧ (t.router = none ∨ t.router = some w.router) := by
  obtain ⟨hKind, hLinks⟩ := (h.admits _ _ hx).2.2.2.1 rfl
  cases x with
  | share t => exact ⟨t, rfl, by simpa [Contract.links] using hLinks⟩
  | _ => cases hKind

/-- Chains that differ in their books only have the same wiring. -/
theorem alike (h : w.Kept c) (hAlike : Alike c c') : w.Kept c' := by
  refine ⟨fun a x hx => ?_, fun a ha => hAlike.1 ▸ h.constructed a ha⟩
  have hFace := hAlike.face? a
  simp only [face?, hx, Option.map_some] at hFace
  obtain ⟨y, hy, hSame⟩ := Option.map_eq_some_iff.1 hFace.symm
  exact (h.admits a y hy).of_face hSame.symm

/-- An effect does not change the wiring. -/
theorem effect (h : w.Kept c) (hEffect : Effect user c c') : w.Kept c' := by
  refine ⟨fun a x hx => ?_, fun a ha => hEffect.blank ▸ h.constructed a ha⟩
  by_cases hBlank : a ∈ c.blank
  · have hKind := hEffect.kind? a
    simp only [kind?, hx, Option.map_some] at hKind
    obtain ⟨y, hy, hSame⟩ := Option.map_eq_some_iff.1 hKind.symm
    have hElsewhere : a ∉ w.places := fun ha => h.constructed a ha hBlank
    simp only [places, List.mem_cons, List.not_mem_nil, or_false, not_or] at hElsewhere
    have hRouter := (h.admits a y hy).2.2.2.2
    simp only [Admits, hElsewhere, false_implies, true_and]
    exact fun hk => absurd (hRouter (hSame.trans hk)) hElsewhere.2.2.1
  · have hFace := hEffect.face? hBlank
    simp only [face?, hx, Option.map_some] at hFace
    obtain ⟨y, hy, hSame⟩ := Option.map_eq_some_iff.1 hFace.symm
    exact (h.admits a y hy).of_face hSame.symm

end Kept

/-- The router's idle stable is its balance. -/
theorem Complete.idleBalance_eq (h : w.Complete c) :
    Router.idleBalance w.router c = .ok (c.balance w.stable w.router) := by
  obtain ⟨s, hs, hStable, -⟩ := h.router
  obtain ⟨t, ht⟩ := h.stable
  refine View.bind_eq_ok.2 ⟨s, View.callee_eq_ok.2 hs, ?_⟩
  rw [hStable]
  exact Token.balanceOf_eq _ (books?_of_contract? ht)

/-- A wiring is complete if each of the four contracts shows the right face. -/
theorem complete_iff_faces : w.Complete c ↔
    c.face? w.stable = some (.stable, []) ∧ c.face? w.custody = some (.custody, [some w.router]) ∧
      c.face? w.router = some (.router, [some w.stable, some w.custody, some w.share]) ∧
      c.face? w.share = some (.share, [some w.router]) := by
  constructor
  · rintro ⟨⟨t, ht⟩, ⟨q, hq, hKnown⟩, ⟨s, hs, hStable, hCustody, hShare⟩, ⟨u, hu, hRouter⟩⟩
    refine ⟨?_, ?_, ?_, ?_⟩
    · rw [face?, ht]
      rfl
    · rw [face?, hq, ← hKnown]
      rfl
    · rw [face?, hs, ← hStable, ← hCustody, ← hShare]
      rfl
    · rw [face?, hu, ← hRouter]
      rfl
  · simp only [face?, Option.map_eq_some_iff, Contract.face, Prod.mk.injEq]
    rintro ⟨⟨x, hx, hStable, -⟩, ⟨y, hy, hCustody, hTo⟩, ⟨z, hz, hRouter, hLinks⟩,
      ⟨u, hu, hShare, hOwner⟩⟩
    refine ⟨?_, ?_, ?_, ?_⟩
    · cases x <;> cases hStable
      exact ⟨_, hx⟩
    · cases y <;> cases hCustody
      exact ⟨_, hy, by simpa [Contract.links] using hTo⟩
    · cases z <;> cases hRouter
      exact ⟨_, hz, by simpa [Contract.links] using hLinks⟩
    · cases u <;> cases hShare
      exact ⟨_, hu, by simpa [Contract.links] using hOwner⟩

/-- Where the router of a complete treasury points. -/
theorem Complete.links (h : w.Complete c) {s : Router.State}
    (hs : c.contract? w.router = some (.router s)) :
    s.stable = some w.stable ∧ s.custody = some w.custody ∧ s.shareToken = some w.share := by
  obtain ⟨r, hr, hLinks⟩ := h.router
  obtain rfl : s = r := storage_unique hs hr
  exact hLinks

theorem Complete.of_faces (h : w.Complete c) (hFace : ∀ a ∈ w.places, c'.face? a = c.face? a) :
    w.Complete c' := by
  simp only [places, List.forall_mem_cons] at hFace
  rw [complete_iff_faces] at h ⊢
  rw [hFace.1, hFace.2.1, hFace.2.2.1, hFace.2.2.2.1]
  exact h

end Wiring

end Treasury
