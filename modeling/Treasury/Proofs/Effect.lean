import Treasury.Proofs.Trade
import Treasury.Construction

/-! The effect of a call: every way in which a call that a user makes can change the chain, apart
from what the admins of routers decide and from pointing contracts at each other. Flows trade, issue
and destroy shares and are recorded by routers; other calls create and destroy units of the stable
token, and change settings. No call makes a contract or takes one away. -/
namespace Treasury

open Token (Move Ledger)

/-- What a router records in the course of a flow: what has become of fees. -/
inductive Router.Records (s : Router.State) : Router.State → Prop where
  | collected {n : Amount} {s' : Router.State} (h : s.collect n = .ok s') : Records s s'
  | reinvested {n m : Amount} {s' : Router.State} (h : s.reinvest n m = .ok s') : Records s s'

/-- A router has recorded nothing but fees. -/
theorem Router.Records.fees {s s' : Router.State} (h : Router.Records s s') :
    ∃ fees, s' = { s with fees } := by
  cases h with
  | collected h =>
    obtain ⟨_, _, ⟨⟩⟩ := Result.bind_eq_ok.1 h
    exact ⟨_, rfl⟩
  | reinvested h =>
    simp only [State.reinvest, Result.bind_eq_ok] at h
    obtain ⟨_, _, _, _, ⟨⟩⟩ := h
    exact ⟨_, rfl⟩

/-- A flow of value on behalf of a user, with what routers record about it. It leaves what admins
have decided as it is, except that somebody who may can stop a router in the middle of it. -/
inductive Flow (user : Address) : Chain → Chain → Prop where
  | trade {c c' : Chain} (hTrade : Trade user c c') : Flow user c c'
  | trans {c c₁ c' : Chain} (hFirst : Flow user c c₁) (hThen : Flow user c₁ c') : Flow user c c'
  /-- A router lets an adapter take stable of its own, but only for the time of a deposit. -/
  | lent {c c₁ c₂ c' : Chain} {t lender spender : Address} {n : Amount} (hLender : c.Lends lender)
      (hAllow : c.Moves t (.approve lender spender n) c₁) (hFlow : Flow user c₁ c₂)
      (hEnd : c₂.Moves t (.approve lender spender 0) c') : Flow user c c'
  /-- A share token issues shares. -/
  | issued {c : Chain} {a receiver : Address} {n : Amount} {t : ShareToken} {l : Ledger}
      (hOld : c.contract? a = some (.share t)) (h : t.ledger.mint receiver n = .ok l) :
      Flow user c (c.put a (.share { t with ledger := l }))
  /-- A share token destroys shares on behalf of an initiator. A share token whose router the user
  is believes it about who that is. -/
  | retired {c : Chain} {a initiator owner : Address} {n : Amount} {t t' : ShareToken}
      (hOld : c.contract? a = some (.share t))
      (hInitiator : initiator = user ∨ t.router = some user)
      (h : t.retire initiator owner n = .ok t') : Flow user c (c.put a (.share t'))
  | recorded {c : Chain} {a : Address} {s s' : Router.State}
      (hOld : c.contract? a = some (.router s)) (h : Router.Records s s') :
      Flow user c (c.put a (.router s'))
  /-- The user, or a contract, stops a router. -/
  | paused {c : Chain} {a caller : Address} {s : Router.State}
      (hOld : c.contract? a = some (.router s)) (hCaller : c.Acts user caller)
      (hRole : s.roles.has Roles.pauser caller = true ∨ s.roles.has Roles.admin caller = true) :
      Flow user c (c.put a (.router { s with paused := true }))

/-- An admin changes the settings of an adapter. -/
inductive Strategy.Tuned (caller : Address) : Contract → Contract → Prop where
  | fixedRate {s s' : Strategy.FixedRate} {rate : Amount} (h : s.setRate caller rate = .ok s') :
      Tuned caller (.fixedRate s) (.fixedRate s')
  | fixedRatePaused {s s' : Strategy.FixedRate} {paused : Bool}
      (h : s.setPaused caller paused = .ok s') : Tuned caller (.fixedRate s) (.fixedRate s')
  | syntheticRate {s s' : Strategy.Synthetic} {rate : Amount} (h : s.setRate caller rate = .ok s') :
      Tuned caller (.synthetic s) (.synthetic s')
  | turned {s s' : Strategy.Synthetic} {switch : Strategy.Switch}
      (h : s.turn caller switch = .ok s') : Tuned caller (.synthetic s) (.synthetic s')
  | wrappedPaused {s s' : Strategy.Wrapped} {paused : Bool}
      (h : s.setPaused caller paused = .ok s') : Tuned caller (.wrapped s) (.wrapped s')

/-- A custody contract does what its router, who calls, may ask of it. -/
inductive Custody.Obeys (c : Chain) (caller pool : Address) (q : Custody) : Custody → Prop where
  | bound {adapter : Address} (hRouter : q.router = some caller) (hFree : q.adapter? pool = none)
      (hPool : Strategy.poolId adapter c = .ok pool) :
      Obeys c caller pool q { q with adapters := q.adapters.write pool (some adapter) }
  | unbound {q' : Custody} (h : q.unbind caller pool = .ok q') : Obeys c caller pool q q'
  | supported {q' : Custody} (h : q.support caller pool = .ok q') : Obeys c caller pool q q'
  | unsupported {supported : Roster} (hRouter : q.router = some caller)
      (hSupports : q.supports pool = true) (h : q.supported.swapRemove pool = .ok supported) :
      Obeys c caller pool q { q with supported }

/-- A router has the adapter that it was told, which is that of a pool's config if the pool is
registered. -/
inductive Router.Rebinds (pool adapter : Address) (s : Router.State) : Router.State → Prop where
  | unknown (hNone : s.registry.get? pool = none) : Rebinds pool adapter s s
  | known {config : Pool.Config} {registry : Pool.Registry}
      (hGet : s.registry.get? pool = some config)
      (hUpdate : s.registry.update { config with adapter } = .ok registry) :
      Rebinds pool adapter s { s with registry }

/-- The user, or a contract that acts for it, is an admin of a router. -/
def Chain.Entitled (c : Chain) (user : Address) (s : Router.State) : Prop :=
  ∃ caller, c.Acts user caller ∧ s.roles.has Roles.admin caller = true

/-- An adapter is bound to a pool. A router has its custody contract do that, and keeps the config
of the pool in step; so does a router that takes that router for its custody contract. -/
inductive Router.Binds (user pool adapter : Address) (c : Chain) : Chain → Prop where
  | bound {a k : Address} {s s' : Router.State} {q : Custody}
      (hRouter : c.contract? a = some (.router s)) (hKeeper : s.custody = some k)
      (hCustody : c.contract? k = some (.custody q)) (hKnown : q.router = some a)
      (hFree : q.adapter? pool = none) (hPool : Strategy.poolId adapter c = .ok pool)
      (hRebinds : Router.Rebinds pool adapter s s') (hEntitled : c.Entitled user s) :
      Binds user pool adapter c
        ((c.put k (.custody { q with adapters := q.adapters.write pool (some adapter) })).put a
          (.router s'))
  | relayed {c₁ : Chain} {a k : Address} {s s₁ s' : Router.State}
      (hRouter : c.contract? a = some (.router s)) (hKeeper : s.custody = some k)
      (hOther : c.kind? k = some .router) (hBinds : Binds user pool adapter c c₁)
      (hStays : c₁.contract? a = some (.router s₁)) (hRebinds : Router.Rebinds pool adapter s₁ s')
      (hEntitled : c.Entitled user s) : Binds user pool adapter c (c₁.put a (.router s'))

/-- Changes of settings. They touch no books, and leave what the admins of routers have decided. -/
inductive Configured (user : Address) (c : Chain) : Chain → Prop where
  /-- The admin of the stable token chooses minters. -/
  | minters {a account : Address} {allowed : Bool} {t t' : Token.Stable}
      (hOld : c.contract? a = some (.stable t)) (h : t.setMinter user account allowed = .ok t') :
      Configured user c (c.put a (.stable t'))
  | tuned {a : Address} {old new : Contract} (hOld : c.contract? a = some old)
      (h : Strategy.Tuned user old new) : Configured user c (c.put a new)
  /-- The admin of a custody contract says what is dust, or hands over. -/
  | ruled {k : Address} {q q' : Custody} (hOld : c.contract? k = some (.custody q))
      (h : (∃ limit part, q.setDust user limit part = .ok q') ∨
        ∃ admin, q.setAdmin user admin = .ok q') :
      Configured user c (c.put k (.custody q'))
  /-- A user that is the router of a custody contract uses it. -/
  | obeyed {k pool : Address} {q q' : Custody} (hOld : c.contract? k = some (.custody q))
      (h : q.Obeys c user pool q') : Configured user c (c.put k (.custody q'))
  | bound {pool adapter : Address} {c' : Chain} (h : Router.Binds user pool adapter c c') :
      Configured user c c'
  /-- A router has its custody contract give a pool up that is wound down, or unknown to it. -/
  | released {a k pool : Address} {s : Router.State} {q q' : Custody}
      (hRouter : c.contract? a = some (.router s)) (hKeeper : s.custody = some k)
      (hCustody : c.contract? k = some (.custody q))
      (hWound : ∀ config, s.registry.get? pool = some config → config.status = .suspended)
      (h : (∃ supported, q.router = some a ∧ q.supports pool = true ∧
          q.supported.swapRemove pool = .ok supported ∧ q' = { q with supported }) ∨
        q.unbind a pool = .ok q') (hAdmin : s.roles.has Roles.admin user = true) :
      Configured user c (c.put k (.custody q'))

/-- Changes of settings, one after the other. -/
inductive Settled (user : Address) (c : Chain) : Chain → Prop where
  | refl : Settled user c c
  | step {c₁ c' : Chain} (hFirst : Settled user c c₁) (hThen : Configured user c₁ c') :
      Settled user c c'

/-- How a constructor changes a contract that was never constructed, or was before. -/
inductive Construction.Builds (c : Chain) : Contract → Contract → Prop where
  | stable (t : Token.Stable) (admin : Address) (name symbol : String) (decimals : Nat) :
      Builds c (.stable t) (.stable (t.construct admin name symbol decimals))
  | share (t : ShareToken) (admin asset : Address) (name symbol : String) (decimals : Nat) :
      Builds c (.share t) (.share (t.construct admin asset name symbol decimals))
  | yieldVault (v : Yield.Vault) (admin asset : Address) :
      Builds c (.yieldVault v) (.yieldVault { v with admin := some admin, asset := some asset })
  | fixedRate {s s' : Strategy.FixedRate} {admin asset custodian : Address} {rate : Amount}
      (h : s.construct admin asset custodian rate = .ok s') :
      Builds c (.fixedRate s) (.fixedRate s')
  | synthetic (s : Strategy.Synthetic) (admin asset custodian : Address) :
      Builds c (.synthetic s) (.synthetic (s.construct admin asset custodian))
  | wrapped {s s' : Strategy.Wrapped} {held admin asset custodian vault : Address}
      (hVault : c.kind? vault = some .yieldVault)
      (h : Strategy.Wrapped.construct held admin asset custodian vault = .ok s') :
      Builds c (.wrapped s) (.wrapped s')
  | custody {q q' : Custody} {admin : Address} {limit : Amount} {part : Nat}
      (h : q.construct admin limit part = .ok q') : Builds c (.custody q) (.custody q')
  | router {s s' : Router.State} {setup : Router.Setup} (h : s.construct setup = .ok s') :
      Builds c (.router s) (.router s')
  | roles {r r' : Roles} {admin : Address} (h : r.found admin = .ok r') :
      Builds c (.roles r) (.roles r')

/-- What a call does to one contract, and nothing else. -/
inductive Deed (user : Address) (c : Chain) : Chain → Prop where
  /-- A minter creates units of the stable token. -/
  | minted {a account : Address} {n : Amount} {t t' : Token.Stable}
      (hOld : c.contract? a = some (.stable t)) (h : t.mint user account n = .ok t') :
      Deed user c (c.put a (.stable t'))
  /-- The user destroys units of the stable token of its own. -/
  | burned {a : Address} {n : Amount} {t t' : Token.Stable}
      (hOld : c.contract? a = some (.stable t)) (h : t.burn user n = .ok t') :
      Deed user c (c.put a (.stable t'))
  /-- A registry, a record of roles or a ledger that stands by itself does as it is told. -/
  | standalone {a : Address} {old new : Contract} (hOld : c.contract? a = some old)
      (hKind : old.kind ∈ [.registry, .roles, .ledger]) (hSame : new.kind = old.kind) :
      Deed user c (c.put a new)
  /-- The constructor of a contract that was deployed without it. It takes nothing from anyone. -/
  | constructed {a : Address} {old new : Contract} (hOld : c.contract? a = some old)
      (hBlank : a ∈ c.blank) (h : Construction.Builds c old new) : Deed user c (c.put a new)

/-- What a call of a user does to the chain, unless it is a decision of an admin of a router or
points a contract at another one. -/
inductive Effect (user : Address) : Chain → Chain → Prop where
  | flow {c c' : Chain} (hFlow : Flow user c c') : Effect user c c'
  | trans {c c₁ c' : Chain} (hFirst : Effect user c c₁) (hThen : Effect user c₁ c') :
      Effect user c c'
  | deed {c c' : Chain} (h : Deed user c c') : Effect user c c'
  | configured {c c' : Chain} (h : Configured user c c') : Effect user c c'

namespace Chain

variable {c : Chain} {a : Address} {old new : Contract}

@[simp] theorem put_put (c : Chain) (x y : Contract) : (c.put a x).put a y = c.put a y := by
  unfold put
  simp only [List.map_map]
  congr 1
  refine List.map_congr_left fun entry _ => ?_
  by_cases ha : entry.1 = a <;> simp [ha]

theorem kind?_put (hOld : c.contract? a = some old) (hSame : new.kind = old.kind) (b : Address) :
    (c.put a new).kind? b = c.kind? b :=
  map_put hOld hSame b

theorem books?_put_same (hOld : c.contract? a = some old) (hSame : new.books? = old.books?)
    (b : Address) : (c.put a new).books? b = c.books? b := by
  rw [books?_put hOld]
  split
  · next h =>
    subst h
    rw [hSame, books?_of_contract? hOld]
  · rfl

theorem contract?_put_other {b : Address} {old' : Contract} (hNe : a ≠ b)
    (hOld' : c.contract? b = some old') : (c.put a new).contract? b = some old' := by
  rw [contract?_put_of_ne c new hNe.symm, hOld']

/-- Kinds and books are the same where what shows both is. -/
theorem kind_books_of_map {c' : Chain} {b : Address}
    (h : (c'.contract? b).map (fun x => (x.kind, x.books?)) =
      (c.contract? b).map fun x => (x.kind, x.books?)) :
    c'.kind? b = c.kind? b ∧ c'.books? b = c.books? b := by
  unfold kind? books?
  cases hOld : c.contract? b <;> cases hNew : c'.contract? b <;> simp_all

theorem kind_books_put {x : Contract} (hOld : c.contract? a = some old) (hKind : x.kind = old.kind)
    (hBooks : x.books? = old.books?) (b : Address) :
    (c.put a x).kind? b = c.kind? b ∧ (c.put a x).books? b = c.books? b :=
  ⟨kind?_put hOld hKind b, books?_put_same hOld hBooks b⟩

end Chain

open Chain

namespace Custody

variable {q q' : Custody} {caller pool : Address}

/-- A router has the shares of a new pool counted. -/
theorem support_spec (h : q.support caller pool = .ok q') :
    q.router = some caller ∧ q.supports pool = false ∧
      q' = { q with supported := q.supported.push pool } := by
  simp only [support, requireRouter, Result.bind_eq_ok, ensure_eq_ok] at h
  obtain ⟨_, hRouter, _, hNew, _, _, ⟨⟩⟩ := h
  exact ⟨hRouter, hNew, rfl⟩

/-- A router has a pool given up whose shares are not counted any more. -/
theorem unbind_spec (h : q.unbind caller pool = .ok q') :
    q.router = some caller ∧ q.supports pool = false ∧
      q' = { q with adapters := q.adapters.write pool none } := by
  simp only [unbind, requireRouter, Result.bind_eq_ok, ensure_eq_ok] at h
  obtain ⟨_, hRouter, _, _, _, hGone, ⟨⟩⟩ := h
  exact ⟨hRouter, hGone, rfl⟩

end Custody

theorem ShareToken.retire_spec {t t' : ShareToken} {initiator owner : Address} {n : Amount}
    (h : t.retire initiator owner n = .ok t') :
    ∃ l, t.ledger.burnFrom initiator owner n = .ok l ∧ t' = { t with ledger := l } := by
  unfold retire at h
  by_cases hSelf : initiator = owner
  · simp only [hSelf, if_true, pure_bind] at h
    obtain ⟨l, hBurn, ⟨⟩⟩ := Result.bind_eq_ok.1 h
    exact ⟨l, by simpa only [Token.Ledger.burnFrom, hSelf, if_true, pure_bind] using hBurn, rfl⟩
  · simp only [hSelf, if_false] at h
    obtain ⟨spent, hSpend, hRest⟩ := Result.bind_eq_ok.1 h
    obtain ⟨l, hBurn, ⟨⟩⟩ := Result.bind_eq_ok.1 hRest
    refine ⟨l, ?_, rfl⟩
    simp only [Token.Ledger.burnFrom, hSelf, if_false]
    exact Result.bind_eq_ok.2 ⟨spent, hSpend, hBurn⟩

namespace Flow

variable {user : Address} {c c' : Chain}

/-- What depends on neither books nor fees nor pauses is the same after a flow. -/
theorem map {α : Type} (h : Flow user c c') {F : Contract → α} (hBare : ∀ x, F x.bare = F x)
    (hFees : ∀ s fees, F (.router { s with fees }) = F (.router s))
    (hPaused : ∀ s, F (.router { s with paused := true }) = F (.router s)) (a : Address) :
    (c'.contract? a).map F = (c.contract? a).map F := by
  induction h with
  | trade hTrade => exact hTrade.alike.map hBare a
  | trans _ _ ihFirst ihThen => exact ihThen.trans ihFirst
  | lent _ hAllow _ hEnd ih =>
    exact (hEnd.alike.map hBare a).trans (ih.trans (hAllow.alike.map hBare a))
  | issued hOld h => exact (alike_put hOld (by rfl)).map hBare a
  | retired hOld _ h =>
    obtain ⟨l, -, rfl⟩ := ShareToken.retire_spec h
    exact (alike_put hOld (by rfl)).map hBare a
  | recorded hOld h =>
    obtain ⟨fees, rfl⟩ := h.fees
    exact map_put hOld (hFees _ fees) a
  | paused hOld => exact map_put hOld (hPaused _) a

theorem blank (h : Flow user c c') : c'.blank = c.blank := by
  induction h with
  | trade hTrade => exact hTrade.alike.1
  | trans _ _ ihFirst ihThen => exact ihThen.trans ihFirst
  | lent _ hAllow _ hEnd ih => exact (hEnd.alike.1.trans ih).trans hAllow.alike.1
  | issued | retired | recorded | paused => rfl

theorem kind? (h : Flow user c c') (a : Address) : c'.kind? a = c.kind? a :=
  h.map Contract.kind_bare (fun _ _ => rfl) (fun _ => rfl) a

theorem acts (h : Flow user c c') {a : Address} (hActs : c.Acts user a) : c'.Acts user a := by
  rw [Acts, h.kind?]
  exact hActs

theorem refl (c : Chain) : Flow user c c := .trade (.refl c)

end Flow

theorem Strategy.Tuned.same {caller : Address} {old new : Contract}
    (h : Strategy.Tuned caller old new) : new.kind = old.kind ∧ new.books? = old.books? := by
  cases h with
  | fixedRate h | syntheticRate h =>
    simp only [FixedRate.setRate, Synthetic.setRate, Result.bind_eq_ok, ensure_eq_ok] at h
    obtain ⟨_, _, _, _, ⟨⟩⟩ := h
    exact ⟨rfl, rfl⟩
  | fixedRatePaused h | wrappedPaused h =>
    simp only [FixedRate.setPaused, Wrapped.setPaused, Result.bind_eq_ok, ensure_eq_ok] at h
    obtain ⟨_, _, ⟨⟩⟩ := h
    exact ⟨rfl, rfl⟩
  | @turned s s' switch h =>
    simp only [Synthetic.turn, Result.bind_eq_ok, ensure_eq_ok] at h
    obtain ⟨_, _, h⟩ := h
    cases switch <;> simp only [Result.bind_eq_ok, ensure_eq_ok] at h
    all_goals
      obtain ⟨_, _, ⟨⟩⟩ := h
      exact ⟨rfl, rfl⟩

/-- A custody contract stands apart from the router that knows it. -/
theorem Router.custody_ne_router {c : Chain} {k a : Address} {q : Custody} {s : Router.State}
    (hq : c.contract? k = some (.custody q)) (hs : c.contract? a = some (.router s)) : k ≠ a := by
  rintro rfl
  simp [hq] at hs

namespace Router.Binds

variable {user pool adapter : Address} {c c' : Chain}

/-- What depends neither on the adapters of a custody contract nor on the pools of a router is the
same after pools are bound. -/
theorem map {α : Type} (h : Binds user pool adapter c c') {F : Contract → α}
    (hAdapters : ∀ q adapters, F (.custody { q with adapters }) = F (.custody q))
    (hRegistry : ∀ s registry, F (.router { s with registry }) = F (.router s)) (b : Address) :
    (c'.contract? b).map F = (c.contract? b).map F := by
  have hRebinds : ∀ {s s'}, Rebinds pool adapter s s' → F (.router s') = F (.router s) := by
    intro s s' hNew
    cases hNew with
    | unknown => rfl
    | known => exact hRegistry s _
  induction h with
  | bound hRouter _ hCustody _ _ _ hNew =>
    have hNe := custody_ne_router hCustody hRouter
    refine (map_put (contract?_put_other hNe hRouter) (hRebinds hNew) b).trans ?_
    exact map_put hCustody (hAdapters _ _) b
  | relayed _ _ _ _ hStays hNew _ ih => exact (map_put hStays (hRebinds hNew) b).trans ih

theorem same (h : Binds user pool adapter c c') (b : Address) :
    c'.kind? b = c.kind? b ∧ c'.books? b = c.books? b :=
  kind_books_of_map (h.map (fun _ _ => rfl) (fun _ _ => rfl) b)

theorem blank (h : Binds user pool adapter c c') : c'.blank = c.blank := by
  induction h with
  | bound => rfl
  | relayed _ _ _ _ _ _ _ ih => exact ih

end Router.Binds

namespace Configured

variable {user : Address} {c c' : Chain}

theorem same (h : Configured user c c') (b : Address) :
    c'.kind? b = c.kind? b ∧ c'.books? b = c.books? b := by
  cases h with
  | minters hOld h =>
    obtain ⟨-, _, rfl⟩ := Token.Stable.setMinter_spec h
    exact kind_books_put hOld (by rfl) (by rfl) b
  | tuned hOld h => exact kind_books_put hOld h.same.1 h.same.2 b
  | ruled hOld h | obeyed hOld h | released _ _ hOld _ _ =>
    exact kind_books_put hOld (by rfl) (by rfl) b
  | bound h => exact h.same b

theorem blank (h : Configured user c c') : c'.blank = c.blank := by
  cases h with
  | bound h => exact h.blank
  | minters | tuned | ruled | obeyed | released => rfl

end Configured

/-- A constructor keeps what everyone owns and has allowed. -/
theorem Construction.Builds.keeps {c : Chain} {old new : Contract}
    (h : Construction.Builds c old new) :
    new.kind = old.kind ∧ ∀ l, old.books? = some l → ∃ l', new.books? = some l' ∧
      l'.balances = l.balances ∧ l'.allowances = l.allowances := by
  cases h with
  | fixedRate h =>
    simp only [Strategy.FixedRate.construct, Result.bind_eq_ok] at h
    obtain ⟨_, _, ⟨⟩⟩ := h
    exact ⟨rfl, fun l hl => ⟨l, hl, rfl, rfl⟩⟩
  | stable t =>
    refine ⟨rfl, fun l hl => ?_⟩
    cases hl
    exact ⟨_, rfl, rfl, rfl⟩
  | share | yieldVault | synthetic => exact ⟨rfl, fun l hl => ⟨l, hl, rfl, rfl⟩⟩
  | wrapped | custody | router | roles => exact ⟨rfl, fun l hl => by cases hl⟩

theorem Construction.Builds.of_kinds {c c' : Chain} {old new : Contract}
    (h : Construction.Builds c old new) (hKind : ∀ a, c'.kind? a = c.kind? a) :
    Construction.Builds c' old new := by
  cases h with
  | wrapped hVault h => exact .wrapped ((hKind _).trans hVault) h
  | fixedRate h => exact .fixedRate h
  | custody h => exact .custody h
  | router h => exact .router h
  | roles h => exact .roles h
  | stable | share | yieldVault | synthetic => constructor

namespace Deed

variable {user : Address} {c c' : Chain}

theorem blank (h : Deed user c c') : c'.blank = c.blank := by
  cases h <;> rfl

theorem kind? (h : Deed user c c') (a : Address) : c'.kind? a = c.kind? a := by
  cases h with
  | minted hOld | burned hOld => exact kind?_put hOld (by rfl) a
  | standalone hOld _ hSame => exact kind?_put hOld hSame a
  | constructed hOld _ hBuilds => exact kind?_put hOld hBuilds.keeps.1 a

end Deed

namespace Effect

variable {user : Address} {c c' : Chain}

theorem blank (h : Effect user c c') : c'.blank = c.blank := by
  induction h with
  | flow hFlow => exact hFlow.blank
  | trans _ _ ihFirst ihThen => exact ihThen.trans ihFirst
  | deed h => exact h.blank
  | configured h => exact h.blank

/-- No call makes a contract, takes one away or changes its kind. -/
theorem kind? (h : Effect user c c') (a : Address) : c'.kind? a = c.kind? a := by
  induction h with
  | flow hFlow => exact hFlow.kind? a
  | trans _ _ ihFirst ihThen => exact ihThen.trans ihFirst
  | deed h => exact h.kind? a
  | configured h => exact (h.same a).1

theorem refl (c : Chain) : Effect user c c := .flow (.refl c)

end Effect

theorem Settled.effect {user : Address} {c c' : Chain} (h : Settled user c c') :
    Effect user c c' := by
  induction h with
  | refl => exact .refl c
  | step _ hThen ih => exact ih.trans (.configured hThen)

end Treasury
