import Treasury.Proofs.Governed

/-! Privileges. A contract is configured by its admin, or by those who hold roles in it. Whoever is
neither may call what it likes, in whatever order and with whatever contracts of its own: the
contracts of a treasury and its pools stay configured as they are. -/
namespace Treasury

open Exec Chain

namespace Contract

/-- The one who governs a contract that has an admin. Routers are governed by roles instead. -/
def admin? : Contract → Option Address
  | stable t => t.admin
  | share t => t.admin
  | yieldVault v => v.admin
  | fixedRate s => s.admin
  | synthetic s => s.admin
  | wrapped s => s.admin
  | custody q => q.admin
  | _ => none

/-- How a contract is configured: all of it but its books, and but what a router records. -/
def configuration : Contract → Contract
  | router s => .router { s with fees := {} }
  | x => x.bare

theorem configuration_bare (x : Contract) : x.bare.configuration = x.configuration := by
  cases x <;> rfl

theorem kind_configuration (x : Contract) : x.configuration.kind = x.kind := by cases x <;> rfl

theorem admin?_configuration (x : Contract) : x.configuration.admin? = x.admin? := by
  cases x <;> rfl

end Contract

namespace Chain

/-- How the contract at an address is configured. -/
def configuration? (c : Chain) (a : Address) : Option Contract :=
  (c.contract? a).map Contract.configuration

/-- The contracts at some addresses stay configured as they are. -/
def Fixes (F : Address → Prop) (c c' : Chain) : Prop :=
  ∀ a, F a → c'.configuration? a = c.configuration? a

/-- Contracts that some users cannot configure. They have been set up, and they are governed by
others: by their admins, by roles in routers, or by routers of which the same is true. -/
structure Shields (c : Chain) (May F : Address → Prop) : Prop where
  accounts : ∀ user, May user → user.IsAccount
  vacant : ∀ d, c.kind? (.account d) = none
  constructed : ∀ a, F a → a ∉ c.blank
  kinds : ∀ a, F a → ∃ k, c.kind? a = some k ∧ k ∉ [.registry, .roles, .ledger]
  admins : ∀ a x user, F a → c.contract? a = some x → May user → x.admin? ≠ some user
  routers : ∀ a q, F a → c.contract? a = some (.custody q) → ∃ r, q.router = some r ∧ F r
  roles : ∀ a s role holder, F a → c.contract? a = some (.router s) →
    s.roles.has role holder = true → ¬May holder ∧ holder.IsAccount

variable {c c₁ c' : Chain} {May F : Address → Prop} {user a b : Address} {old new : Contract}

/-- What a configuration tells is the same of contracts that are configured the same. -/
theorem map_of_configuration? {α : Type} {f : Contract → α}
    (hSame : c'.configuration? a = c.configuration? a) (hf : ∀ x, f x.configuration = f x) :
    (c'.contract? a).map f = (c.contract? a).map f := by
  have hMap := congrArg (Option.map f) hSame
  simpa only [configuration?, Option.map_map, Function.comp_def, hf] using hMap

theorem kind?_of_configuration? (hSame : c'.configuration? a = c.configuration? a) :
    c'.kind? a = c.kind? a :=
  map_of_configuration? hSame Contract.kind_configuration

/-- Nothing but what it records can have changed of a router. -/
theorem router_of_configuration? (hSame : c'.configuration? a = c.configuration? a)
    {s : Router.State} (hs : c.contract? a = some (.router s)) :
    ∃ fees, c'.contract? a = some (.router { s with fees }) := by
  rw [configuration?, configuration?, hs, Option.map_some] at hSame
  obtain ⟨x, hx, hConfiguration⟩ := Option.map_eq_some_iff.1 hSame
  cases x <;> simp only [Contract.configuration, Contract.bare, Contract.router.injEq,
    reduceCtorEq] at hConfiguration
  next s' =>
    refine ⟨s'.fees, ?_⟩
    rw [hx]
    cases s
    cases s'
    cases hConfiguration
    rfl

/-- Nothing can have changed of a custody contract. -/
theorem custody_of_configuration? (hSame : c'.configuration? a = c.configuration? a)
    {q : Custody} (hq : c.contract? a = some (.custody q)) :
    c'.contract? a = some (.custody q) := by
  rw [configuration?, configuration?, hq, Option.map_some] at hSame
  obtain ⟨x, hx, hConfiguration⟩ := Option.map_eq_some_iff.1 hSame
  cases x <;> simp only [Contract.configuration, Contract.bare, reduceCtorEq] at hConfiguration
  rw [hx, hConfiguration]

namespace Fixes

theorem refl (F : Address → Prop) (c : Chain) : c.Fixes F c := fun _ _ => rfl

theorem trans (h : Fixes F c c₁) (h' : Fixes F c₁ c') : Fixes F c c' :=
  fun a ha => (h' a ha).trans (h a ha)

theorem of_alike (h : Alike c c') : Fixes F c c' :=
  fun a _ => h.map Contract.configuration_bare a

/-- A contract at another address is replaced. -/
theorem of_put_other (hb : ¬F b) : Fixes F c (c.put b new) := by
  intro a ha
  have hNe : a ≠ b := by
    rintro rfl
    exact hb ha
  rw [configuration?, contract?_put_of_ne c new hNe, configuration?]

end Fixes

namespace Shields

/-- What is shielded is so as long as it stays configured as it is. -/
theorem next (h : c.Shields May F) (hFixes : Fixes F c c') (hBlank : ∀ a, F a → a ∉ c'.blank)
    (hVacant : ∀ d, c'.kind? (.account d) = none) : c'.Shields May F where
  accounts := h.accounts
  vacant := hVacant
  constructed := hBlank
  kinds a ha := by
    rw [kind?_of_configuration? (hFixes a ha)]
    exact h.kinds a ha
  admins a x user ha hx hMay := by
    have hAdmin := map_of_configuration? (hFixes a ha) Contract.admin?_configuration
    rw [hx, Option.map_some] at hAdmin
    obtain ⟨y, hy, hSame⟩ := Option.map_eq_some_iff.1 hAdmin.symm
    exact hSame ▸ h.admins a y user ha hy hMay
  routers a q ha hq := h.routers a q ha (custody_of_configuration? (hFixes a ha).symm hq)
  roles a s role holder ha hs hHolds := by
    obtain ⟨fees, hOld⟩ := router_of_configuration? (hFixes a ha).symm hs
    exact h.roles a _ role holder ha hOld hHolds

theorem of_same (h : c.Shields May F) (hFixes : Fixes F c c') (hBlank : c'.blank = c.blank)
    (hKind : ∀ a, c'.kind? a = c.kind? a) : c'.Shields May F :=
  h.next hFixes (fun a ha => hBlank ▸ h.constructed a ha) fun d => (hKind _).trans (h.vacant d)

/-- Neither the user nor a contract that acts for it holds a role in a router that is shielded. -/
theorem role_elsewhere (h : c.Shields May F) (hMay : May user) {s : Router.State} {role : Nat}
    {caller : Address} (hs : c.contract? a = some (.router s)) (hActs : c.Acts user caller)
    (hHolds : s.roles.has role caller = true) : ¬F a := by
  intro ha
  obtain ⟨hNot, d, rfl⟩ := h.roles a s role caller ha hs hHolds
  rcases hActs with rfl | hContract
  · exact hNot hMay
  · exact hContract (h.vacant d)

theorem admin_elsewhere (h : c.Shields May F) (hMay : May user) {x : Contract}
    (hx : c.contract? a = some x) (hAdmin : x.admin? = some user) : ¬F a :=
  fun ha => h.admins a x user ha hx hMay hAdmin

/-- The router of a custody contract that is shielded is shielded. -/
theorem custody_elsewhere (h : c.Shields May F) {q : Custody} {r : Address}
    (hq : c.contract? a = some (.custody q)) (hRouter : q.router = some r) (hr : ¬F r) : ¬F a := by
  intro ha
  obtain ⟨r', hSame, hr'⟩ := h.routers a q ha hq
  exact hr (Option.some.inj (hSame.symm.trans hRouter) ▸ hr')

/-- No user stands where a contract does. -/
theorem user_elsewhere (h : c.Shields May F) (hMay : May user) : ¬F user := by
  intro hF
  obtain ⟨d, rfl⟩ := h.accounts user hMay
  obtain ⟨k, hk, -⟩ := h.kinds _ hF
  rw [h.vacant d] at hk
  cases hk

end Shields

end Chain

section Steps

variable {May F : Address → Prop} {user : Address} {c c' : Chain}

/-- A flow configures nothing. Somebody who may could stop a router in the middle of it, but nobody
who may acts. -/
theorem Flow.fixes (h : Flow user c c') (hShields : c.Shields May F) (hMay : May user) :
    Fixes F c c' := by
  induction h with
  | trade hTrade => exact .of_alike hTrade.alike
  | trans hFirst _ ihFirst ihThen =>
    have hSoFar := ihFirst hShields
    exact hSoFar.trans (ihThen (hShields.of_same hSoFar hFirst.blank hFirst.kind?))
  | lent _ hAllow _ hEnd ih =>
    have hFirst : Fixes F _ _ := .of_alike hAllow.alike
    have hThen := ih (hShields.of_same hFirst hAllow.alike.1 hAllow.alike.kind?)
    exact (hFirst.trans hThen).trans (.of_alike hEnd.alike)
  | issued hOld => exact .of_alike (alike_put hOld (by rfl))
  | retired hOld _ hRetire =>
    obtain ⟨l, -, rfl⟩ := ShareToken.retire_spec hRetire
    exact .of_alike (alike_put hOld (by rfl))
  | recorded hOld hRecords =>
    obtain ⟨fees, rfl⟩ := hRecords.fees
    exact fun a _ => map_put hOld (by rfl) a
  | paused hOld hCaller hRole =>
    apply Fixes.of_put_other
    rcases hRole with hPauser | hAdmin
    · exact hShields.role_elsewhere hMay hOld hCaller hPauser
    · exact hShields.role_elsewhere hMay hOld hCaller hAdmin

theorem Deed.fixes (h : Deed user c c') (hShields : c.Shields May F) : Fixes F c c' := by
  cases h with
  | minted hOld hMint =>
    obtain ⟨_, _, -, rfl⟩ := Token.Stable.mint_spec hMint
    exact .of_alike (alike_put hOld rfl)
  | burned hOld hBurn =>
    obtain ⟨_, _, -, rfl⟩ := Token.Stable.burn_spec hBurn
    exact .of_alike (alike_put hOld rfl)
  | standalone hOld hKind =>
    apply Fixes.of_put_other
    intro hF
    obtain ⟨k, hk, hOther⟩ := hShields.kinds _ hF
    obtain rfl := Option.some.inj ((kind?_of_contract? hOld).symm.trans hk)
    exact hOther hKind
  | constructed _ hBlank =>
    apply Fixes.of_put_other
    exact fun hF => hShields.constructed _ hF hBlank

theorem Strategy.Tuned.admin? {old new : Contract} (h : Strategy.Tuned user old new) :
    old.admin? = some user := by
  cases h with
  | fixedRate h | syntheticRate h =>
    simp only [FixedRate.setRate, Synthetic.setRate, Result.bind_eq_ok, ensure_eq_ok] at h
    obtain ⟨_, hAdmin, -⟩ := h
    exact hAdmin
  | fixedRatePaused h | wrappedPaused h =>
    simp only [FixedRate.setPaused, Wrapped.setPaused, Result.bind_eq_ok, ensure_eq_ok] at h
    obtain ⟨_, hAdmin, -⟩ := h
    exact hAdmin
  | turned h =>
    simp only [Synthetic.turn, Result.bind_eq_ok, ensure_eq_ok] at h
    obtain ⟨_, hAdmin, -⟩ := h
    exact hAdmin

/-- Only admins of routers bind pools. -/
theorem Router.Binds.fixes {pool adapter : Address} (h : Router.Binds user pool adapter c c')
    (hShields : c.Shields May F) (hMay : May user) : Fixes F c c' := by
  induction h with
  | bound hRouter _ hCustody hKnown _ _ _ hEntitled =>
    obtain ⟨caller, hActs, hAdmin⟩ := hEntitled
    have hElsewhere := hShields.role_elsewhere hMay hRouter hActs hAdmin
    have hKeeper := hShields.custody_elsewhere hCustody hKnown hElsewhere
    exact (Fixes.of_put_other hKeeper).trans (.of_put_other hElsewhere)
  | relayed hRouter _ _ _ _ _ hEntitled ih =>
    obtain ⟨caller, hActs, hAdmin⟩ := hEntitled
    exact ih.trans (.of_put_other (hShields.role_elsewhere hMay hRouter hActs hAdmin))

theorem Configured.fixes (h : Configured user c c') (hShields : c.Shields May F)
    (hMay : May user) : Fixes F c c' := by
  have hActs := acts_user c user
  cases h with
  | minters hOld h =>
    obtain ⟨hAdmin, -⟩ := Token.Stable.setMinter_spec h
    exact .of_put_other (hShields.admin_elsewhere hMay hOld hAdmin)
  | tuned hOld h => exact .of_put_other (hShields.admin_elsewhere hMay hOld h.admin?)
  | ruled hOld h =>
    obtain ⟨hAdmin, -⟩ := Custody.ruled_spec h
    exact .of_put_other (hShields.admin_elsewhere hMay hOld hAdmin)
  | obeyed hOld h =>
    exact .of_put_other (hShields.custody_elsewhere hOld h.caller (hShields.user_elsewhere hMay))
  | bound h => exact h.fixes hShields hMay
  | released hRouter _ hCustody _ h hAdmin =>
    have hElsewhere := hShields.role_elsewhere hMay hRouter hActs hAdmin
    have hHeeds := (Custody.Obeys.of_released c h).caller
    exact .of_put_other (hShields.custody_elsewhere hCustody hHeeds hElsewhere)

/-- One change of settings after the other configures nothing that is shielded. -/
theorem Settled.fixes (h : Settled user c c') (hShields : c.Shields May F) (hMay : May user) :
    Fixes F c c' := by
  have hLoop : Fixes F c c' ∧ c'.Shields May F := by
    induction h with
    | refl => exact ⟨.refl F c, hShields⟩
    | step _ hThen ih =>
      have hNext := hThen.fixes ih.2 hMay
      exact ⟨ih.1.trans hNext, ih.2.of_same hNext hThen.blank fun b => (hThen.same b).1⟩
  exact hLoop.1

theorem Chain.Governs.fixes {b : Address} (h : c.Governs user b c') (hShields : c.Shields May F)
    (hMay : May user) : Fixes F c c' := by
  have hActs := acts_user c user
  cases h with
  | decided hRouter hAdmin | removed hRouter hAdmin =>
    exact .of_put_other (hShields.role_elsewhere hMay hRouter hActs hAdmin)
  | @ranked s roles hRouter h =>
    by_cases hSome : ∃ role, s.roles.has role user = true
    · obtain ⟨role, hHolds⟩ := hSome
      exact .of_put_other (hShields.role_elsewhere hMay hRouter hActs hHolds)
    · have hNone : ∀ role, s.roles.has role user = false := by simpa using hSome
      rw [h.eq_of_outsider hNone]
      exact fun a _ => map_put hRouter (by rfl) a
  | added hRouter hAdmin _ _ _ hCustody _ _ hSupport =>
    have hElsewhere := hShields.role_elsewhere hMay hRouter hActs hAdmin
    have hHeeds := (Custody.support_spec hSupport).1
    have hKeeper := hShields.custody_elsewhere hCustody hHeeds hElsewhere
    exact (Fixes.of_put_other hElsewhere).trans (.of_put_other hKeeper)

theorem Rewired.fixes (h : Rewired user c c') (hShields : c.Shields May F) (hMay : May user) :
    Fixes F c c' := by
  cases h with
  | custody hOld h =>
    simp only [Custody.setRouter, Custody.requireAdmin, Result.bind_eq_ok, ensure_eq_ok] at h
    obtain ⟨_, hAdmin, -⟩ := h
    exact .of_put_other (hShields.admin_elsewhere hMay hOld hAdmin)
  | share hOld h =>
    simp only [ShareToken.setRouter, Result.bind_eq_ok, ensure_eq_ok] at h
    obtain ⟨_, hAdmin, -⟩ := h
    exact .of_put_other (hShields.admin_elsewhere hMay hOld hAdmin)
  | router hOld hAdmin =>
    exact .of_put_other (hShields.role_elsewhere hMay hOld (acts_user c user) hAdmin)

/-- No call configures what is shielded from its user. -/
theorem Chain.Performs.fixes (h : c.Performs user c') (hShields : c.Shields May F)
    (hMay : May user) : Fixes F c c' := by
  cases h with
  | dealt h => exact .of_alike h.alike
  | flowed _ h => exact h.fixes hShields hMay
  | issued hOld => exact .of_alike (alike_put hOld (by rfl))
  | retired hOld _ h =>
    obtain ⟨l, -, rfl⟩ := ShareToken.retire_spec h
    exact .of_alike (alike_put hOld (by rfl))
  | deed h => exact h.fixes hShields
  | arranged h =>
    cases h with
    | settled h => exact h.fixes hShields hMay
    | governed h => exact h.fixes hShields hMay
    | rewired h => exact h.fixes hShields hMay

/-- A contract that appears somewhere else, whoever its admin is, changes nothing of a shield. -/
theorem Chain.Shields.gained (h : c.Shields May F) {a : Address} {x : Contract}
    (hGains : c.Gains a x c') : Fixes F c c' ∧ c'.Shields May F := by
  have hOther : ∀ b, F b → b ≠ a := by
    intro b hb
    obtain ⟨k, hk, -⟩ := h.kinds b hb
    exact hGains.ne_of_stands (by simp [hk])
  have hFixes : Fixes F c c' := by
    intro b hb
    rw [configuration?, hGains.contracts, if_neg (hOther b hb), configuration?]
  have hBlank : ∀ b, F b → b ∉ c'.blank := by
    intro b hb hIn
    exact (hGains.blank.2 b hIn).elim (hOther b hb) (h.constructed b hb)
  have hVacant : ∀ d, c'.kind? (.account d) = none := by
    intro d
    obtain ⟨d', rfl⟩ := hGains.address
    rw [hGains.kind? (by simp), h.vacant d]
  exact ⟨hFixes, h.next hFixes hBlank hVacant⟩

/-- Nothing that a user does configures what is shielded from it, and the shield stays. -/
theorem Chain.Leads.fixes (h : c.Leads user c') (hShields : c.Shields May F) (hMay : May user) :
    Fixes F c c' ∧ c'.Shields May F := by
  rcases h.performs_or_gains with hPerforms | ⟨a, x, hGains⟩ | rfl
  · have hFixes := hPerforms.fixes hShields hMay
    have hUndergoes := hPerforms.undergoes
    exact ⟨hFixes, hShields.of_same hFixes hUndergoes.blank hUndergoes.kind?⟩
  · exact hShields.gained hGains
  · exact ⟨.refl F c, hShields.of_same (.refl F c) rfl fun _ => rfl⟩

end Steps

/-- What becomes of a chain by what some users do, one after the other. -/
inductive Chain.LedBy (May : Address → Prop) (c : Chain) : Chain → Prop where
  | refl : LedBy May c c
  | step {c₁ c' : Chain} {user : Address} (hFirst : c.LedBy May c₁) (hMay : May user)
      (hLeads : c₁.Leads user c') : LedBy May c c'

/-- Whatever users do, in whatever order, nothing is configured that is shielded from them. -/
theorem Chain.LedBy.fixes {May F : Address → Prop} {c c' : Chain} (h : c.LedBy May c')
    (hShields : c.Shields May F) : Fixes F c c' := by
  have hLoop : Fixes F c c' ∧ c'.Shields May F := by
    induction h with
    | refl => exact ⟨.refl F c, hShields⟩
    | step _ hMay hLeads ih =>
      obtain ⟨hNext, hStill⟩ := hLeads.fixes ih.2 hMay
      exact ⟨ih.1.trans hNext, hStill⟩
  exact hLoop.1

namespace Wiring

/-- What belongs to a treasury, with all adapters, as far as it has been set up. -/
def SetUp (w : Wiring) (c : Chain) (a : Address) : Prop :=
  a ∉ c.blank ∧ (a ∈ w.places ∨ ∃ k, c.kind? a = some k ∧ k ∈ [.fixedRate, .synthetic, .wrapped])

variable {w : Wiring} {c c' : Chain} {a : Address}

theorem SetUp.kind (h : w.SetUp c a) (hComplete : w.Complete c) :
    ∃ k, c.kind? a = some k ∧ k ∉ [.registry, .roles, .ledger] := by
  obtain ⟨t, hStable⟩ := hComplete.stable
  obtain ⟨q, hCustody, -⟩ := hComplete.custody
  obtain ⟨s, hRouter, -⟩ := hComplete.router
  obtain ⟨u, hShare, -⟩ := hComplete.share
  obtain hPlace | ⟨k, hk, hAdapter⟩ := h.2
  · simp only [places, List.mem_cons, List.not_mem_nil, or_false] at hPlace
    rcases hPlace with rfl | rfl | rfl | rfl
    · exact ⟨_, kind?_of_contract? hStable, by simp [Contract.kind]⟩
    · exact ⟨_, kind?_of_contract? hCustody, by simp [Contract.kind]⟩
    · exact ⟨_, kind?_of_contract? hRouter, by simp [Contract.kind]⟩
    · exact ⟨_, kind?_of_contract? hShare, by simp [Contract.kind]⟩
  · refine ⟨k, hk, fun hAlone => ?_⟩
    cases k <;> simp at hAdapter hAlone

/-- A treasury has one custody contract. -/
theorem SetUp.custody (h : w.SetUp c a) (hKept : w.Kept c) {q : Custody}
    (hq : c.contract? a = some (.custody q)) : a = w.custody := by
  obtain hPlace | ⟨k, hk, hAdapter⟩ := h.2
  · simp only [places, List.mem_cons, List.not_mem_nil, or_false] at hPlace
    obtain ⟨hStable, -, hRouter, hShare, -⟩ := hKept.admits a _ hq
    rcases hPlace with hAt | hAt | hAt | hAt
    · cases hStable hAt
    · exact hAt
    · cases (hRouter hAt).1
    · cases (hShare hAt).1
  · obtain rfl := Option.some.inj ((kind?_of_contract? hq).symm.trans hk)
    simp [Contract.kind] at hAdapter

end Wiring

namespace WiredRun

variable {w : Wiring} {c c' : Chain}

end WiredRun

end Treasury
