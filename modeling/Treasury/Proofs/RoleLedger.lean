import Treasury.Proofs.Course
import Treasury.Proofs.Governed
import Treasury.Proofs.RoleChanges

/-! Records of roles, wherever they are kept. Whatever anybody does, the number that is kept for a
role is the number of its holders, and there is an admin; and nobody comes to hold a role or loses
one but as the rules for it say. -/
namespace Treasury

open Exec Chain

/-- The user calls `a` and asks for a change of roles there. -/
def Chain.Asks (user a : Address) (ranking : Roles.Command) (c c' : Chain) : Prop :=
  ∃ command out, command.ranking? = some ranking ∧ c.submit user a command = .ok out ∧
    out.chain = c'

/-- What becomes of a record of roles at `a` when a user does something with a chain. -/
inductive Chain.Reforms (user a : Address) (c c' : Chain) (r : Roles) : Roles → Prop where
  | same : Reforms user a c c' r r
  | asked {ranking : Roles.Command} {r' : Roles} (hAsks : c.Asks user a ranking c')
      (h : ranking.apply user r = .ok r') : Reforms user a c c' r r'
  | founded {admin : Address} {r' : Roles} (h : r.found admin = .ok r') : Reforms user a c c' r r'

namespace Roles

variable {user account holder : Address} {r r' : Roles} {role given : Nat}

/-- Nobody comes to hold a role by someone's losing one. -/
theorem has_of_renounce (h : r.renounce holder given = .ok r')
    (hAfter : r'.has role account = true) : r.has role account = true := by
  rcases renounce_spec h with rfl | ⟨-, -, rfl⟩
  · exact hAfter
  · rw [has_drop] at hAfter
    split at hAfter
    · cases hAfter
    · exact hAfter

/-- Only the one who gives a role up loses it. -/
theorem eq_of_renounce (h : r.renounce holder given = .ok r')
    (hBefore : r.has role account = true) (hAfter : r'.has role account = false) :
    role = given ∧ account = holder := by
  rcases renounce_spec h with rfl | ⟨-, -, rfl⟩
  · rw [hBefore] at hAfter
    cases hAfter
  · rw [has_drop] at hAfter
    split at hAfter
    · next hSame => exact hSame
    · rw [hBefore] at hAfter
      cases hAfter

namespace Command

variable {ranking : Roles.Command}

theorem ruled (h : ranking.apply user r = .ok r') : r.Ruled user r' := by
  cases ranking with
  | grant => exact .granted h
  | revoke => exact .revoked h
  | renounce => exact .renounced h

/-- An account comes to hold a role because an admin gives it. -/
theorem gained (h : ranking.apply user r = .ok r') (hBefore : r.has role account = false)
    (hAfter : r'.has role account = true) :
    ranking = .grant role account ∧ r.has admin user = true := by
  have hNot : r.has role account ≠ true := by simp [hBefore]
  cases ranking with
  | grant given taker =>
    obtain ⟨hAdmin, -, rfl⟩ := grant_spec h
    split at hAfter
    · exact absurd hAfter hNot
    · rw [has_add] at hAfter
      split at hAfter
      · next hSame => exact ⟨by rw [hSame.1, hSame.2], hAdmin⟩
      · exact absurd hAfter hNot
  | revoke => exact absurd (has_of_renounce (revoke_spec h).2 hAfter) hNot
  | renounce => exact absurd (has_of_renounce h hAfter) hNot

/-- An account loses a role because an admin takes it, or because it gives the role up. -/
theorem lost (h : ranking.apply user r = .ok r') (hBefore : r.has role account = true)
    (hAfter : r'.has role account = false) :
    ranking = .revoke role account ∧ r.has admin user = true ∨
      ranking = .renounce role ∧ account = user := by
  cases ranking with
  | grant given taker =>
    obtain ⟨-, -, rfl⟩ := grant_spec h
    split at hAfter
    · rw [hBefore] at hAfter
      cases hAfter
    · simp [has_add, hBefore] at hAfter
  | revoke given loser =>
    obtain ⟨hAdmin, hRenounce⟩ := revoke_spec h
    obtain ⟨rfl, rfl⟩ := eq_of_renounce hRenounce hBefore hAfter
    exact .inl ⟨rfl, hAdmin⟩
  | renounce given =>
    obtain ⟨rfl, rfl⟩ := eq_of_renounce h hBefore hAfter
    exact .inr ⟨rfl, rfl⟩

end Command

end Roles

section Steps

variable {user a b : Address} {c c' : Chain} {r r' : Roles}

/-- A contract that appears somewhere else changes no roles. -/
theorem Chain.Gains.roles? {x : Contract} (h : c.Gains b x c') (hr : c.roles? a = some r) :
    c'.roles? a = some r := by
  have hNe : a ≠ b := by
    rintro rfl
    rw [Chain.roles?, h.free] at hr
    cases hr
  rwa [Chain.roles?, h.contracts, if_neg hNe]

/-- Whoever does something with a chain, a record of roles stays as it is, or is changed as the
user asks, or gets its first admin. -/
theorem Chain.Leads.roles (h : c.Leads user c') (hr : c.roles? a = some r) :
    ∃ r', c'.roles? a = some r' ∧ c.Reforms user a c' r r' := by
  have hSame (hStays : c'.roles? a = some r) :
      ∃ r', c'.roles? a = some r' ∧ c.Reforms user a c' r r' := ⟨r, hStays, .same⟩
  cases h with
  | @called target command out hCall =>
    -- Only the contract that is called can have changed.
    have hElsewhere {r' : Roles} (hNe : a ≠ target)
        (hNew : out.chain.roles? a = if a = target then some r' else c.roles? a) :
        out.chain.roles? a = some r := by
      rw [hNew, if_neg hNe, hr]
    cases submit_ranks hCall with
    | same h => exact hSame ((h.roles? a).trans hr)
    | @ranked ranking r₀ r' hAsked hOld h hNew =>
      by_cases hAt : a = target
      · subst hAt
        obtain rfl := Option.some.inj (hOld.symm.trans hr)
        exact ⟨r', (hNew a).trans (if_pos rfl), .asked ⟨command, out, hAsked, hCall, rfl⟩ h⟩
      · exact hSame (hElsewhere hAt (hNew a))
    | @founded r₀ r' admin hOld h hNew =>
      by_cases hAt : a = target
      · subst hAt
        obtain rfl := Option.some.inj (hOld.symm.trans hr)
        exact ⟨r', (hNew a).trans (if_pos rfl), .founded h⟩
      · exact hSame (hElsewhere hAt (hNew a))
  | deployed hDeploy =>
    obtain ⟨x, hGains⟩ := gains_of_deploy hDeploy
    exact hSame (hGains.roles? hr)
  | deployedBlank hDeploy => exact hSame ((gains_of_deployBlank hDeploy).roles? hr)
  | placed hKind hPlace => exact hSame ((gains_of_place hKind hPlace).roles? hr)
  | skipped => exact hSame hr

/-- A record of roles that was not there before has a first admin, or is left blank. -/
theorem Chain.Gains.roles_new {x : Contract} (h : c.Gains b x c') (hNone : c.roles? a = none)
    (hr : c'.roles? a = some r) : r.Regular ∧ (a ∉ c'.blank → r.founded = true) := by
  have hAt : a = b := Classical.byContradiction fun hNe => by
    rw [Chain.roles?, h.contracts, if_neg hNe] at hr
    exact absurd (hNone.symm.trans hr) (by simp)
  subst hAt
  rw [Chain.roles?, h.contracts, if_pos rfl, Option.bind_some] at hr
  have hFounded {admin : Address} (hFound : ({} : Roles).found admin = .ok r) :
      r.Regular ∧ (a ∉ c'.blank → r.founded = true) := by
    obtain ⟨-, hNow, hLed⟩ := Roles.Regular.found (.inr Roles.vacant_blank) hFound
    exact ⟨.inl ⟨hNow, hLed⟩, fun _ => hNow⟩
  obtain ⟨kind, hBuilds | ⟨rfl, hIn | hKinds⟩⟩ := h.new
  · cases kind with
    | router =>
      cases hBuilds with
      | router hConstruct =>
        simp only [Router.State.construct, Result.bind_eq_ok] at hConstruct
        obtain ⟨_, _, roles, hFound, ⟨⟩⟩ := hConstruct
        cases hr
        exact hFounded hFound
    | roles =>
      cases hBuilds with
      | roles hFound =>
        cases hr
        exact hFounded hFound
    | _ => cases hBuilds <;> cases hr
  · have hBlank : r = {} := by cases kind <;> cases hr <;> rfl
    exact ⟨.inr (hBlank ▸ Roles.vacant_blank), fun hBuilt => absurd hIn hBuilt⟩
  · cases kind <;> simp [Contract.Kind.blank, Contract.roles?] at hKinds hr

/-- Records of roles are in good order wherever they are kept, and have a first admin where a
constructor has been run. -/
def Chain.Ranked (c : Chain) : Prop :=
  ∀ a r, c.roles? a = some r → r.Regular ∧ (a ∉ c.blank → r.founded = true)

theorem Chain.Ranked.leads (hRanked : c.Ranked) (h : c.Leads user c') : c'.Ranked := by
  intro a r' hr'
  cases hr : c.roles? a with
  | some r =>
    obtain ⟨hRegular, hBuilt⟩ := hRanked a r hr
    obtain ⟨r'', hr'', hChange⟩ := h.roles hr
    obtain rfl := Option.some.inj (hr'.symm.trans hr'')
    have hBefore (hNow : a ∉ c'.blank) : r.founded = true :=
      hBuilt fun hIn => hNow (h.advances.blank hIn)
    cases hChange with
    | same => exact ⟨hRegular, hBefore⟩
    | asked _ hApply =>
      have hRuled := Roles.Command.ruled hApply
      exact ⟨hRegular.ruled hRuled, fun hNow => hRuled.founded.trans (hBefore hNow)⟩
    | founded hFound =>
      obtain ⟨-, hNow, hLed⟩ := hRegular.found hFound
      exact ⟨.inl ⟨hNow, hLed⟩, fun _ => hNow⟩
  | none =>
    cases h with
    | @called target command out hCall =>
      have hElsewhere {r₀ r₁ : Roles} (hOld : c.roles? target = some r₀)
          (hNew : out.chain.roles? a = if a = target then some r₁ else c.roles? a) :
          out.chain.roles? a = none := by
        have hNe : a ≠ target := by
          rintro rfl
          exact absurd (hr.symm.trans hOld) (by simp)
        rw [hNew, if_neg hNe, hr]
      have hNone : out.chain.roles? a = none := by
        cases submit_ranks hCall with
        | same h => exact (h.roles? a).trans hr
        | ranked _ hOld _ hNew => exact hElsewhere hOld (hNew a)
        | founded hOld _ hNew => exact hElsewhere hOld (hNew a)
      exact absurd (hr'.symm.trans hNone) (by simp)
    | deployed hDeploy =>
      obtain ⟨x, hGains⟩ := gains_of_deploy hDeploy
      exact hGains.roles_new hr hr'
    | deployedBlank hDeploy => exact (gains_of_deployBlank hDeploy).roles_new hr hr'
    | placed hKind hPlace => exact (gains_of_place hKind hPlace).roles_new hr hr'
    | skipped => exact absurd (hr'.symm.trans hr) (by simp)

end Steps

namespace Chain

variable {c : Chain} {a : Address} {r : Roles}

theorem contract_of_roles? (h : c.roles? a = some r) :
    c.contract? a = some (.roles r) ∨ ∃ s, c.contract? a = some (.router s) ∧ s.roles = r := by
  obtain ⟨x, hx, hRoles⟩ := Option.bind_eq_some_iff.1 h
  cases x <;> cases hRoles
  · exact .inr ⟨_, hx, rfl⟩
  · exact .inl hx

/-- Anyone can ask who holds a role. -/
theorem ask_hasRole (h : c.roles? a = some r) (asker : Address) (role : Nat) (b : Address) :
    c.ask asker a (.hasRole role b) = .ok (.flag (r.has role b)) := by
  simp only [ask, Query.ask]
  rcases contract_of_roles? h with hRoles | ⟨s, hRouter, rfl⟩
  · rw [View.bind_of_ok (View.contract_eq_ok.2 hRoles)]
    rfl
  · rw [View.bind_of_ok (View.contract_eq_ok.2 hRouter)]
    rfl

/-- A contract that keeps nothing but roles is asked how many hold one. -/
theorem ask_memberCount (h : c.contract? a = some (.roles r)) (asker : Address) (role : Nat) :
    c.ask asker a (.memberCount role) = .ok (.count (r.memberCount role)) := by
  simp only [ask, Query.ask, Query.field]
  rw [View.bind_of_ok (View.callee_eq_ok.2 h)]
  rfl

end Chain

namespace Reachable

variable {c : Chain} {a : Address} {r : Roles}

theorem ranked (h : Reachable c) : c.Ranked := by
  induction h with
  | start => exact fun a r hr => by cases hr
  | step _ _ hLeads _ ih => exact ih.leads hLeads

/-- Whoever has done whatever, a router or a contract that keeps nothing but roles has as many
holders of a role as it counts, once it has been set up. Only defined roles are held, and there is
an admin. Whatever anybody does next, an account comes to hold a role only because an admin asks for
that, and loses one only because an admin asks for that or the account itself gives it up. -/
theorem roles_accounted_for (hRun : Reachable c) (hr : c.roles? a = some r)
    (hSetUp : a ∉ c.blank ∨ r.founded = true) :
    (∀ asker role b, c.ask asker a (.hasRole role b) = .ok (.flag (r.has role b))) ∧
    (∀ role, ∃ holders : List Address, holders.Nodup ∧ (∀ b, b ∈ holders ↔ r.has role b = true) ∧
      holders.length = r.memberCount role) ∧
    (c.kind? a = some .roles → ∀ asker role,
      c.ask asker a (.memberCount role) = .ok (.count (r.memberCount role))) ∧
    (∀ role b, r.has role b = true → role < 4) ∧
    (∃ b, r.has Roles.admin b = true) ∧
    ∀ user c', c.Leads user c' → ∃ r', c'.roles? a = some r' ∧
      (∀ role b, r.has role b = false → r'.has role b = true →
        c.Asks user a (.grant role b) c' ∧ r.has Roles.admin user = true) ∧
      (∀ role b, r.has role b = true → r'.has role b = false →
        c.Asks user a (.revoke role b) c' ∧ r.has Roles.admin user = true ∨
          c.Asks user a (.renounce role) c' ∧ b = user) := by
  obtain ⟨hRegular, hBuilt⟩ := hRun.ranked a r hr
  have hFounded : r.founded = true := hSetUp.elim hBuilt id
  have hLed := hRegular.led hFounded
  have hCount (hKind : c.kind? a = some .roles) : c.contract? a = some (.roles r) := by
    rcases contract_of_roles? hr with hRoles | ⟨s, hRouter, -⟩
    · exact hRoles
    · cases (kind?_of_contract? hRouter).symm.trans hKind
  refine ⟨ask_hasRole hr, hLed.counted, fun hKind => ask_memberCount (hCount hKind), hLed.defined,
    hLed.exists_admin, fun user c' hLeads => ?_⟩
  obtain ⟨r', hr', hChange⟩ := hLeads.roles hr
  refine ⟨r', hr', fun role b hBefore hAfter => ?_, fun role b hBefore hAfter => ?_⟩
  · cases hChange with
    | same => exact absurd (hBefore.symm.trans hAfter) (by simp)
    | asked hAsks hApply =>
      obtain ⟨rfl, hAdmin⟩ := Roles.Command.gained hApply hBefore hAfter
      exact ⟨hAsks, hAdmin⟩
    | founded hFound => exact absurd ((hRegular.found hFound).1.symm.trans hFounded) (by simp)
  · cases hChange with
    | same => exact absurd (hBefore.symm.trans hAfter) (by simp)
    | asked hAsks hApply =>
      rcases Roles.Command.lost hApply hBefore hAfter with ⟨rfl, hAdmin⟩ | ⟨rfl, hSelf⟩
      · exact .inl ⟨hAsks, hAdmin⟩
      · exact .inr ⟨hAsks, hSelf⟩
    | founded hFound => exact absurd ((hRegular.found hFound).1.symm.trans hFounded) (by simp)

/-- An admin has named a second one, who takes the role from the first. -/
theorem roles_accounted_for_revoked : ∃ c c' a r r', Reachable c ∧ c.roles? a = some r ∧
    a ∉ c.blank ∧ c.ask (.account 2) a (.memberCount Roles.admin) = .ok (.count 2) ∧
    c.Leads (.account 1) c' ∧ c'.roles? a = some r' ∧
    c.Asks (.account 1) a (.revoke Roles.admin (.account 0)) c' ∧
    r.has Roles.admin (.account 1) = true ∧ r.has Roles.admin (.account 0) = true ∧
    r'.has Roles.admin (.account 0) = false := by
  let a := Address.ofNumber 1
  have hEnd : (Action.follow (fun _ _ => true) {} [.deploy 0 (.roles (.account 0)),
      .call 0 a (.roles (.grant Roles.admin (.account 1)))]).any (fun c =>
      (c.submit (.account 1) a (.roles (.revoke Roles.admin (.account 0)))).toOption.any fun out =>
        decide (a ∉ c.blank) && decide (c.kind? a = some .roles) && (c.roles? a).any fun r =>
          r.memberCount Roles.admin == 2 && r.has Roles.admin (.account 0) &&
            (out.chain.roles? a).any fun r' => !r'.has Roles.admin (.account 0)) = true := by
    decide +kernel
  obtain ⟨c, hCourse, hHolds⟩ :=
    Action.exists_course (fun _ _ _ _ => trivial) hEnd
  obtain ⟨out, hOut, hHolds⟩ := (Option.any_eq_true _ _).1 hHolds
  simp only [Bool.and_eq_true, Option.any_eq_true, decide_eq_true_eq, beq_iff_eq,
    Bool.not_eq_true'] at hHolds
  obtain ⟨⟨hBuilt, hKind⟩, r, hr, ⟨hTwo, hBefore⟩, r', hr', hAfter⟩ := hHolds
  have hRun : Reachable c := hCourse.run.mono (fun _ _ => trivial) fun _ _ => trivial
  have hLeads : c.Leads (.account 1) out.chain := .called (Result.of_toOption hOut)
  obtain ⟨-, -, hCounts, -, -, hSteps⟩ := roles_accounted_for hRun hr (.inl hBuilt)
  obtain ⟨r'', hr'', -, hLoses⟩ := hSteps _ _ hLeads
  obtain rfl := Option.some.inj (hr'.symm.trans hr'')
  rcases hLoses _ _ hBefore hAfter with ⟨hAsks, hAdmin⟩ | ⟨-, hSame⟩
  · exact ⟨c, out.chain, a, r, r', hRun, hr, hBuilt, hTwo ▸ hCounts hKind _ _, hLeads, hr', hAsks,
      hAdmin, hBefore, hAfter⟩
  · exact absurd hSame (by decide)

end Reachable

end Treasury
