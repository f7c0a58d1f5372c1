import Treasury.Proofs.Lasting
import Treasury.Proofs.RoleCounts

/-! How calls change roles. Roles are kept by routers, and by contracts that keep nothing else. A
call that asks for a change of roles makes it at the contract that is called, and nowhere else; a
constructor names the first admin of a contract that has had none; all other calls leave the roles
of everyone as they are. -/
namespace Treasury

open Exec Chain

/-- The roles that are kept at an address. -/
def Chain.roles? (c : Chain) (a : Address) : Option Roles := (c.contract? a).bind Contract.roles?

/-- Make the change of roles that a user asks for. -/
def Roles.Command.apply (user : Address) (r : Roles) : Roles.Command → Result Roles
  | grant role account => r.grant user role account
  | revoke role account => r.revoke user role account
  | renounce role => r.renounce user role

/-- The change of roles that a call asks for. -/
def Command.ranking? : Command → Option Roles.Command
  | roles ranking => some ranking
  | router (.grantRole role account) => some (.grant role account)
  | router (.revokeRole role account) => some (.revoke role account)
  | router (.renounceRole role) => some (.renounce role)
  | _ => none

/-- What a call of a user to `a` does to roles. -/
inductive Chain.Ranks (user a : Address) (command : Command) (c c' : Chain) : Prop where
  | same (h : c.SameRoles c')
  | ranked {ranking : Roles.Command} {r r' : Roles} (hAsked : command.ranking? = some ranking)
      (hOld : c.roles? a = some r) (h : ranking.apply user r = .ok r')
      (hNew : ∀ b, c'.roles? b = if b = a then some r' else c.roles? b)
  /-- A contract that was deployed without its constructor gets its first admin. -/
  | founded {r r' : Roles} {admin : Address} (hOld : c.roles? a = some r)
      (h : r.found admin = .ok r') (hNew : ∀ b, c'.roles? b = if b = a then some r' else c.roles? b)

namespace Chain

variable {c c₁ c' : Chain} {a b : Address} {old new : Contract}

theorem roles?_of_contract? (h : c.contract? a = some old) : c.roles? a = old.roles? := by
  rw [roles?, h, Option.bind_some]

theorem roles?_put (hOld : c.contract? a = some old) (b : Address) :
    (c.put a new).roles? b = if b = a then new.roles? else c.roles? b := by
  split
  · next hb =>
    subst hb
    exact roles?_of_contract? (contract?_put_self new hOld)
  · next hb => rw [roles?, contract?_put_of_ne c new hb, roles?]

namespace SameRoles

theorem roles? (h : c.SameRoles c') (a : Address) : c'.roles? a = c.roles? a := by
  have hBind := congrArg (Option.bind · id) (h a)
  simpa only [Chain.roles?, Option.bind_map, Function.id_comp] using hBind

theorem refl (c : Chain) : c.SameRoles c := fun _ => rfl

theorem trans (h : c.SameRoles c₁) (h' : c₁.SameRoles c') : c.SameRoles c' :=
  fun a => (h' a).trans (h a)

end SameRoles

end Chain

/-- Roles last. -/
theorem Contract.lasting_roles : Contract.Lasting Contract.roles? where
  aside x hAside := by cases x <;> first | rfl | cases hAside
  fees _ _ := rfl
  paused _ := rfl

section Effects

variable {user : Address} {c c' : Chain}

theorem Configured.sameRoles (h : Configured user c c') : c.SameRoles c' := by
  cases h with
  | minters hOld | ruled hOld | obeyed hOld | released _ _ hOld => exact map_put hOld (by rfl)
  | tuned hOld h => cases h <;> exact map_put hOld (by rfl)
  | bound h => exact h.map (fun _ _ => rfl) fun _ _ => rfl

theorem Settled.sameRoles (h : Settled user c c') : c.SameRoles c' := by
  induction h with
  | refl => exact .refl c
  | step _ hThen ih => exact ih.trans hThen.sameRoles

theorem Rewired.sameRoles (h : Rewired user c c') : c.SameRoles c' := by
  cases h with
  | custody hOld | share hOld | router hOld => exact map_put hOld (by rfl)

end Effects

section Commands

variable {user self : Address} {w : World} {back : Router.Callback}

/-- A contract that keeps no roles changes its storage. -/
theorem after_amend_sameRoles {σ : Type} [Storage σ] {entry : String} {change : σ → Result σ}
    (hNone : ∀ s : σ, (Storage.wrap s).roles? = none) :
    After (amend user self entry change) w fun _ v => w.chain.SameRoles v.chain :=
  after_amend fun s t _ hOld _ hv => hv ▸ map_put hOld ((hNone t).trans (hNone s).symm)

theorem Custody.Command.after_run_sameRoles (command : Custody.Command) :
    After (command.run self user) w fun _ v => w.chain.SameRoles v.chain := by
  cases command with
  | transferShares =>
    exact Custody.after_transferShares.mono fun _ _ h => Contract.lasting_roles.alike h.2.alike
  | bindAdapter =>
    refine Custody.after_bindAdapter.mono fun _ v h => ?_
    obtain ⟨q, hq, -, -, -, hv⟩ := h
    exact hv ▸ map_put hq (by rfl)
  | unsupportPool =>
    refine Custody.after_unsupportPool.mono fun _ v h => ?_
    obtain ⟨q, supported, hq, -, -, -, -, hv⟩ := h
    exact hv ▸ map_put hq (by rfl)
  | setRouter =>
    simp only [Custody.Command.run, Custody.changeRouter, after_entering, after_bind, after_view,
      after_result, View.callee_eq_ok, after_put, after_emit]
    exact fun q hq q' _ => map_put hq (by rfl)
  | unbindAdapter | supportPool | setDust | setAdmin => exact after_amend_sameRoles fun _ => rfl

namespace Router

variable {f : Frame}

/-- What a router does other than it is asked about roles leaves roles as they are. -/
theorem after_run_sameRoles (hBack : CallsBack f.caller back) {command : Command}
    (hOther : (Treasury.Command.router command).ranking? = none) :
    After (run back f command) w fun _ v => w.chain.SameRoles v.chain := by
  cases hNeeds : command.needsRunning with
  | true => exact (after_run_flows hBack hNeeds).mono fun _ _ => Contract.lasting_roles.flow
  | false =>
    cases hOrder : command.isOrder with
    | true => exact (after_run_orders hOrder).mono fun _ _ h => h.roles
    | false =>
      cases command with
      | grantRole | revokeRole | renounceRole => cases hOther
      | registerAdapter =>
        refine After.answered ((after_registerAdapter hBack (acts_user _ _)).mono fun _ _ h => ?_)
        exact Configured.sameRoles (.bound h)
      | removeAdapter =>
        exact After.answered (after_removeAdapter.mono fun _ _ h => h.settled.sameRoles)
      | setShareToken =>
        exact After.answered (after_setShareToken.mono fun _ _ => Rewired.sameRoles)
      | addPool => exact After.answered (after_addPool.mono fun _ _ => Decrees.roles)
      | _ => first | (cases hNeeds; done) | cases hOrder

theorem after_changeRoles_ranks {entry : String} {change : Roles → Result Roles}
    {command : Treasury.Command} {ranking : Roles.Command}
    (hAsked : command.ranking? = some ranking) (hApply : ∀ r, ranking.apply f.caller r = change r) :
    After (changeRoles f entry change) w fun _ v =>
      w.chain.Ranks f.caller f.self command v.chain := by
  simp only [changeRoles, after_guarded, after_bind, after_result, store, after_put]
  intro s hs _ roles hRoles
  exact .ranked hAsked (roles?_of_contract? hs) ((hApply _).trans hRoles) (roles?_put hs)

end Router

theorem Roles.Command.after_run_ranks (ranking : Roles.Command) :
    After (ranking.run self user) w fun _ v =>
      w.chain.Ranks user self (.roles ranking) v.chain := by
  cases ranking <;> exact after_amend fun r r' v hOld h hv =>
    hv ▸ .ranked rfl (roles?_of_contract? hOld) h (roles?_put hOld)

/-- A constructor leaves roles alone, or names a first admin. -/
theorem Construction.Builds.ranks {c : Chain} {command : Command} {old new : Contract}
    (hOld : c.contract? self = some old) (h : Construction.Builds c old new) :
    c.Ranks user self command (c.put self new) := by
  cases h with
  | router h =>
    simp only [Router.State.construct, Result.bind_eq_ok] at h
    obtain ⟨_, _, roles, hFound, ⟨⟩⟩ := h
    exact .founded (roles?_of_contract? hOld) hFound (roles?_put hOld)
  | roles h => exact .founded (roles?_of_contract? hOld) h (roles?_put hOld)
  | _ => exact .same (map_put hOld (by rfl))

theorem Command.after_run_ranks (hBack : Router.CallsBack user back) (command : Command) :
    After (command.run back self user) w fun _ v => w.chain.Ranks user self command v.chain := by
  have hSame {m : Exec Answer} (h : After m w fun _ v => w.chain.SameRoles v.chain) :
      After m w fun _ v => w.chain.Ranks user self command v.chain :=
    h.mono fun _ _ => .same
  cases command with
  | roles ranking => exact After.answered ranking.after_run_ranks
  | custody command => exact hSame (After.answered command.after_run_sameRoles)
  | router command =>
    cases hAsked : (router command).ranking? with
    | none => exact hSame (Router.after_run_sameRoles (f := ⟨self, user, []⟩) hBack hAsked)
    | some ranking =>
      cases command with
      | grantRole => exact After.answered (Router.after_changeRoles_ranks rfl fun _ => rfl)
      | revokeRole => exact After.answered (Router.after_changeRoles_ranks rfl fun _ => rfl)
      | renounceRole => exact After.answered (Router.after_changeRoles_ranks rfl fun _ => rfl)
      | _ => cases hAsked
  | construct construction =>
    simp only [Command.run, after_bind, after_view, after_get]
    intro _ _
    split
    · refine After.answered ((Construction.after_run construction).mono fun _ v h => ?_)
      obtain ⟨old, new, hOld, hBuilds, hv⟩ := h
      exact hv ▸ hBuilds.ranks hOld
    · exact after_throw.2 trivial
  | _ => exact hSame (Command.after_run_aside Contract.lasting_roles hBack (by rfl))

end Commands

theorem Chain.submit_ranks {c : Chain} {user target : Address} {command : Command} {out : Outcome}
    (hCall : c.submit user target command = .ok out) : c.Ranks user target command out.chain :=
  of_submit (Command.after_run_ranks (Router.callsBack_nested user c.contracts.length) command)
    hCall

end Treasury
