import Treasury.Proofs.Lasting
import Treasury.Proofs.AgreementRun

/-! Which pools count as value, seen from one router and its custody contract. Calls may have more
pools counted; the router that gives up the adapter of a pool is the only one that can have a pool
counted no longer. -/
namespace Treasury

open Exec Chain

namespace Contract

/-- The pools that a custody contract counts as value. -/
def counted? : Contract → Option Roster
  | custody q => some q.supported
  | _ => none

theorem lasting_counted : Lasting counted? where
  aside x hAside := by cases x <;> first | rfl | cases hAside
  fees _ _ := rfl
  paused _ := rfl

end Contract

namespace Chain

/-- What a custody contract counts as value it counts afterwards. -/
def StillCounts (k : Address) (c c' : Chain) : Prop :=
  ∀ p, (c.keeping k).supports p = true → (c'.keeping k).supports p = true

variable {c c' : Chain} {a k : Address} {q q' : Custody} {old new : Contract}

theorem SameBy.supported (h : c.SameBy Contract.counted? c') (k : Address) :
    (c'.keeping k).supported = (c.keeping k).supported := by
  have hSame : ∀ c : Chain, (c.keeping k).supported =
      (((c.contract? k).map Contract.counted?).join).getD {} := by
    intro c
    rw [keeping]
    cases c.contract? k with
    | none => rfl
    | some x => cases x <;> rfl
  rw [hSame, hSame, h k]

theorem SameBy.stillCounts (h : c.SameBy Contract.counted? c') : c.StillCounts k c' := by
  intro p hp
  rw [Custody.supports, h.supported k]
  exact hp

namespace StillCounts

theorem trans {c₁ : Chain} (h : c.StillCounts k c₁) (h' : c₁.StillCounts k c') :
    c.StillCounts k c' :=
  fun p hp => h' p (h p hp)

theorem put_of_ne (hk : k ≠ a) : c.StillCounts k (c.put a new) := by
  intro p hp
  rwa [keeping, contract?_put_of_ne c new hk]

theorem put_custody (hq : c.contract? a = some (.custody q))
    (hKeeps : ∀ p, q.supports p = true → q'.supports p = true) :
    c.StillCounts k (c.put a (.custody q')) := by
  by_cases hk : k = a
  · subst hk
    intro p hp
    rw [keeping_of hq] at hp
    rw [keeping_of (contract?_put_self _ hq)]
    exact hKeeps p hp
  · exact put_of_ne hk

theorem gains {x : Contract} (h : c.Gains a x c') (hq : c.contract? k = some (.custody q)) :
    c.StillCounts k c' := by
  have hk : k ≠ a := by
    rintro rfl
    simp [h.free] at hq
  intro p hp
  rwa [keeping, h.contracts, if_neg hk]

end StillCounts

end Chain

section Effects

variable {user a k : Address} {c c' : Chain}

theorem Rewired.stillCounts (h : Rewired user c c') : c.StillCounts k c' := by
  cases h with
  | custody hOld hSet =>
    simp only [Custody.setRouter, Result.bind_eq_ok] at hSet
    obtain ⟨_, _, ⟨⟩⟩ := hSet
    exact .put_custody hOld fun _ => id
  | share hOld | router hOld => exact SameBy.stillCounts (map_put hOld (by rfl))

/-- An admin of a router may have a pool counted, and none uncounted. -/
theorem Chain.Governs.stillCounts (h : c.Governs user a c') : c.StillCounts k c' := by
  cases h with
  | decided hRouter | ranked hRouter | removed hRouter =>
    exact SameBy.stillCounts (map_put hRouter (by rfl))
  | @added _ _ _ _ s q _ registry hRouter _ _ _ _ hCustody _ _ hSupport =>
    obtain ⟨-, -, rfl⟩ := Custody.support_spec hSupport
    have hNe := (Router.custody_ne_router hCustody hRouter).symm
    have hFirst : c.StillCounts k (c.put a (.router { s with registry })) :=
      SameBy.stillCounts (map_put hRouter (by rfl))
    apply hFirst.trans
    apply StillCounts.put_custody (contract?_put_other hNe hCustody)
    intro p hp
    rw [Custody.supports, Roster.contains_push, Bool.or_eq_true]
    exact .inr hp

theorem Router.Binds.stillCounts {pool adapter : Address}
    (h : Router.Binds user pool adapter c c') : c.StillCounts k c' :=
  SameBy.stillCounts (h.map (fun _ _ => rfl) fun _ _ => rfl)

/-- Only the router of a custody contract can have a pool counted no longer, and only the one that
it is asked to give up. -/
theorem Router.Discards.stillCounts_or {pool p : Address} {q : Custody}
    (h : Router.Discards user a pool c c') (hq : c.contract? k = some (.custody q))
    (hSound : q.supported.Sound) (hp : q.supports p = true) :
    (c'.keeping k).supports p = true ∨ p = pool ∧ q.router = some a := by
  obtain @⟨s, k', q', q₁, q'', hRouter, -, -, -, hCustody, hUncounts, hUnbind⟩ := h
  by_cases hk : k = k'
  · subst hk
    obtain rfl : q = q' := storage_unique hq hCustody
    obtain ⟨hKnown, -, rfl⟩ := Custody.unbind_spec hUnbind
    rw [keeping_of (contract?_put_self _ hCustody)]
    cases hUncounts with
    | idle => exact .inl hp
    | removed hKnown hSupports _ hRemove =>
      by_cases hSame : p = pool
      · exact .inr ⟨hSame, hKnown⟩
      · exact .inl ((Roster.contains_swapRemove hSound hSupports hRemove).2 ⟨hp, hSame⟩)
  · rw [keeping, contract?_put_of_ne _ _ hk, ← keeping, keeping_of hq]
    exact .inl hp

end Effects

section Commands

variable {user self k : Address} {w : World} {back : Router.Callback}

theorem Custody.Command.after_run_stillCounts (command : Custody.Command)
    (hOther : ∀ q, w.chain.contract? k = some (.custody q) → q.router ≠ some user) :
    After (command.run self user) w fun _ v => w.chain.StillCounts k v.chain := by
  have hApart : ∀ {q}, w.chain.contract? self = some (.custody q) → q.router = some user →
      k ≠ self := by
    rintro q hq hKnown rfl
    exact hOther q hq hKnown
  cases command with
  | transferShares =>
    exact Custody.after_transferShares.mono fun _ _ h =>
      (Contract.lasting_counted.alike h.2.alike).stillCounts
  | bindAdapter =>
    refine Custody.after_bindAdapter.mono fun _ v h => ?_
    obtain ⟨q, hq, hKnown, -, -, hv⟩ := h
    exact hv ▸ .put_of_ne (hApart hq hKnown)
  | unbindAdapter =>
    refine Custody.after_unbindAdapter.mono fun _ v h => ?_
    obtain ⟨q, q', hq, hUnbind, hv⟩ := h
    exact hv ▸ .put_of_ne (hApart hq (Custody.unbind_spec hUnbind).1)
  | supportPool =>
    refine Custody.after_supportPool.mono fun _ v h => ?_
    obtain ⟨q, q', hq, hSupport, hv⟩ := h
    exact hv ▸ .put_of_ne (hApart hq (Custody.support_spec hSupport).1)
  | unsupportPool =>
    refine Custody.after_unsupportPool.mono fun _ v h => ?_
    obtain ⟨q, supported, hq, hKnown, -, -, -, hv⟩ := h
    exact hv ▸ .put_of_ne (hApart hq hKnown)
  | setRouter =>
    simp only [Custody.Command.run, Custody.changeRouter, after_entering, after_bind, after_view,
      after_result, View.callee_eq_ok, after_put, after_emit]
    exact fun q hq q' h => (Rewired.custody hq h).stillCounts
  | setDust limit part =>
    refine after_amend fun q q' v hq h hv => ?_
    obtain ⟨-, _, _, _, rfl⟩ := Custody.ruled_spec (.inl ⟨limit, part, h⟩)
    exact hv ▸ .put_custody hq fun _ => id
  | setAdmin admin =>
    refine after_amend fun q q' v hq h hv => ?_
    obtain ⟨-, _, _, _, rfl⟩ := Custody.ruled_spec (.inr ⟨admin, h⟩)
    exact hv ▸ .put_custody hq fun _ => id

/-- Unless it is to give up the adapter of a pool, a router leaves counted what is counted. -/
theorem Router.after_run_stillCounts {f : Frame} (hBack : CallsBack f.caller back)
    {command : Command} (hKeeps : ∀ pool, command ≠ .removeAdapter pool) :
    After (run back f command) w fun _ v => w.chain.StillCounts k v.chain := by
  cases hNeeds : command.needsRunning with
  | true =>
    exact (after_run_flows hBack hNeeds).mono fun _ _ h =>
      (Contract.lasting_counted.flow h).stillCounts
  | false =>
    cases hOrder : command.isOrder with
    | true => exact (after_run_orders hOrder).mono fun _ _ h => h.governs.stillCounts
    | false =>
      have hGoverns {m : Exec Unit}
          (h : After m w fun _ v => w.chain.Governs f.caller f.self v.chain) :
          After (do let _ ← m; pure Answer.unit) w fun _ v => w.chain.StillCounts k v.chain :=
        After.answered (h.mono fun _ _ hGoverns => hGoverns.stillCounts)
      cases command with
      | removeAdapter pool => exact absurd rfl (hKeeps pool)
      | registerAdapter =>
        exact After.answered ((after_registerAdapter hBack (acts_user _ _)).mono fun _ _ h =>
          h.stillCounts)
      | setShareToken =>
        exact After.answered (after_setShareToken.mono fun _ _ => Rewired.stillCounts)
      | addPool => exact hGoverns (after_addPool.mono fun _ _ => Decrees.governs)
      | grantRole => exact hGoverns (after_changeRoles fun _ _ => .granted)
      | revokeRole => exact hGoverns (after_changeRoles fun _ _ => .revoked)
      | renounceRole => exact hGoverns (after_changeRoles fun _ _ => .renounced)
      | _ => first | (cases hNeeds; done) | cases hOrder

/-- A custody contract that has been set up, and whose router is not the user, counts what it counts
as long as no router is told to give up the adapter of a pool. -/
theorem Command.after_run_stillCounts (hBack : Router.CallsBack user back)
    (hBuilt : k ∉ w.chain.blank)
    (hOther : ∀ q, w.chain.contract? k = some (.custody q) → q.router ≠ some user)
    {command : Command} (hKeeps : ∀ pool, command ≠ .router (.removeAdapter pool)) :
    After (command.run back self user) w fun _ v => w.chain.StillCounts k v.chain := by
  cases command with
  | roles command =>
    refine After.answered ?_
    cases command <;> exact after_amend fun r r' v hOld h hv =>
      hv ▸ SameBy.stillCounts (map_put hOld (by rfl))
  | custody command => exact After.answered (command.after_run_stillCounts hOther)
  | router command =>
    exact Router.after_run_stillCounts (f := ⟨self, user, []⟩) hBack fun pool h =>
      hKeeps pool (congrArg Command.router h)
  | construct construction =>
    simp only [Command.run, after_bind, after_view, after_get]
    intro _ _
    split
    · next hBlank =>
      refine After.answered ((Construction.after_run construction).mono fun _ v h => ?_)
      obtain ⟨old, new, -, -, hv⟩ := h
      exact hv ▸ .put_of_ne (by rintro rfl; exact hBuilt hBlank)
    · exact after_throw.2 trivial
  | _ =>
    exact (Command.after_run_aside Contract.lasting_counted hBack (by rfl)).mono fun _ _ h =>
      h.stillCounts

end Commands

end Treasury
