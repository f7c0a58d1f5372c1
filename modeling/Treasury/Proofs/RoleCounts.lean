import Treasury.Proofs.Decisions

/-! Roles are counted. The number that is kept for a role is the number of its holders, so a check
of that number keeps the last admin from leaving. -/
namespace Treasury.Roles

variable {r r' : Roles} {role : Nat} {account caller : Address}

/-- For each role the number that is kept is the number of its holders. -/
def Counted (r : Roles) : Prop :=
  ∀ role, ∃ holders : List Address, holders.Nodup ∧ (∀ a, a ∈ holders ↔ r.has role a = true) ∧
    holders.length = r.memberCount role

theorem counted_blank : Counted {} := fun _ => ⟨[], List.nodup_nil, by simp [has], rfl⟩

/-- A role with holders by count has a holder. -/
theorem Counted.exists_holder (h : r.Counted) (hSome : r.memberCount role ≠ 0) :
    ∃ account, r.has role account = true := by
  obtain ⟨holders, -, hHolds, hLength⟩ := h role
  cases holders with
  | nil => exact absurd hLength.symm hSome
  | cons first rest => exact ⟨first, (hHolds first).1 List.mem_cons_self⟩

theorem has_add (r : Roles) (role : Nat) (account : Address) (other : Nat) (a : Address) :
    (r.add role account).has other a =
      if other = role ∧ a = account then true else r.has other a := by
  simp only [has, add, Table.read_write, Prod.mk.injEq]

theorem has_drop (r : Roles) (role : Nat) (account : Address) (other : Nat) (a : Address) :
    (r.drop role account).has other a =
      if other = role ∧ a = account then false else r.has other a := by
  simp only [has, drop, Table.read_write, Prod.mk.injEq]

/-- A new holder is counted. -/
theorem memberCount_add (hNew : r.has role account = false) (other : Nat) :
    (r.add role account).memberCount other =
      r.memberCount other + if other = role then 1 else 0 := by
  simp only [memberCount, add, hNew, Bool.false_eq_true, if_false, Table.read_write]
  split
  · next hAt => rw [hAt]
  · rfl

/-- A holder that leaves is counted no longer. -/
theorem memberCount_drop (hHolds : r.has role account = true) (other : Nat) :
    (r.drop role account).memberCount other =
      r.memberCount other - if other = role then 1 else 0 := by
  simp only [memberCount, drop, hHolds, if_true, Table.read_write]
  split
  · next hAt => rw [hAt]
  · rfl

theorem Counted.add (h : r.Counted) (hNew : r.has role account = false) :
    (r.add role account).Counted := by
  intro other
  obtain ⟨holders, hNodup, hHolds, hLength⟩ := h other
  by_cases hAt : other = role
  · subst hAt
    refine ⟨account :: holders, List.nodup_cons.2 ⟨?_, hNodup⟩, fun a => ?_, ?_⟩
    · simp [hHolds, hNew]
    · rw [List.mem_cons, hHolds, has_add]
      by_cases ha : a = account <;> simp [ha]
    · rw [memberCount_add hNew, if_pos rfl, List.length_cons, hLength]
  · refine ⟨holders, hNodup, fun a => ?_, ?_⟩
    · rw [hHolds, has_add, if_neg fun hBoth => hAt hBoth.1]
    · rw [memberCount_add hNew, if_neg hAt, hLength, Nat.add_zero]

theorem Counted.drop (h : r.Counted) (hHolder : r.has role account = true) :
    (r.drop role account).Counted := by
  intro other
  obtain ⟨holders, hNodup, hHolds, hLength⟩ := h other
  by_cases hAt : other = role
  · subst hAt
    refine ⟨holders.erase account, hNodup.erase account, fun a => ?_, ?_⟩
    · rw [hNodup.mem_erase_iff, hHolds, has_drop]
      by_cases ha : a = account <;> simp [ha]
    · rw [memberCount_drop hHolder, if_pos rfl,
        List.length_erase_of_mem ((hHolds account).2 hHolder), hLength]
  · refine ⟨holders, hNodup, fun a => ?_, ?_⟩
    · rw [hHolds, has_drop, if_neg fun hBoth => hAt hBoth.1]
    · rw [memberCount_drop hHolder, if_neg hAt, hLength, Nat.sub_zero]

/-- Roles are counted, those that are held are defined, and there is an admin. -/
structure Led (r : Roles) : Prop where
  counted : r.Counted
  defined : ∀ role account, r.has role account = true → role < count
  admins : r.memberCount admin ≠ 0

theorem Led.exists_admin (h : r.Led) : ∃ account, r.has admin account = true :=
  h.counted.exists_holder h.admins

/-- There has been no admin yet, and nobody holds a role. -/
structure Vacant (r : Roles) : Prop where
  unfounded : r.founded = false
  counted : r.Counted
  nobody : ∀ role account, r.has role account = false

theorem vacant_blank : Vacant {} := ⟨rfl, counted_blank, fun _ _ => rfl⟩

/-- The first admin is the only one who holds a role. -/
theorem led_of_found (hVacant : r.Vacant) (h : r.found account = .ok r') : r'.Led := by
  simp only [found, Result.bind_eq_ok] at h
  obtain ⟨_, _, ⟨⟩⟩ := h
  have hNew := hVacant.nobody admin account
  refine ⟨hVacant.counted.add hNew, fun role a hHas => ?_, ?_⟩
  · change (r.add admin account).has role a = true at hHas
    rw [has_add, hVacant.nobody role a] at hHas
    split at hHas
    · next hAdmin => exact hAdmin.1 ▸ by decide
    · cases hHas
  · change (r.add admin account).memberCount admin ≠ 0
    rw [memberCount_add hNew, if_pos rfl]
    exact Nat.succ_ne_zero _

/-- A defined role is given to someone new. -/
theorem Led.add (h : r.Led) (hDefined : role < count) (hNew : r.has role account = false) :
    (r.add role account).Led := by
  refine ⟨h.counted.add hNew, fun other a hHas => ?_, fun hNone => ?_⟩
  · rw [has_add] at hHas
    split at hHas
    · next hSame => exact hSame.1 ▸ hDefined
    · exact h.defined other a hHas
  · rw [memberCount_add hNew] at hNone
    exact h.admins (Nat.eq_zero_of_add_eq_zero_right hNone)

/-- A role is taken from a holder who is not the last admin. -/
theorem Led.drop (h : r.Led) (hHolder : r.has role account = true)
    (hSpare : role ≠ admin ∨ 1 < r.memberCount admin) : (r.drop role account).Led := by
  refine ⟨h.counted.drop hHolder, fun other a hHas => ?_, ?_⟩
  · rw [has_drop] at hHas
    split at hHas
    · cases hHas
    · exact h.defined other a hHas
  rw [memberCount_drop hHolder]
  have hAdmins := h.admins
  split
  · next hAt =>
    have hMany := hSpare.resolve_left fun hNe => hNe hAt.symm
    omega
  · exact hAdmins

/-- An admin gives a defined role, to someone who may hold it already. -/
theorem grant_spec (h : r.grant caller role account = .ok r') :
    r.has admin caller = true ∧ role < count ∧
      r' = if r.has role account then r else r.add role account := by
  simp only [grant, requireAdmin, requireRole, Result.bind_eq_ok, ensure_eq_ok] at h
  obtain ⟨_, hAdmin, _, hDefined, ⟨⟩⟩ := h
  exact ⟨hAdmin, hDefined, rfl⟩

/-- A role is taken from a holder who is not the last admin, or nothing happens. -/
theorem renounce_spec (h : r.renounce account role = .ok r') :
    r' = r ∨ r.has role account = true ∧ (role ≠ admin ∨ 1 < r.memberCount admin) ∧
      r' = r.drop role account := by
  unfold renounce at h
  split at h
  · next hHolds =>
    simp only [requireSpare, Result.bind_eq_ok, ensure_eq_ok] at h
    obtain ⟨_, hSpare, ⟨⟩⟩ := h
    exact .inr ⟨hHolds, hSpare, rfl⟩
  · cases h
    exact .inl rfl

/-- An admin takes a role from an account as the account could give it up. -/
theorem revoke_spec (h : r.revoke caller role account = .ok r') :
    r.has admin caller = true ∧ r.renounce account role = .ok r' := by
  simp only [revoke, requireAdmin, requireRole, Result.bind_eq_ok, ensure_eq_ok] at h
  obtain ⟨_, hAdmin, h⟩ := h
  exact ⟨hAdmin, h⟩

theorem Led.renounce (h : r.Led) (hRenounce : r.renounce account role = .ok r') : r'.Led := by
  rcases renounce_spec hRenounce with rfl | ⟨hHolds, hSpare, rfl⟩
  · exact h
  · exact h.drop hHolds hSpare

/-- Whatever is done about roles, there is an admin. -/
theorem Ruled.led (hRuled : r.Ruled caller r') (h : r.Led) : r'.Led := by
  cases hRuled with
  | granted hGrant =>
    obtain ⟨-, hDefined, rfl⟩ := grant_spec hGrant
    split
    · exact h
    · next hNew => exact h.add hDefined (by simpa using hNew)
  | revoked hRevoke => exact h.renounce (revoke_spec hRevoke).2
  | renounced hRenounce => exact h.renounce hRenounce

theorem founded_renounce (h : r.renounce account role = .ok r') : r'.founded = r.founded := by
  rcases renounce_spec h with rfl | ⟨-, -, rfl⟩ <;> rfl

theorem Ruled.founded (h : r.Ruled caller r') : r'.founded = r.founded := by
  cases h with
  | granted h =>
    obtain ⟨-, -, rfl⟩ := grant_spec h
    split <;> rfl
  | revoked h => exact founded_renounce (revoke_spec h).2
  | renounced h => exact founded_renounce h

/-- Whoever holds no role gives up none, and may not give or take any. -/
theorem Ruled.eq_of_outsider (h : r.Ruled caller r') (hNone : ∀ role, r.has role caller = false) :
    r' = r := by
  have hNot : ∀ {role}, r.has role caller ≠ true := by simp [hNone]
  cases h with
  | granted h => exact absurd (grant_spec h).1 hNot
  | revoked h => exact absurd (revoke_spec h).1 hNot
  | renounced h => exact (renounce_spec h).resolve_right fun hHolds => hNot hHolds.1

/-- There has been a first admin, and roles are in good order since. Before that nobody holds one.
-/
def Regular (r : Roles) : Prop := r.founded = true ∧ r.Led ∨ r.Vacant

theorem Regular.led (h : r.Regular) (hFounded : r.founded = true) : r.Led := by
  rcases h with ⟨-, hLed⟩ | hVacant
  · exact hLed
  · rw [hVacant.unfounded] at hFounded
    cases hFounded

theorem Regular.ruled (h : r.Regular) (hRuled : r.Ruled caller r') : r'.Regular := by
  rcases h with ⟨hFounded, hLed⟩ | hVacant
  · exact .inl ⟨hRuled.founded.trans hFounded, hRuled.led hLed⟩
  · rw [hRuled.eq_of_outsider fun role => hVacant.nobody role caller]
    exact .inr hVacant

/-- There is no second first admin. -/
theorem Regular.found (h : r.Regular) (hFound : r.found account = .ok r') :
    r.founded = false ∧ r'.founded = true ∧ r'.Led := by
  have hBefore : r.founded = false := by
    simp only [Roles.found, Result.bind_eq_ok, ensure_eq_ok] at hFound
    obtain ⟨_, hBefore, -⟩ := hFound
    exact hBefore
  have hAfter : r'.founded = true := by
    simp only [Roles.found, Result.bind_eq_ok] at hFound
    obtain ⟨_, _, ⟨⟩⟩ := hFound
    rfl
  refine ⟨hBefore, hAfter, ?_⟩
  rcases h with ⟨hFounded, -⟩ | hVacant
  · rw [hBefore] at hFounded
    cases hFounded
  · exact led_of_found hVacant hFound

end Treasury.Roles
