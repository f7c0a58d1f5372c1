import Treasury.Proofs.Run

/-! Who can be charged. A call charges its user as it likes. It charges anyone else no more than
what the owner allows that very user, whatever the owner allows to routers, adapters and vaults. -/
namespace Treasury

open Exec Chain

namespace Chain

/-- The owner of a token loses nothing but what it allows the user, and keeps its allowances to
everyone else. -/
structure Spares (c : Chain) (user owner t : Address) (c' : Chain) : Prop where
  charged : c.balance t owner + c'.allowance t owner user ≤
    c'.balance t owner + c.allowance t owner user
  others : ∀ x, x ≠ user → c'.allowance t owner x = c.allowance t owner x

namespace Spares

variable {c c₁ c' : Chain} {user o t b giver taker spender owner : Address} {n : Amount}

theorem of_books (h : c'.books? t = c.books? t) : c.Spares user o t c' := by
  refine ⟨?_, fun x _ => ?_⟩
  · simp only [balance, allowance, h, Nat.le_refl]
  · simp only [allowance, h]

theorem refl (c : Chain) : c.Spares user o t c := of_books rfl

theorem trans (h : c.Spares user o t c₁) (h' : c₁.Spares user o t c') : c.Spares user o t c' := by
  refine ⟨?_, fun x hx => (h'.others x hx).trans (h.others x hx)⟩
  have hFirst := h.charged
  have hThen := h'.charged
  omega

theorem of_transfer (hMove : c.Moves b (.transfer giver taker n) c') (hGiver : giver ≠ o) :
    c.Spares user o t c' := by
  refine ⟨?_, fun x _ => hMove.allowance_transfer t o x⟩
  have hBalance := hMove.balance_transfer t o
  have hAllowance := hMove.allowance_transfer t o user
  rw [if_neg fun h => hGiver h.2.symm] at hBalance
  omega

theorem of_approve (hMove : c.Moves b (.approve owner spender n) c') (hOwner : owner ≠ o) :
    c.Spares user o t c' := by
  have hAllowance : ∀ x, c'.allowance t o x = c.allowance t o x := fun x => by
    rw [hMove.allowance_approve, if_neg fun h => hOwner h.2.1.symm]
  refine ⟨?_, fun x _ => hAllowance x⟩
  have hBalance := hMove.balance_approve t o
  have hUser := hAllowance user
  omega

/-- Whatever is taken from the owner has to be taken by the user. -/
theorem of_transferFrom (hMove : c.Moves b (.transferFrom spender owner taker n) c')
    (hSpender : owner = o → spender = user) : c.Spares user o t c' := by
  refine ⟨?_, fun x hx => ?_⟩
  · have hBalance := hMove.balance_transferFrom t o
    have hAllowance := hMove.allowance_transferFrom t o user
    by_cases hOwner : b = t ∧ owner = o
    · obtain ⟨rfl, rfl⟩ := hOwner
      simp only [hSpender rfl, and_self, if_true, true_and] at hBalance hAllowance
      have hLess : c'.balance b owner + n ≥ c.balance b owner := by
        rw [hBalance]
        exact Nat.le_add_right _ _
      omega
    · have hOther : ¬(t = b ∧ o = owner) := fun h => hOwner ⟨h.1.symm, h.2.symm⟩
      have hSame : ¬(t = b ∧ o = owner ∧ user = spender) := fun h => hOther ⟨h.1, h.2.1⟩
      rw [if_neg hOther] at hBalance
      rw [if_neg hSame] at hAllowance
      omega
  · have hAllowance := hMove.allowance_transferFrom t o x
    rw [if_neg fun h => hx (h.2.2.trans (hSpender h.2.1.symm))] at hAllowance
    exact hAllowance

end Spares

end Chain

namespace Wiring

/-- The owner of a token of the treasury has no part in what a user does, and is no contract. Nor
is the user a router or a share token, which others would believe. -/
structure Bystander (w : Wiring) (c : Chain) (user owner t : Address) : Prop where
  kept : w.Kept c
  token : t = w.stable ∨ t = w.share
  account : c.kind? owner = none
  other : owner ≠ user
  user_ne_router : user ≠ w.router
  user_ne_share : user ≠ w.share

namespace Bystander

variable {w : Wiring} {c c' : Chain} {user o t a : Address}

theorem alike (h : w.Bystander c user o t) (hAlike : Alike c c') : w.Bystander c' user o t :=
  ⟨h.kept.alike hAlike, h.token, (hAlike.kind? o).trans h.account, h.other, h.user_ne_router,
    h.user_ne_share⟩

theorem effect (h : w.Bystander c user o t) (hEffect : Effect user c c') :
    w.Bystander c' user o t :=
  ⟨h.kept.effect hEffect, h.token, (hEffect.kind? o).trans h.account, h.other, h.user_ne_router,
    h.user_ne_share⟩

theorem ne_contract (h : w.Bystander c user o t) {k : Contract.Kind} (ha : c.kind? a = some k) :
    a ≠ o := by
  rintro rfl
  simp [h.account] at ha

theorem ne_acts (h : w.Bystander c user o t) (ha : c.Acts user a) : a ≠ o := by
  rintro rfl
  rcases ha with hUser | hContract
  · exact h.other hUser
  · exact hContract h.account

/-- A router believes its share token only, so nobody else is charged at a user's word. -/
theorem ne_payer (h : w.Bystander c user o t) {collector : Address}
    (ha : c.Payer user collector a) : a ≠ o := by
  rcases ha with hActs | ⟨s, hs, hShare⟩
  · exact h.ne_acts hActs
  · obtain ⟨-, -, -, hNone | hSome⟩ := h.kept.router hs
    · simp [hShare] at hNone
    · exact absurd (Option.some.inj (hShare.symm.trans hSome)) h.user_ne_share

/-- The contract of a token of the treasury is the stable token or the share token. -/
theorem kind_token (h : w.Bystander c user o t) {x : Contract} (hx : c.contract? t = some x) :
    x.kind = .stable ∨ x.kind = .share := by
  rcases h.token with rfl | rfl
  · exact .inl ((h.kept.admits _ _ hx).1 rfl)
  · exact .inr ((h.kept.admits _ _ hx).2.2.2.1 rfl).1

theorem spares_of_poolKeeps (h : w.Bystander c user o t)
    {act : Token.Ledger → Result Token.Ledger} (hPool : c.PoolKeeps a act c') :
    c.Spares user o t c' := by
  refine .of_books (hPool.books_frame ?_)
  rintro rfl
  obtain ⟨k, hk, hKind⟩ := hPool.kind
  obtain ⟨x, hx, rfl⟩ := Option.map_eq_some_iff.1 hKind
  rcases h.kind_token hx with hToken | hToken <;> simp [hToken] at hk

end Bystander

end Wiring

open Wiring (Bystander)

variable {w : Wiring} {user o t : Address} {c c' : Chain}

theorem Trade.spares (hTrade : Trade user c c') (h : w.Bystander c user o t) :
    c.Spares user o t c' := by
  induction hTrade with
  | refl c => exact .refl c
  | trans hFirst _ ihFirst ihThen => exact (ihFirst h).trans (ihThen (h.alike hFirst.alike))
  | sent hGiver hMove =>
    rcases hGiver with rfl | hDesk
    · exact .of_transfer hMove h.other.symm
    · exact .of_transfer hMove (h.ne_acts hDesk.acts)
  | allowed hMove => exact .of_approve hMove h.other.symm
  | drawn hMove => exact .of_transferFrom hMove fun _ => rfl
  | collected hOwner _ hMove =>
    exact .of_transferFrom hMove fun hCharged => absurd hCharged (h.ne_payer hOwner)
  | lent hLender hAllow hTrade hEnd ih =>
    have hNe := h.ne_acts (acts_of_lender hLender)
    have hAllowed := h.alike hAllow.alike
    exact ((Spares.of_approve hAllow hNe).trans (ih hAllowed)).trans (.of_approve hEnd hNe)
  | joined _ hOwner hMove hMint =>
    refine Spares.trans (.of_transferFrom hMove ?_)
      ((h.alike hMove.alike).spares_of_poolKeeps hMint)
    exact fun hCharged => absurd hCharged (h.ne_payer hOwner)
  | left _ _ hTake hMove =>
    obtain ⟨k, -, hPool⟩ := hTake.kind
    exact (h.spares_of_poolKeeps hTake).trans (.of_transfer hMove (h.ne_contract hPool))

/-- A contract is replaced. If it is the token, then its new books spare the owner. -/
theorem Chain.Spares.of_put {a : Address} {old new : Contract} (hOld : c.contract? a = some old)
    (h : a = t → ∃ l l', old.books? = some l ∧ new.books? = some l' ∧
      l.balanceOf o + l'.allowance o user ≤ l'.balanceOf o + l.allowance o user ∧
      ∀ x, x ≠ user → l'.allowance o x = l.allowance o x) :
    c.Spares user o t (c.put a new) := by
  by_cases hAt : a = t
  · subst hAt
    obtain ⟨l, l', hl, hl', hCharged, hOthers⟩ := h rfl
    have hBefore : c.books? a = some l := (books?_of_contract? hOld).trans hl
    have hAfter : (c.put a new).books? a = some l' := by rw [books?_put hOld, if_pos rfl, hl']
    constructor
    · simpa only [balance, allowance, hBefore, hAfter, Option.getD_some] using hCharged
    · simpa only [allowance, hBefore, hAfter, Option.getD_some] using hOthers
  · exact .of_books (by rw [books?_put hOld, if_neg fun h => hAt h.symm])

namespace Token.Ledger

variable {l l' : Ledger} {n : Amount} {initiator owner account : Address}

/-- Units that are created take nothing from anyone. -/
theorem mint_spares (h : l.mint account n = .ok l') (user o : Address) :
    l.balanceOf o + l'.allowance o user ≤ l'.balanceOf o + l.allowance o user ∧
      ∀ x, x ≠ user → l'.allowance o x = l.allowance o x := by
  obtain ⟨hMore, hAllow, -⟩ := mint_spec h
  have hSame : ∀ x, l'.allowance o x = l.allowance o x := fun x => by
    rw [allowance, hAllow, allowance]
  refine ⟨?_, fun x _ => hSame x⟩
  rw [hSame user, hMore o]
  exact Nat.add_le_add_right (Nat.le_add_right _ _) _

/-- Units that are destroyed on behalf of the user are its own, or it was allowed to spend them. -/
theorem burnFrom_spares (h : l.burnFrom initiator owner n = .ok l') (o : Address)
    (hOther : o ≠ initiator) :
    l.balanceOf o + l'.allowance o initiator ≤ l'.balanceOf o + l.allowance o initiator ∧
      ∀ x, x ≠ initiator → l'.allowance o x = l.allowance o x := by
  obtain ⟨hLess, hAllow, -⟩ := burnFrom_spec h
  constructor
  · rw [← hLess o, ← hAllow o initiator]
    by_cases hOwner : o = owner
    · subst hOwner
      simp only [if_true, true_and, ne_eq, hOther.symm, not_false_eq_true]
      exact Nat.le_of_eq (Nat.add_right_comm _ _ _ |>.trans (Nat.add_assoc _ _ _))
    · simp only [hOwner, if_false, false_and]
      exact Nat.le_refl _
  · intro x hx
    rw [← hAllow o x, if_neg fun h => hx h.2.1]
    rfl

end Token.Ledger

theorem Flow.spares (hFlow : Flow user c c') (h : w.Bystander c user o t) :
    c.Spares user o t c' := by
  induction hFlow with
  | trade hTrade => exact hTrade.spares h
  | trans hFirst _ ihFirst ihThen => exact (ihFirst h).trans (ihThen (h.effect (.flow hFirst)))
  | lent hLender hAllow _ hEnd ih =>
    have hNe := h.ne_acts hLender.acts
    have hAllowed := h.alike hAllow.alike
    exact ((Spares.of_approve hAllow hNe).trans (ih hAllowed)).trans (.of_approve hEnd hNe)
  | issued hOld hMint =>
    exact .of_put hOld fun _ => ⟨_, _, rfl, rfl, Token.Ledger.mint_spares hMint user o⟩
  | @retired c a initiator owner n s s' hOld hInitiator hRetire =>
    obtain ⟨l', hl', rfl⟩ := ShareToken.retire_spec hRetire
    refine .of_put hOld fun hAt => ⟨_, _, rfl, rfl, ?_⟩
    subst hAt
    obtain rfl : initiator = user := by
      apply hInitiator.resolve_right
      intro hRouter
      rcases h.token with rfl | rfl
      · cases (h.kept.admits _ _ hOld).1 rfl
      · obtain ⟨_, ⟨⟩, hNone | hSome⟩ := h.kept.share hOld
        · simp [hRouter] at hNone
        · exact h.user_ne_router (Option.some.inj (hRouter.symm.trans hSome))
    exact Token.Ledger.burnFrom_spares hl' o h.other
  | recorded hOld | paused hOld => exact .of_books (books?_put_same hOld (by rfl) t)

theorem Deed.spares (hDeed : Deed user c c') (h : w.Bystander c user o t) :
    c.Spares user o t c' := by
  cases hDeed with
  | minted hOld hMint =>
    obtain ⟨l', _, hl', rfl⟩ := Token.Stable.mint_spec hMint
    exact .of_put hOld fun _ => ⟨_, _, rfl, rfl, Token.Ledger.mint_spares hl' user o⟩
  | @burned a n s s' hOld hBurn =>
    obtain ⟨l', _, hl', rfl⟩ := Token.Stable.burn_spec hBurn
    have hOwn : s.ledger.burnFrom user user n = .ok l' := by
      simpa only [Token.Ledger.burnFrom, if_true, pure_bind] using hl'
    exact .of_put hOld fun _ => ⟨_, _, rfl, rfl, Token.Ledger.burnFrom_spares hOwn o h.other⟩
  | standalone hOld hKind =>
    refine .of_put hOld fun hAt => ?_
    subst hAt
    rcases h.kind_token hOld with hToken | hToken <;> simp [hToken] at hKind
  | constructed hOld hBlank =>
    refine .of_put hOld fun hAt => ?_
    subst hAt
    refine absurd hBlank (h.kept.constructed _ ?_)
    rcases h.token with rfl | rfl <;> simp [Wiring.places]

theorem Effect.spares (hEffect : Effect user c c') (h : w.Bystander c user o t) :
    c.Spares user o t c' := by
  induction hEffect with
  | flow hFlow => exact hFlow.spares h
  | trans hFirst _ ihFirst ihThen => exact (ihFirst h).trans (ihThen (h.effect hFirst))
  | deed hDeed => exact hDeed.spares h
  | configured hConfigured => exact .of_books (hConfigured.same t).2

/-- Decisions and pointing contracts at each other touch no books. -/
theorem submit_spares {caller owner : Digest} {target : Address} {command : Command}
    {out : Outcome} (h : w.Bystander c (.account caller) (.account owner) t)
    (hCall : c.submit (.account caller) target command = .ok out) :
    out.chain.kind? t = c.kind? t ∧ c.Spares (.account caller) (.account owner) t out.chain := by
  cases submit_undergoes hCall with
  | effect hEffect => exact ⟨hEffect.kind? t, hEffect.spares h⟩
  | governed hSame | rewired hSame => exact ⟨(hSame.same t).1, .of_books (hSame.same t).2⟩

/-- A token has books. -/
theorem Chain.books_of_kind (h : c.kind? t = some .stable ∨ c.kind? t = some .share) :
    ∃ l, c.books? t = some l := by
  simp only [kind?, Option.map_eq_some_iff] at h
  obtain ⟨x, hx, hKind⟩ | ⟨x, hx, hKind⟩ := h <;> cases x <;> cases hKind
  · exact ⟨_, books?_of_contract? hx⟩
  · exact ⟨_, books?_of_contract? hx⟩

theorem Wiring.Complete.kind_token (h : w.Complete c) (ht : t = w.stable ∨ t = w.share) :
    c.kind? t = some .stable ∨ c.kind? t = some .share := by
  obtain ⟨stable, hStable⟩ := h.stable
  obtain ⟨share, hShare, -⟩ := h.share
  rcases ht with rfl | rfl
  · exact .inl (kind?_of_contract? hStable)
  · exact .inr (kind?_of_contract? hShare)

namespace WiredRun

/-- No contract of the treasury stands where an account is. -/
theorem account_ne {a : Address} {x : Contract} (hRun : WiredRun w c) (d : Digest)
    (hx : c.contract? a = some x) : .account d ≠ a :=
  ne_of_contract? hx (hRun.account_free d)

/-- If a call of an account makes another account poorer, in the stable token or in shares, then by
no more than its allowance to the caller falls. Its allowances to everyone else, contracts
included, stay as they are. -/
theorem spends_only_allowance (hRun : WiredRun w c) (hComplete : w.Complete c)
    {caller owner : Digest} {target : Address} {command : Command} {out : Outcome}
    (hCall : c.submit (.account caller) target command = .ok out) (hOther : owner ≠ caller)
    (ht : t = w.stable ∨ t = w.share) :
    ∃ before after, c.books? t = some before ∧ out.chain.books? t = some after ∧
      (∀ d, after.balanceOf (.account owner) + d = before.balanceOf (.account owner) →
        after.allowance (.account owner) (.account caller) + d ≤
          before.allowance (.account owner) (.account caller)) ∧
      ∀ spender, spender ≠ .account caller →
        after.allowance (.account owner) spender = before.allowance (.account owner) spender := by
  obtain ⟨router, hRouter, -⟩ := hComplete.router
  obtain ⟨share, hShare, -⟩ := hComplete.share
  have hBystander : w.Bystander c (.account caller) (.account owner) t :=
    { kept := hRun.kept
      token := ht
      account := hRun.account_free owner
      other := fun h => hOther (Address.account.inj h)
      user_ne_router := hRun.account_ne caller hRouter
      user_ne_share := hRun.account_ne caller hShare }
  obtain ⟨hKind, hCharged, hOthers⟩ := submit_spares hBystander hCall
  obtain ⟨before, hBefore⟩ := books_of_kind (hComplete.kind_token ht)
  obtain ⟨after, hAfter⟩ := books_of_kind (hKind ▸ hComplete.kind_token ht)
  simp only [balance, allowance, hBefore, hAfter, Option.getD_some] at hCharged hOthers
  refine ⟨before, after, hBefore, hAfter, fun d hFall => ?_, hOthers⟩
  rw [← hFall] at hCharged
  exact Nat.le_of_add_le_add_left (Nat.le_trans (Nat.le_of_eq (by
    rw [Nat.add_comm (after.allowance _ _), Nat.add_assoc])) hCharged)

/-- An account draws 40 of the 60 that another one allows it, of the 100 that it owns. -/
theorem spends_only_allowance_drawn : ∃ c out before after,
    WiredRun Standard.places c ∧ Standard.places.Complete c ∧
      c.submit (.account 2) Standard.stable (.token (.transferFrom (.account 1) (.account 2) 40)) =
        .ok out ∧
      c.books? Standard.stable = some before ∧ out.chain.books? Standard.stable = some after ∧
      after.balanceOf (.account 1) + 40 = before.balanceOf (.account 1) ∧
      after.allowance (.account 1) (.account 2) + 40 ≤
        before.allowance (.account 1) (.account 2) := by
  have hEnd : (Standard.places.follow {} (Standard.opening 0 { admin := .account 0 } ++
      [.call 0 Standard.stable (.stable (.mint (.account 1) 100)),
        .call 1 Standard.stable (.token (.approve (.account 2) 60))])).any (fun c =>
      Standard.places.completes c && (c.submit (.account 2) Standard.stable
        (.token (.transferFrom (.account 1) (.account 2) 40))).toOption.any fun out =>
          out.chain.balance Standard.stable (.account 1) + 40 =
            c.balance Standard.stable (.account 1)) = true := by decide +kernel
  obtain ⟨c, out, hRun, hComplete, hCall, hLoss⟩ := Wiring.exists_submit hEnd
  obtain ⟨before, after, hBefore, hAfter, hCharged, -⟩ :=
    spends_only_allowance (t := Standard.stable) hRun hComplete hCall
      (show (1 : Digest) ≠ 2 by decide) (.inl rfl)
  have hFall := of_decide_eq_true hLoss
  simp only [balance, hBefore, hAfter, Option.getD_some] at hFall
  exact ⟨c, out, before, after, hRun, hComplete, hCall, hBefore, hAfter, hFall, hCharged 40 hFall⟩

end WiredRun

end Treasury
