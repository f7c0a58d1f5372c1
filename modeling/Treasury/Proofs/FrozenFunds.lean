import Treasury.Proofs.ExitPrice

/-! Frozen funds. While the router of a treasury is paused, accounts can still trade with pools, and
admins can still change settings. None of it takes anything from the router or the custody contract,
and shares of the treasury are neither issued nor destroyed. -/
namespace Treasury

open Exec Chain

namespace Chain

/-- An owner keeps what it has of a token, and lets nobody take more of it than before. -/
structure Retains (c : Chain) (owner t : Address) (c' : Chain) : Prop where
  balance : c.balance t owner ≤ c'.balance t owner
  allowance : ∀ x, c'.allowance t owner x ≤ c.allowance t owner x

namespace Retains

variable {c c₁ c' : Chain} {o t b a giver taker owner spender : Address} {n : Amount}

theorem of_books (h : c'.books? t = c.books? t) : c.Retains o t c' := by
  constructor
  · simp only [Chain.balance, h, Nat.le_refl]
  · simp only [Chain.allowance, h, Nat.le_refl, implies_true]

theorem refl (c : Chain) : c.Retains o t c := of_books rfl

theorem trans (h : c.Retains o t c₁) (h' : c₁.Retains o t c') : c.Retains o t c' :=
  ⟨Nat.le_trans h.balance h'.balance, fun x => Nat.le_trans (h'.allowance x) (h.allowance x)⟩

theorem of_transfer (hMove : c.Moves b (.transfer giver taker n) c') (hGiver : giver ≠ o) :
    c.Retains o t c' := by
  refine ⟨?_, fun x => Nat.le_of_eq (hMove.allowance_transfer t o x)⟩
  have hBalance := hMove.balance_transfer t o
  rw [if_neg fun h => hGiver h.2.symm, Nat.add_zero] at hBalance
  exact hBalance ▸ Nat.le_add_right _ _

theorem of_approve (hMove : c.Moves b (.approve owner spender n) c') (hOwner : owner ≠ o) :
    c.Retains o t c' := by
  refine ⟨Nat.le_of_eq (hMove.balance_approve t o).symm, fun x => ?_⟩
  exact Nat.le_of_eq (by rw [hMove.allowance_approve, if_neg fun h => hOwner h.2.1.symm])

/-- Nothing can be taken from an owner that allows nobody anything. -/
theorem of_transferFrom (hMove : c.Moves b (.transferFrom spender owner taker n) c')
    (hNone : ∀ x, c.allowance t o x = 0) : c.Retains o t c' := by
  have hSpent := hMove.allowance_transferFrom t o
  refine ⟨?_, fun x => hSpent x ▸ Nat.le_add_right _ _⟩
  have hBalance := hMove.balance_transferFrom t o
  by_cases hCharged : t = b ∧ o = owner
  · have hAmount := hSpent spender
    rw [hNone, if_pos ⟨hCharged.1, hCharged.2, rfl⟩] at hAmount
    obtain rfl : n = 0 := (Nat.add_eq_zero_iff.1 hAmount).2
    rw [if_pos hCharged, Nat.add_zero] at hBalance
    exact hBalance ▸ Nat.le_add_right _ _
  · rw [if_neg hCharged, Nat.add_zero] at hBalance
    exact hBalance ▸ Nat.le_add_right _ _

theorem of_mint (hMint : c.PoolKeeps b (·.mint owner n) c') : c.Retains o t c' := by
  refine ⟨?_, fun x => Nat.le_of_eq (hMint.allowance_mint t o x)⟩
  rw [hMint.balance_mint]
  exact Nat.le_add_right _ _

/-- A contract is replaced. If it is the token, then its new books keep what the owner has. -/
theorem of_put {old new : Contract} (hOld : c.contract? a = some old)
    (h : a = t → ∃ l l', old.books? = some l ∧ new.books? = some l' ∧
      l.balanceOf o ≤ l'.balanceOf o ∧ ∀ x, l'.allowance o x ≤ l.allowance o x) :
    c.Retains o t (c.put a new) := by
  by_cases hAt : a = t
  · subst hAt
    obtain ⟨l, l', hl, hl', hBalance, hAllowance⟩ := h rfl
    have hBefore : c.books? a = some l := (books?_of_contract? hOld).trans hl
    have hAfter : (c.put a new).books? a = some l' := by rw [books?_put hOld, if_pos rfl, hl']
    constructor
    · simpa only [Chain.balance, hBefore, hAfter, Option.getD_some] using hBalance
    · simpa only [Chain.allowance, hBefore, hAfter, Option.getD_some] using hAllowance
  · exact .of_books (by rw [books?_put hOld, if_neg fun h => hAt h.symm])

end Retains

/-- An owner that has no part in what a user does: the user is another one, and has no custody
contract give away what the owner has. The owner allows nobody anything. -/
structure Aloof (c : Chain) (user owner t : Address) : Prop where
  other : owner ≠ user
  desk : c.Desk owner
  heedless : ¬c.Heeds user owner
  reserved : ∀ x, c.allowance t owner x = 0

namespace Aloof

variable {c c' : Chain} {user o t x : Address} {shares : Amount}
  {act : Token.Ledger → Result Token.Ledger}

theorem next (h : c.Aloof user o t) (hAlike : Alike c c') (hRetains : c.Retains o t c') :
    c'.Aloof user o t where
  other := h.other
  desk := by
    rw [Desk, hAlike.kind?]
    exact h.desk
  heedless hHeeds := by
    obtain ⟨q, hq, hRouter⟩ := hHeeds
    exact h.heedless ⟨q, hAlike.symm.custody hq, hRouter⟩
  reserved x := Nat.le_zero.1 (h.reserved x ▸ hRetains.allowance x)

theorem ne_of_kind (h : c.Aloof user o t) {k : Contract.Kind} (hx : c.kind? x = some k)
    (hk : k ≠ .router ∧ k ≠ .custody) : x ≠ o := by
  rintro rfl
  rcases h.desk with hRouter | hCustody
  · exact hk.1 (Option.some.inj (hx.symm.trans hRouter))
  · exact hk.2 (Option.some.inj (hx.symm.trans hCustody))

/-- A pool takes no shares that it is not allowed to take. -/
theorem retains_of_takes (h : c.Aloof user o t) (hTakes : c.Takes user x shares act)
    (hTake : c.PoolKeeps x act c') : c.Retains o t c' := by
  by_cases ht : t = x
  · subst ht
    obtain ⟨l, l', hl, hAct, hl'⟩ := hTake.spec
    have hNone : ∀ x, l.allowance o x = 0 := by
      intro x
      simpa only [Chain.allowance, hl, Option.getD_some] using h.reserved x
    obtain ⟨owner, hLess, hSpent, hFree⟩ : ∃ owner,
        (∀ a, l'.balanceOf a + (if a = owner then shares else 0) = l.balanceOf a) ∧
          (∀ x, l'.allowance o x ≤ l.allowance o x) ∧ (o = owner → shares = 0) := by
      cases hTakes with
      | @adapter owner =>
        obtain ⟨hLess, hSpent, -⟩ := Token.Ledger.takeShares_spec hAct
        refine ⟨owner, hLess, fun x => hSpent o x ▸ Nat.le_add_right _ _, fun hOwner => ?_⟩
        have hAmount := hSpent o t
        rw [hNone, if_pos ⟨hOwner, rfl⟩] at hAmount
        exact (Nat.add_eq_zero_iff.1 hAmount).2
      | @vault caller owner hCaller =>
        obtain ⟨hLess, hSpent, -⟩ := Token.Ledger.burnFrom_spec hAct
        refine ⟨owner, hLess, fun x => hSpent o x ▸ Nat.le_add_right _ _, fun hOwner => ?_⟩
        have hOther : caller ≠ owner := by
          rcases hCaller with rfl | hWrapped
          · exact fun hSame => h.other (hOwner.trans hSame.symm)
          · exact hOwner ▸ h.ne_of_kind hWrapped (by simp)
        have hAmount := hSpent o caller
        rw [hNone, if_pos ⟨hOwner, rfl, hOther⟩] at hAmount
        exact (Nat.add_eq_zero_iff.1 hAmount).2
    have hKept : l.balanceOf o ≤ l'.balanceOf o := by
      rw [← hLess o]
      split
      · next hOwner => exact Nat.le_of_eq (by rw [hFree hOwner, Nat.add_zero])
      · exact Nat.le_refl _
    constructor
    · simpa only [Chain.balance, hl, hl', Option.getD_some] using hKept
    · simpa only [Chain.allowance, hl, hl', Option.getD_some] using hSpent
  · exact .of_books (hTake.books_frame ht)

end Aloof

end Chain

/-- Whoever has no part in a deal loses nothing by it. -/
theorem Deal.retains {user o t : Address} {c c' : Chain} (h : Deal (Chain.Heeds user) user c c')
    (hAloof : c.Aloof user o t) : c.Retains o t c' := by
  induction h with
  | refl c => exact .refl c
  | trans hFirst _ ihFirst ihThen =>
    have hSoFar := ihFirst hAloof
    exact hSoFar.trans (ihThen (hAloof.next hFirst.alike hSoFar))
  | sent hGiver hMove =>
    apply Retains.of_transfer hMove
    rintro rfl
    exact hGiver.elim hAloof.other hAloof.heedless
  | allowed hMove => exact .of_approve hMove hAloof.other.symm
  | drawn hMove | collected _ _ hMove => exact .of_transferFrom hMove hAloof.reserved
  | @lent _ _ _ _ _ lender _ _ hLender hAllow _ hEnd ih =>
    have hNe : lender ≠ o := by
      rcases hLender with hHeeds | hWrapped
      · rintro rfl
        exact hAloof.heedless hHeeds
      · exact hAloof.ne_of_kind hWrapped (by simp)
    have hFirst : Retains _ o t _ := .of_approve hAllow hNe
    have hThen := ih (hAloof.next hAllow.alike hFirst)
    exact (hFirst.trans hThen).trans (.of_approve hEnd hNe)
  | joined _ _ hMove hMint =>
    exact (Retains.of_transferFrom hMove hAloof.reserved).trans (.of_mint hMint)
  | left _ hTakes hTake hMove =>
    obtain ⟨k, hk, hPool⟩ := hTake.kind
    have hNe := hAloof.ne_of_kind hPool (by constructor <;> rintro rfl <;> simp at hk)
    exact (hAloof.retains_of_takes hTakes hTake).trans (.of_transfer hMove hNe)

/-- Settings have no part in books. -/
theorem Chain.Arranged.same {user : Address} {c c' : Chain} (h : c.Arranged user c') (b : Address) :
    c'.kind? b = c.kind? b ∧ c'.books? b = c.books? b := by
  cases h with
  | settled h =>
    induction h with
    | refl => exact ⟨rfl, rfl⟩
    | step _ hThen ih => exact ⟨(hThen.same b).1.trans ih.1, (hThen.same b).2.trans ih.2⟩
  | governed h => exact h.same b
  | rewired h => exact h.same b

/-- A token in which value is held: a stable token, or the shares of a pool. -/
def Chain.Asset (c : Chain) (t : Address) : Prop :=
  ∃ k ∈ [Contract.Kind.stable, .fixedRate, .synthetic, .yieldVault], c.kind? t = some k

namespace Wiring

/-- A treasury at a standstill, and a user that is no contract. Nobody may take anything from the
router or the custody contract. -/
structure Halted (w : Wiring) (c : Chain) (user : Address) : Prop where
  kept : w.Kept c
  paused : c.Paused
  custody : c.kind? w.custody = some .custody
  router : c.kind? w.router = some .router
  share : c.kind? w.share = some .share
  account : c.kind? user = none
  reserved : ∀ o, o = w.custody ∨ o = w.router → ∀ t x, c.kind? t ≠ some .ledger →
    c.allowance t o x = 0

/-- Nothing is taken from the router or the custody contract, and shares are neither issued nor
destroyed. -/
structure Frozen (w : Wiring) (c c' : Chain) : Prop where
  retained : ∀ o, o = w.custody ∨ o = w.router → ∀ t, c.Asset t → c.Retains o t c'
  supply : c'.supply w.share = c.supply w.share

namespace Frozen

variable {w : Wiring} {c c₁ c' : Chain} {a user : Address} {old new : Contract}

theorem of_books (h : ∀ t, c.kind? t ≠ none → c'.books? t = c.books? t)
    (hShare : c.kind? w.share ≠ none) : w.Frozen c c' := by
  constructor
  · intro o _ t hAsset
    obtain ⟨k, -, hk⟩ := hAsset
    exact .of_books (h t (by simp [hk]))
  · rw [Chain.supply, Chain.supply, h _ hShare]

theorem refl (w : Wiring) (c : Chain) : w.Frozen c c := ⟨fun _ _ _ _ => .refl c, rfl⟩

theorem trans (h : w.Frozen c c₁) (h' : w.Frozen c₁ c')
    (hKind : ∀ a k, c.kind? a = some k → c₁.kind? a = some k) : w.Frozen c c' := by
  constructor
  · intro o ho t hAsset
    have hAsset' : c₁.Asset t := by
      obtain ⟨k, hk, ht⟩ := hAsset
      exact ⟨k, hk, hKind t k ht⟩
    exact (h.retained o ho t hAsset).trans (h'.retained o ho t hAsset')
  · exact h'.supply.trans h.supply

/-- A contract other than the share token is replaced. If value is held in it, then its new books
keep what the treasury has. -/
theorem of_put (hOld : c.contract? a = some old) (hShare : a ≠ w.share)
    (h : c.Asset a → ∀ o, o = w.custody ∨ o = w.router → ∃ l l', old.books? = some l ∧
      new.books? = some l' ∧ l.balanceOf o ≤ l'.balanceOf o ∧
      ∀ x, l'.allowance o x ≤ l.allowance o x) : w.Frozen c (c.put a new) := by
  constructor
  · intro o ho t hAsset
    apply Retains.of_put hOld
    rintro rfl
    exact h hAsset o ho
  · rw [Chain.supply, books?_put hOld, if_neg hShare.symm, Chain.supply]

end Frozen

namespace Halted

variable {w : Wiring} {c c' : Chain} {user o t : Address}

theorem user_ne (h : w.Halted c user) {k : Contract.Kind} (ho : c.kind? o = some k) : o ≠ user := by
  rintro rfl
  rw [h.account] at ho
  cases ho

theorem aloof (h : w.Halted c user) (ho : o = w.custody ∨ o = w.router) (hAsset : c.Asset t) :
    c.Aloof user o t := by
  have hDesk : c.Desk o := by
    rcases ho with rfl | rfl
    · exact .inr h.custody
    · exact .inl h.router
  have hOther : o ≠ user := hDesk.elim h.user_ne h.user_ne
  refine ⟨hOther, hDesk, ?_, fun x => h.reserved o ho t x ?_⟩
  · rintro ⟨q, hq, hRouter⟩
    rcases ho with rfl | rfl
    · obtain ⟨q', hSame, hNone | hSome⟩ := h.kept.custody hq
      · cases hSame
        rw [hNone] at hRouter
        cases hRouter
      · cases hSame
        exact h.user_ne h.router (Option.some.inj (hSome.symm.trans hRouter))
    · cases (kind?_of_contract? hq).symm.trans h.router
  · obtain ⟨k, hk, ht⟩ := hAsset
    rw [ht]
    rintro ⟨⟩
    simp at hk

/-- No user is the router of the treasury's share token. -/
theorem ne_share (h : w.Halted c user) {a : Address} {s : ShareToken}
    (hs : c.contract? a = some (.share s)) (hRouter : s.router = some user) : a ≠ w.share := by
  rintro rfl
  obtain ⟨s', hSame, hNone | hSome⟩ := h.kept.share hs
  · cases hSame
    rw [hNone] at hRouter
    cases hRouter
  · cases hSame
    exact h.user_ne h.router (Option.some.inj (hSome.symm.trans hRouter))

theorem ne_share_of_kind (h : w.Halted c user) {a : Address} {x : Contract}
    (hx : c.contract? a = some x) (hKind : x.kind ≠ .share) : a ≠ w.share := by
  rintro rfl
  exact hKind (Option.some.inj ((kind?_of_contract? hx).symm.trans h.share))

theorem frozen_of_deed (h : w.Halted c user) (hDeed : Deed user c c') : w.Frozen c c' := by
  cases hDeed with
  | minted hOld hMint =>
    obtain ⟨l', _, hl', rfl⟩ := Token.Stable.mint_spec hMint
    obtain ⟨hMore, hSame, -⟩ := Token.Ledger.mint_spec hl'
    refine .of_put hOld (h.ne_share_of_kind hOld (by simp [Contract.kind])) fun _ o _ => ?_
    refine ⟨_, l', rfl, rfl, ?_, fun x => Token.Ledger.allowance_of_same hSame⟩
    rw [hMore]
    exact Nat.le_add_right _ _
  | burned hOld hBurn =>
    obtain ⟨l', _, hl', rfl⟩ := Token.Stable.burn_spec hBurn
    obtain ⟨hLess, hSame, -⟩ := Token.Ledger.burn_spec hl'
    refine .of_put hOld (h.ne_share_of_kind hOld (by simp [Contract.kind])) fun hAsset o ho => ?_
    refine ⟨_, l', rfl, rfl, ?_, fun x => Token.Ledger.allowance_of_same hSame⟩
    have hKept := hLess o
    rw [if_neg (h.aloof ho hAsset).other] at hKept
    exact Nat.le_of_eq hKept.symm
  | @standalone _ old _ hOld hKind =>
    refine .of_put hOld (h.ne_share_of_kind hOld (by rintro hShare; simp [hShare] at hKind)) ?_
    rintro ⟨k, hk, hAsset⟩
    obtain rfl := Option.some.inj ((kind?_of_contract? hOld).symm.trans hAsset)
    cases old <;> simp [Contract.kind] at hKind hk
  | @constructed _ old new hOld hBlank hBuilds =>
    refine .of_put hOld ?_ fun hAsset o _ => ?_
    · rintro rfl
      exact h.kept.constructed _ (by simp [places]) hBlank
    · obtain ⟨k, hk, hAsset⟩ := hAsset
      obtain rfl := Option.some.inj ((kind?_of_contract? hOld).symm.trans hAsset)
      obtain ⟨l, hl⟩ : ∃ l, old.books? = some l := by
        cases old <;> simp [Contract.kind, Contract.books?] at hk ⊢
      obtain ⟨l', hl', hBalances, hAllowances⟩ := hBuilds.keeps.2 l hl
      refine ⟨l, l', hl, hl', ?_, fun x => Token.Ledger.allowance_of_same hAllowances⟩
      simp only [Token.Ledger.balanceOf, hBalances, Nat.le_refl]

/-- Whatever a call does at a standstill, the funds are frozen. -/
theorem frozen (h : w.Halted c user) (hPerforms : c.Performs user c') : w.Frozen c c' := by
  have hNoShares : ∀ {a : Address} {s : ShareToken} {new : Contract},
      c.contract? a = some (.share s) → s.router = some user → w.Frozen c (c.put a new) := by
    intro a s new hOld hRouter
    refine .of_put hOld (h.ne_share hOld hRouter) ?_
    rintro ⟨k, hk, hAsset⟩
    obtain rfl := Option.some.inj ((kind?_of_contract? hOld).symm.trans hAsset)
    simp [Contract.kind] at hk
  cases hPerforms with
  | dealt hDeal =>
    exact ⟨fun o ho t hAsset => hDeal.retains (h.aloof ho hAsset), hDeal.supply h.share⟩
  | flowed hRunning => exact absurd h.paused hRunning
  | issued hOld hRouter => exact hNoShares hOld hRouter
  | retired hOld hRouter => exact hNoShares hOld hRouter
  | deed hDeed => exact h.frozen_of_deed hDeed
  | arranged hArranged =>
    exact .of_books (fun t _ => (hArranged.same t).2) (by simp [h.share])

end Halted

/-- What becomes of a treasury while its router stays paused. Accounts do what they like, and the
wiring is not changed. -/
inductive StaysPaused (w : Wiring) (c : Chain) : Chain → Prop where
  | refl : StaysPaused w c c
  | step {c₁ c' : Chain} {action : Action} (hFirst : w.StaysPaused c c₁)
      (hAction : action.run c₁ = .ok c') (hKept : w.Kept c')
      (hPaused : (c'.routing w.router).paused = true) : StaysPaused w c c'

/-- There is no router but the treasury's. -/
theorem Kept.paused {w : Wiring} {c : Chain} (h : w.Kept c)
    (hPaused : (c.routing w.router).paused = true) : c.Paused := by
  intro a s hs
  obtain ⟨rfl, -⟩ := h.router hs
  rwa [routing_of hs] at hPaused

/-- Whatever accounts do at a standstill, the funds are frozen. -/
theorem Halted.frozen_of_leads {w : Wiring} {c c' : Chain} {user : Address}
    (h : w.Halted c user) (hLeads : c.Leads user c') : w.Frozen c c' := by
  have hShare : c.kind? w.share ≠ none := by simp [h.share]
  rcases hLeads.performs_or_gains with hPerforms | ⟨a, x, hGains⟩ | rfl
  · exact h.frozen hPerforms
  · exact .of_books (fun t ht => hGains.books? (hGains.ne_of_stands ht)) hShare
  · exact .of_books (fun _ _ => rfl) hShare

end Wiring

namespace WiredRun

variable {w : Wiring} {c c' : Chain}

/-- Between calls of accounts, a paused treasury is at a standstill. -/
theorem halted (hRun : WiredRun w c) (hPaused : (c.routing w.router).paused = true)
    (hCustody : c.kind? w.custody = some .custody) (hRouter : c.kind? w.router = some .router)
    (hShare : c.kind? w.share = some .share) (user : Digest) : w.Halted c (.account user) where
  kept := hRun.kept
  paused := hRun.kept.paused hPaused
  custody := hCustody
  router := hRouter
  share := hShare
  account := hRun.account_free user
  reserved o ho t x hKind := by
    obtain ⟨d, rfl⟩ : ∃ d, o = .contract d := by
      apply hRun.address_of_contract
      rcases ho with rfl | rfl
      · simp [hCustody]
      · simp [hRouter]
    exact hRun.allowance_eq_zero hKind

/-- From when the router is paused, and for as long as it is, the shares of the treasury stay as
many as they are, the custody contract loses shares of no pool, and the router loses no stable. -/
theorem paused_funds_frozen (hRun : WiredRun w c) (hComplete : w.Complete c)
    (hPaused : (c.routing w.router).paused = true) (hLater : w.StaysPaused c c') :
    c'.supply w.share = c.supply w.share ∧
      (∀ p, c.kind? p ∈ [some .fixedRate, some .synthetic, some .yieldVault] →
        c.balance p w.custody ≤ c'.balance p w.custody) ∧
      c.balance w.stable w.router ≤ c'.balance w.stable w.router := by
  obtain ⟨t, hStable⟩ := hComplete.stable
  obtain ⟨q, hCustody, -⟩ := hComplete.custody
  obtain ⟨s, hRouter, -⟩ := hComplete.router
  obtain ⟨x, hShare, -⟩ := hComplete.share
  have hLoop : WiredRun w c' ∧ (c'.routing w.router).paused = true ∧
      (∀ a k, c.kind? a = some k → c'.kind? a = some k) ∧ w.Frozen c c' := by
    induction hLater with
    | refl => exact ⟨hRun, hPaused, fun _ _ hk => hk, .refl w c⟩
    | step _ hAction hKept hStill ih =>
      obtain ⟨hRun₁, hPaused₁, hKinds, hFrozen⟩ := ih
      obtain ⟨d, hLeads⟩ := Action.leads hAction
      have hHalted := hRun₁.halted hPaused₁ (hKinds _ _ (kind?_of_contract? hCustody))
        (hKinds _ _ (kind?_of_contract? hRouter)) (hKinds _ _ (kind?_of_contract? hShare)) d
      refine ⟨hRun₁.step hAction hKept, hStill, fun a k hk => ?_, ?_⟩
      · exact hLeads.advances.kind? (hKinds a k hk)
      · exact hFrozen.trans (hHalted.frozen_of_leads hLeads) hKinds
  obtain ⟨-, -, -, hFrozen⟩ := hLoop
  refine ⟨hFrozen.supply, fun p hPool => ?_, ?_⟩
  · refine (hFrozen.retained _ (.inl rfl) p ?_).balance
    simp only [List.mem_cons, List.not_mem_nil, or_false] at hPool
    rcases hPool with hk | hk | hk <;> exact ⟨_, by simp, hk⟩
  · have hAsset : c.Asset w.stable := ⟨_, by simp [Contract.kind], kind?_of_contract? hStable⟩
    exact (hFrozen.retained _ (.inr rfl) _ hAsset).balance

/-- The router is paused after a deposit of 100, with 20 more of its own. An account deposits 10
into the pool behind the router's back, and the custody contract gets the shares. -/
theorem paused_funds_frozen_joined : ∃ c c', WiredRun Standard.places c ∧
    Standard.places.Complete c ∧ (c.routing Standard.router).paused = true ∧
      Standard.places.StaysPaused c c' ∧ c'.supply Standard.share = c.supply Standard.share ∧
      c.balance Standard.pool Standard.custody ≤ c'.balance Standard.pool Standard.custody ∧
      c.balance Standard.stable Standard.router ≤ c'.balance Standard.stable Standard.router ∧
      c'.balance Standard.pool Standard.custody = 110 := by
  have hEnd : (Standard.places.follow {} (Standard.pooled 0 1 { admin := .account 0 } rateScale
      100 ++
      [.call 1 Standard.share (.share (.deposit 100 (.account 1))),
        .call 0 Standard.stable (.stable (.mint Standard.router 20)),
        .call 0 Standard.router (.router .pause),
        .call 0 Standard.stable (.stable (.mint (.account 2) 10)),
        .call 2 Standard.stable (.token (.approve Standard.pool 10))])).any (fun c =>
      Standard.places.completes c && (c.submit (.account 2) Standard.pool
        (.strategy (.deposit 10))).toOption.any fun out =>
          (c.routing Standard.router).paused && (Standard.places.keeps out.chain &&
            ((out.chain.routing Standard.router).paused &&
              (decide (c.kind? Standard.pool = some .fixedRate) &&
                out.chain.balance Standard.pool Standard.custody == 110)))) = true := by
    decide +kernel
  obtain ⟨c, out, hRun, hComplete, hCall, hHolds⟩ := Wiring.exists_submit hEnd
  simp only [Bool.and_eq_true, decide_eq_true_eq, beq_iff_eq] at hHolds
  obtain ⟨hPaused, hKeeps, hStill, hPool, hMore⟩ := hHolds
  have hAction : (Action.call 2 Standard.pool (.strategy (.deposit 10))).run c = .ok out.chain :=
    Result.bind_eq_ok.2 ⟨out, hCall, rfl⟩
  have hLater : Standard.places.StaysPaused c out.chain :=
    .step .refl hAction (Wiring.kept_of_keeps hKeeps) hStill
  obtain ⟨hSupply, hPools, hIdle⟩ := paused_funds_frozen hRun hComplete hPaused hLater
  exact ⟨c, out.chain, hRun, hComplete, hPaused, hLater, hSupply,
    hPools Standard.pool (by simp [hPool]), hIdle, hMore⟩

end WiredRun

end Treasury
