import Treasury.Proofs.Allowances
import Treasury.Proofs.LedgerSums

/-! What becomes of a pool that issues its own shares, and of what it holds. Others can give to it
and trade its shares, but nobody else takes from it or changes the number of its shares. So whatever
value flows, the pool goes through deposits and withdrawals of its own, and between these it keeps
its shares and loses nothing. -/
namespace Treasury

open Exec Chain

namespace Chain

/-- A pool at `x` that issues its own shares, and deals in the token at `t`, which is a stable token
or does not stand yet. It lets nobody take what it holds. -/
structure Holds (c : Chain) (x t : Address) : Prop where
  pool : ∃ k ∈ [Contract.Kind.fixedRate, .synthetic, .yieldVault], c.kind? x = some k
  token : c.kind? t = none ∨ c.kind? t = some .stable
  reserved : ∀ spender, c.allowance t x spender = 0

/-- The pool at `x` keeps the number of its shares, loses nothing of what it holds of the token at
`t`, and goes on to let nobody take any of that. -/
structure Undiminished (x t : Address) (c c' : Chain) : Prop where
  supply : c'.supply x = c.supply x
  balance : c.balance t x ≤ c'.balance t x
  reserved : (∀ spender, c.allowance t x spender = 0) → ∀ spender, c'.allowance t x spender = 0

/-- The pool at `x` goes through deposits, if there may be any, and withdrawals, if there may be
any. In between its settings stay and it loses nothing. -/
inductive Turns (x t : Address) (joins leaves : Prop) : Chain → Chain → Prop where
  | kept {c c' : Chain} (h : Undiminished x t c c')
      (hSettings : (c'.contract? x).map Contract.bare = (c.contract? x).map Contract.bare)
      (hToken : c'.kind? t = c.kind? t) : Turns x t joins leaves c c'
  | trans {c c₁ c' : Chain} (hFirst : Turns x t joins leaves c c₁)
      (hThen : Turns x t joins leaves c₁ c') : Turns x t joins leaves c c'
  | joined {c c₁ c' : Chain} {b owner holder : Address} {n shares : Amount} (hMay : joins)
      (hPrice : c.Issues x b n shares) (hMove : c.Moves b (.transferFrom x owner x n) c₁)
      (hMint : c₁.PoolKeeps x (·.mint holder shares) c') : Turns x t joins leaves c c'
  | left {c c₁ c' : Chain} {user b receiver : Address} {shares n : Amount}
      {act : Token.Ledger → Result Token.Ledger} (hMay : leaves) (hPrice : c.Pays x b shares n)
      (hTakes : c.Takes user x shares act) (hTake : c.PoolKeeps x act c₁)
      (hMove : c₁.Moves b (.transfer x receiver n) c') : Turns x t joins leaves c c'

variable {c c₁ c' : Chain} {x t a b user : Address} {m : Token.Move} {joins leaves : Prop}

namespace Holds

theorem ne_of_kind (h : c.Holds x t) {k : Contract.Kind} (ha : c.kind? a = some k)
    (hKind : k ∉ [Contract.Kind.fixedRate, .synthetic, .yieldVault]) : a ≠ x := by
  rintro rfl
  obtain ⟨k', hPool, hk'⟩ := h.pool
  obtain rfl := Option.some.inj (ha.symm.trans hk')
  exact hKind hPool

theorem token_ne_of_kind (h : c.Holds x t) {k : Contract.Kind} (ha : c.kind? a = some k)
    (hKind : k ≠ .stable) : t ≠ a := by
  rintro rfl
  rcases h.token with hNone | hStable
  · simp [ha] at hNone
  · exact hKind (Option.some.inj (ha.symm.trans hStable))

/-- The token stands apart from the pool. -/
theorem token_ne (h : c.Holds x t) : t ≠ x := by
  obtain ⟨k, hPool, hk⟩ := h.pool
  refine h.token_ne_of_kind hk ?_
  rintro rfl
  simp at hPool

/-- Those who give away or lend what they have are not the pool. -/
theorem ne_of_lender (h : c.Holds x t) (ha : c.Desk a ∨ c.kind? a = some .wrapped) : a ≠ x := by
  rcases ha with (hRouter | hCustody) | hWrapped
  · exact h.ne_of_kind hRouter (by simp)
  · exact h.ne_of_kind hCustody (by simp)
  · exact h.ne_of_kind hWrapped (by simp)

end Holds

namespace Undiminished

theorem refl (c : Chain) : Undiminished x t c c := ⟨rfl, Nat.le_refl _, id⟩

theorem trans (hFirst : Undiminished x t c c₁) (hThen : Undiminished x t c₁ c') :
    Undiminished x t c c' :=
  ⟨hThen.supply.trans hFirst.supply, Nat.le_trans hFirst.balance hThen.balance,
    fun h => hThen.reserved (hFirst.reserved h)⟩

theorem of_books (hPool : c'.books? x = c.books? x) (hToken : c'.books? t = c.books? t) :
    Undiminished x t c c' := by
  refine ⟨?_, ?_, fun h spender => ?_⟩
  · rw [Chain.supply, hPool, Chain.supply]
  · rw [Chain.balance, Chain.balance, hToken]
  · rw [allowance, hToken]
    exact h spender

end Undiminished

/-- A token is moved by others than the pool. -/
theorem Moves.undiminished (hMove : c.Moves b m c')
    (hReserved : ∀ spender, c.allowance t x spender = 0)
    (hGives : ∀ giver taker n, m = .transfer giver taker n → giver ≠ x)
    (hLends : ∀ owner spender n, m = .approve owner spender n → owner ≠ x) :
    Undiminished x t c c' := by
  refine ⟨hMove.supply x, ?_, fun _ spender => ?_⟩
  · cases m with
    | transfer giver taker n =>
      have hBalance := hMove.balance_transfer t x
      rw [if_neg fun hAt => hGives giver taker n rfl hAt.2.symm] at hBalance
      omega
    | approve owner spender n => exact Nat.le_of_eq (hMove.balance_approve t x).symm
    | transferFrom spender owner taker n =>
      -- Nothing can be taken from the pool, which has allowed nothing.
      have hBalance := hMove.balance_transferFrom t x
      have hSpent := hMove.allowance_transferFrom t x spender
      rw [hReserved spender] at hSpent
      by_cases hOwner : t = b ∧ x = owner
      · rw [if_pos ⟨hOwner.1, hOwner.2, rfl⟩] at hSpent
        rw [if_pos hOwner] at hBalance
        omega
      · rw [if_neg hOwner] at hBalance
        omega
  · have hLess : c'.allowance t x spender ≤ c.allowance t x spender := hMove.allowance_le hLends
    rw [hReserved spender] at hLess
    exact Nat.le_zero.1 hLess

/-- Another pool changes its books. -/
theorem PoolKeeps.undiminished {act : Token.Ledger → Result Token.Ledger} (h : c.Holds x t)
    (hKeep : c.PoolKeeps a act c') (hNe : x ≠ a) : Undiminished x t c c' := by
  obtain ⟨k, hKind, hk⟩ := hKeep.kind
  refine .of_books (hKeep.books_frame hNe) (hKeep.books_frame (h.token_ne_of_kind hk ?_))
  rintro rfl
  simp at hKind

/-- What is neither the pool nor its token is replaced. -/
theorem undiminished_put {old : Contract} (h : c.Holds x t) (hOld : c.contract? a = some old)
    (new : Contract) (hNe : a ≠ x) (hKind : old.kind ≠ .stable) :
    Undiminished x t c (c.put a new) := by
  have hNe' := h.token_ne_of_kind (kind?_of_contract? hOld) hKind
  exact .of_books (by rw [books?_put hOld, if_neg hNe.symm]) (by rw [books?_put hOld, if_neg hNe'])

/-- What is no pool and no token that pools deal in is replaced. -/
theorem undiminished_put_other {old : Contract} (h : c.Holds x t) (hOld : c.contract? a = some old)
    (new : Contract) (hKind : old.kind ∈ [.share, .registry, .roles, .ledger]) :
    Undiminished x t c (c.put a new) := by
  simp only [List.mem_cons, List.not_mem_nil, or_false] at hKind
  refine undiminished_put h hOld new (h.ne_of_kind (kind?_of_contract? hOld) ?_) ?_ <;>
    rcases hKind with hKind | hKind | hKind | hKind <;> simp [hKind]

/-- A stable token changes its books, and takes nothing from the pool. -/
theorem undiminished_put_stable {old new : Token.Stable} (h : c.Holds x t)
    (hOld : c.contract? a = some (.stable old))
    (hBalance : old.ledger.balanceOf x ≤ new.ledger.balanceOf x)
    (hAllow : new.ledger.allowances = old.ledger.allowances) :
    Undiminished x t c (c.put a (.stable new)) := by
  have hNe := h.ne_of_kind (kind?_of_contract? hOld) (by simp [Contract.kind])
  refine ⟨?_, ?_, fun hReserved spender => ?_⟩
  · rw [supply, books?_put hOld, if_neg hNe.symm, supply]
  · by_cases ht : t = a
    · subst ht
      rw [balance, balance, books?_put hOld, if_pos rfl, books?_of_contract? hOld]
      exact hBalance
    · rw [balance, balance, books?_put hOld, if_neg ht]
  · have hLess : (c.put a (.stable new)).allowance t x spender ≤ c.allowance t x spender :=
      allowance_put_le hOld fun _ _ hNew => ⟨_, rfl, by
        cases hNew
        exact Token.Ledger.allowance_of_same hAllow⟩
    rw [hReserved spender] at hLess
    exact Nat.le_zero.1 hLess

theorem PoolKeeps.supply_frame {act : Token.Ledger → Result Token.Ledger}
    (h : c.PoolKeeps a act c') (hNe : b ≠ a) : c'.supply b = c.supply b := by
  rw [supply, h.books_frame hNe, supply]

theorem PoolKeeps.supply_mint {account : Address} {n : Nat}
    (h : c.PoolKeeps x (·.mint account n) c') : c'.supply x = c.supply x + n := by
  obtain ⟨l, l', hl, hMint, hl'⟩ := h.spec
  simp only [supply, hl, hl', Option.getD_some, (Token.Ledger.mint_spec hMint).2.2]

theorem PoolKeeps.supply_takes {act : Token.Ledger → Result Token.Ledger} {n : Nat}
    (h : c.PoolKeeps x act c') (hTakes : c₁.Takes user x n act) : c'.supply x + n = c.supply x := by
  obtain ⟨l, l', hl, hAct, hl'⟩ := h.spec
  simp only [supply, hl, hl', Option.getD_some]
  cases hTakes with
  | adapter => exact (Token.Ledger.takeShares_spec hAct).2.2
  | vault => exact (Token.Ledger.burnFrom_spec hAct).2.2

/-- What a pool issues shares for is added to what it holds. -/
theorem joined_spec {owner holder : Address} {n shares : Amount} (h : c.Holds x t)
    (hMove : c.Moves t (.transferFrom x owner x n) c₁)
    (hMint : c₁.PoolKeeps x (·.mint holder shares) c') :
    c'.supply x = c.supply x + shares ∧ c'.balance t x = c.balance t x + n := by
  have hBooks : c'.books? t = c₁.books? t := hMint.books_frame h.token_ne
  have hBalance := hMove.balance_transferFrom t x
  have hSpent := hMove.allowance_transferFrom t x x
  rw [h.reserved x] at hSpent
  refine ⟨by rw [hMint.supply_mint, hMove.supply], ?_⟩
  rw [balance, hBooks, ← balance]
  by_cases hOwner : x = owner
  · simp only [hOwner, and_self, if_true] at hSpent hBalance
    subst hOwner
    omega
  · simp only [hOwner, and_self, and_false, if_false, if_true] at hBalance
    omega

/-- No more than what a pool pays for shares is taken from what it holds. -/
theorem left_spec {receiver : Address} {shares n : Amount}
    {act : Token.Ledger → Result Token.Ledger} (h : c.Holds x t)
    (hTakes : c.Takes user x shares act) (hTake : c.PoolKeeps x act c₁)
    (hMove : c₁.Moves t (.transfer x receiver n) c') :
    c'.supply x + shares = c.supply x ∧ c.balance t x ≤ c'.balance t x + n := by
  have hBooks : c₁.books? t = c.books? t := hTake.books_frame h.token_ne
  have hBefore : c₁.balance t x = c.balance t x := by rw [balance, hBooks, balance]
  have hBalance := hMove.balance_transfer t x
  simp only [and_self, if_true, true_and] at hBalance
  refine ⟨by rw [hMove.supply, hTake.supply_takes hTakes], ?_⟩
  omega

namespace Turns

theorem of_alike (h : Undiminished x t c c') (hAlike : Alike c c') : Turns x t joins leaves c c' :=
  .kept h (hAlike.2 x) (hAlike.kind? t)

theorem refl (c : Chain) : Turns x t joins leaves c c := .of_alike (.refl c) (.refl c)

/-- A pool keeps its settings, and the token its kind. -/
theorem settings (h : Turns x t joins leaves c c') :
    (c'.contract? x).map Contract.bare = (c.contract? x).map Contract.bare ∧
      c'.kind? t = c.kind? t := by
  induction h with
  | kept _ hSettings hToken => exact ⟨hSettings, hToken⟩
  | trans _ _ ihFirst ihThen => exact ⟨ihThen.1.trans ihFirst.1, ihThen.2.trans ihFirst.2⟩
  | joined _ _ hMove hMint =>
    have hAlike := hMove.alike.trans hMint.alike
    exact ⟨hAlike.2 x, hAlike.kind? t⟩
  | left _ _ _ hTake hMove =>
    have hAlike := hTake.alike.trans hMove.alike
    exact ⟨hAlike.2 x, hAlike.kind? t⟩

theorem kind? (h : Turns x t joins leaves c c') : c'.kind? x = c.kind? x := by
  have hMap := congrArg (Option.map Contract.kind) h.settings.1
  rw [Chain.kind?, Chain.kind?]
  simpa only [Option.map_map, Function.comp_def, Contract.kind_bare] using hMap

/-- A pool that holds something goes on to hold it. -/
theorem holds (h : Turns x t joins leaves c c') (hHolds : c.Holds x t) : c'.Holds x t := by
  refine ⟨h.kind? ▸ hHolds.pool, h.settings.2 ▸ hHolds.token, ?_⟩
  have hReserved := hHolds.reserved
  clear hHolds
  induction h with
  | kept hKept => exact hKept.reserved hReserved
  | trans _ _ ihFirst ihThen => exact ihThen (ihFirst hReserved)
  | joined _ _ hMove hMint =>
    intro spender
    have hSpent := hMove.allowance_transferFrom t x spender
    rw [hReserved spender] at hSpent
    rw [hMint.allowance_mint]
    exact (Nat.add_eq_zero_iff.1 hSpent).1
  | @left c c₁ c' _ _ _ _ _ _ _ _ hTakes hTake hMove =>
    intro spender
    have hLess : c₁.allowance t x spender ≤ c.allowance t x spender := hTakes.allowance_le hTake
    rw [hReserved spender] at hLess
    rw [hMove.allowance_transfer]
    exact Nat.le_zero.1 hLess

/-- One thing after the other. -/
theorem andThen (hFirst : Turns x t joins leaves c c₁) (h : c.Holds x t)
    (hThen : c₁.Holds x t → Turns x t joins leaves c₁ c') : Turns x t joins leaves c c' :=
  hFirst.trans (hThen (hFirst.holds h))

/-- A token is moved by others than the pool. -/
theorem moved (h : c.Holds x t) (hMove : c.Moves b m c')
    (hGives : ∀ giver taker n, m = .transfer giver taker n → giver ≠ x)
    (hLends : ∀ owner spender n, m = .approve owner spender n → owner ≠ x) :
    Turns x t joins leaves c c' :=
  .of_alike (hMove.undiminished h.reserved hGives hLends) hMove.alike

/-- Somebody else lets a spender take tokens, and ends that again. -/
theorem lent {c₂ : Chain} {lender spender : Address} {n : Amount} (h : c.Holds x t)
    (hNe : lender ≠ x) (hAllow : c.Moves b (.approve lender spender n) c₁)
    (hInner : c₁.Holds x t → Turns x t joins leaves c₁ c₂)
    (hEnd : c₂.Moves b (.approve lender spender 0) c') : Turns x t joins leaves c c' := by
  have hFirst : Turns x t joins leaves c c₁ :=
    moved h hAllow (by simp) (by rintro _ _ _ ⟨⟩; exact hNe)
  refine (hFirst.andThen h hInner).andThen h fun hHolds => ?_
  exact moved hHolds hEnd (by simp) (by rintro _ _ _ ⟨⟩; exact hNe)

/-- What is neither the pool nor its token is replaced by a contract of the same kind. -/
theorem put {old new : Contract} (h : c.Holds x t) (hOld : c.contract? a = some old)
    (hSame : new.kind = old.kind)
    (hKind : old.kind ∉ [Contract.Kind.fixedRate, .synthetic, .yieldVault, .stable]) :
    Turns x t joins leaves c (c.put a new) := by
  simp only [List.mem_cons, List.not_mem_nil, or_false, not_or] at hKind
  obtain ⟨hFixed, hSynthetic, hVault, hStable⟩ := hKind
  have hNe := h.ne_of_kind (kind?_of_contract? hOld) (by simp [hFixed, hSynthetic, hVault])
  refine .kept (undiminished_put h hOld new hNe hStable) ?_ (kind?_put hOld hSame t)
  rw [contract?_put_of_ne _ _ hNe.symm]

/-- Any pool collects an amount and issues shares for it. -/
theorem of_joined {owner holder : Address} {n shares : Amount} (h : c.Holds x t) (hMay : joins)
    (hPrice : c.Issues a b n shares) (hMove : c.Moves b (.transferFrom a owner a n) c₁)
    (hMint : c₁.PoolKeeps a (·.mint holder shares) c') : Turns x t joins leaves c c' := by
  by_cases ha : x = a
  · subst ha
    exact .joined hMay hPrice hMove hMint
  · refine (moved h hMove (by simp) (by simp)).andThen h fun hHolds => ?_
    exact .of_alike (hMint.undiminished hHolds ha) hMint.alike

/-- Any pool takes shares back and pays for them. -/
theorem of_left {receiver : Address} {shares n : Amount} {act : Token.Ledger → Result Token.Ledger}
    (h : c.Holds x t) (hMay : leaves) (hPrice : c.Pays a b shares n)
    (hTakes : c.Takes user a shares act) (hTake : c.PoolKeeps a act c₁)
    (hMove : c₁.Moves b (.transfer a receiver n) c') : Turns x t joins leaves c c' := by
  by_cases ha : x = a
  · subst ha
    exact .left hMay hPrice hTakes hTake hMove
  · have hFirst : Turns x t joins leaves c c₁ := .of_alike (hTake.undiminished h ha) hTake.alike
    refine hFirst.andThen h fun hHolds => ?_
    exact moved hHolds hMove (by rintro _ _ _ ⟨⟩; exact Ne.symm ha) (by simp)

end Turns

end Chain

section Steps

variable {user x t : Address} {c c' : Chain}

theorem Trade.turns (hTrade : Trade user c c') (hUser : user ≠ x) (h : c.Holds x t) :
    Turns x t True True c c' := by
  induction hTrade with
  | refl => exact .refl _
  | trans _ _ ihFirst ihThen => exact (ihFirst h).andThen h ihThen
  | sent hGiver hMove =>
    refine .moved h hMove ?_ (by simp)
    rintro _ _ _ ⟨⟩
    rcases hGiver with rfl | hDesk
    · exact hUser
    · exact h.ne_of_lender (.inl hDesk)
  | allowed hMove =>
    refine .moved h hMove (by simp) ?_
    rintro _ _ _ ⟨⟩
    exact hUser
  | drawn hMove | collected _ _ hMove => exact .moved h hMove (by simp) (by simp)
  | lent hLender hAllow _ hEnd ih => exact .lent h (h.ne_of_lender hLender) hAllow ih hEnd
  | joined hPrice _ hMove hMint => exact .of_joined h trivial hPrice hMove hMint
  | left hPrice hTakes hTake hMove => exact .of_left h trivial hPrice hTakes hTake hMove

/-- Whatever value flows on behalf of somebody else, a pool goes through deposits and withdrawals of
its own and loses nothing in between. -/
theorem Flow.turns (hFlow : Flow user c c') (hUser : user ≠ x) (h : c.Holds x t) :
    Turns x t True True c c' := by
  induction hFlow with
  | trade hTrade => exact hTrade.turns hUser h
  | trans _ _ ihFirst ihThen => exact (ihFirst h).andThen h ihThen
  | lent hLender hAllow _ hEnd ih => exact .lent h (h.ne_of_lender hLender.lender) hAllow ih hEnd
  | issued hOld | recorded hOld | paused hOld => exact .put h hOld rfl (by simp [Contract.kind])
  | retired hOld _ hRetire =>
    obtain ⟨_, -, rfl⟩ := ShareToken.retire_spec hRetire
    exact .put h hOld rfl (by simp [Contract.kind])

/-- What a call does to one contract takes nothing from a pool that was constructed when it was
deployed. -/
theorem Deed.undiminished (hDeed : Deed user c c') (hUser : user ≠ x) (hBuilt : x ∉ c.blank)
    (h : c.Holds x t) : Undiminished x t c c' := by
  cases hDeed with
  | minted hOld hMint =>
    obtain ⟨l, _, hl, rfl⟩ := Token.Stable.mint_spec hMint
    obtain ⟨hMore, hAllow, -⟩ := Token.Ledger.mint_spec hl
    exact undiminished_put_stable h hOld (hMore x ▸ Nat.le_add_right _ _) hAllow
  | burned hOld hBurn =>
    obtain ⟨l, _, hl, rfl⟩ := Token.Stable.burn_spec hBurn
    obtain ⟨hLess, hAllow, -⟩ := Token.Ledger.burn_spec hl
    have hOwn := hLess x
    rw [if_neg hUser.symm] at hOwn
    exact undiminished_put_stable h hOld (Nat.le_of_eq hOwn.symm) hAllow
  | standalone hOld hKind =>
    exact undiminished_put_other h hOld _ (List.mem_cons_of_mem _ hKind)
  | @constructed a old new hOld hIn hBuilds =>
    by_cases hStable : old.kind = .stable
    · cases hBuilds <;> cases hStable
      exact undiminished_put_stable h hOld (Nat.le_refl _) rfl
    · refine undiminished_put h hOld new ?_ hStable
      rintro rfl
      exact hBuilt hIn

theorem Chain.Arranged.undiminished (h : c.Arranged user c') : Undiminished x t c c' := by
  cases h with
  | settled h =>
    induction h with
    | refl => exact .refl _
    | step _ hThen ih => exact ih.trans (.of_books (hThen.same x).2 (hThen.same t).2)
  | governed h | rewired h => exact .of_books (h.same x).2 (h.same t).2

/-- A call that moves no value takes nothing from a pool that was constructed when it was deployed.
-/
theorem Chain.Amends.undiminished (h : c.Amends user c') (hUser : user ≠ x) (hBuilt : x ∉ c.blank)
    (hHolds : c.Holds x t) : Undiminished x t c c' := by
  cases h with
  | issued hOld | retired hOld =>
    exact undiminished_put_other hHolds hOld _ (by simp [Contract.kind])
  | minted hOld h => exact Deed.undiminished (.minted hOld h) hUser hBuilt hHolds
  | burned hOld h => exact Deed.undiminished (.burned hOld h) hUser hBuilt hHolds
  | operated hOld => exact undiminished_put_other hHolds hOld _ (by simp [Contract.kind])
  | standalone hOld hKind =>
    have hAll : [Contract.Kind.registry, .roles] ⊆ [.share, .registry, .roles, .ledger] := by simp
    exact undiminished_put_other hHolds hOld _ (hAll hKind)
  | constructed hOld hBlank h =>
    exact Deed.undiminished (.constructed hOld hBlank h) hUser hBuilt hHolds
  | arranged h => exact h.undiminished

/-- A contract that appears takes nothing from a pool that stands. -/
theorem Chain.Gains.undiminished {a : Address} {y : Contract} (h : c.Gains a y c')
    (hHolds : c.Holds x t) : Undiminished x t c c' := by
  obtain ⟨k, -, hk⟩ := hHolds.pool
  have hNe := h.ne_of_stands (hk ▸ Option.some_ne_none k)
  refine ⟨by rw [supply, h.books? hNe, supply], ?_, fun hReserved spender => ?_⟩
  · by_cases ht : t = a
    · -- Of a token that did not stand the pool held nothing.
      subst ht
      rw [balance, Chain.books?, h.free]
      exact Nat.zero_le _
    · rw [balance, balance, h.books? ht]
  · by_cases ht : t = a
    · subst ht
      cases hl : c'.books? t with
      | none => rw [allowance, hl]; rfl
      | some l =>
        rw [allowance, hl, Option.getD_some, Token.Ledger.allowance, (h.books_new hl).2]
        rfl
    · rw [allowance, h.books? ht]
      exact hReserved spender

/-- A contract that appears has issued no shares. -/
theorem Chain.Gains.supply_eq_zero {a : Address} {y : Contract} (h : c.Gains a y c') :
    c'.supply a = 0 := by
  rw [supply, Chain.books?, h.contracts, if_pos rfl, Option.bind_some]
  obtain ⟨kind, hBuilds | ⟨rfl, -⟩⟩ := h.new
  · by_cases hStable : kind = .stable
    · subst hStable
      cases hBuilds
      rfl
    · rw [hBuilds.same_books (by cases kind <;> simp_all [Contract.Kind.blank, Contract.kind])]
      cases kind <;> rfl
  · cases kind <;> rfl

/-- A token that is a stable one after something was done with a chain, or does not stand, was so
before. -/
theorem Chain.Leads.token_before (h : c.Leads user c')
    (ht : c'.kind? t = none ∨ c'.kind? t = some .stable) :
    c.kind? t = none ∨ c.kind? t = some .stable := by
  cases hKind : c.kind? t with
  | none => exact .inl rfl
  | some k => rwa [h.advances.kind? hKind] at ht

/-- Whatever a user does with a chain, value flows, or a pool that was constructed when it was
deployed keeps its shares and loses nothing. -/
theorem Chain.Leads.flow_or_undiminished (h : c.Leads user c') (hUser : user ≠ x)
    (hBuilt : x ∉ c.blank) (hHolds : c.Holds x t) : Flow user c c' ∨ Undiminished x t c c' := by
  rcases h.performs_or_gains with hPerforms | ⟨a, y, hGains⟩ | rfl
  · cases hPerforms with
    | dealt hDeal => exact .inl (.trade (hDeal.mono fun _ _ hHeeds => .inr hHeeds.kind?))
    | flowed _ hFlow => exact .inl hFlow
    | issued hOld _ hMint => exact .inl (.issued hOld hMint)
    | retired hOld hRouter hRetire => exact .inl (.retired hOld (.inr hRouter) hRetire)
    | deed hDeed => exact .inr (hDeed.undiminished hUser hBuilt hHolds)
    | arranged hArranged => exact .inr hArranged.undiminished
  · exact .inr (hGains.undiminished hHolds)
  · exact .inr (.of_books rfl rfl)

end Steps

/-- In a run of accounts a pool holds something between calls, if it deals in a stable token or in
one that does not stand yet. -/
theorem Run.holds {Kept : Chain → Prop} {c : Chain} {x t : Address}
    (h : Run Address.IsAccount Kept c)
    (hPool : ∃ k ∈ [Contract.Kind.fixedRate, .synthetic, .yieldVault], c.kind? x = some k)
    (hToken : c.kind? t = none ∨ c.kind? t = some .stable) : c.Holds x t := by
  refine ⟨hPool, hToken, fun spender => h.sealed x t spender ?_ ?_⟩
  · obtain ⟨k, -, hk⟩ := hPool
    simp [hk]
  · rcases hToken with hNone | hStable
    · simp [hNone]
    · simp [hStable]

end Treasury
