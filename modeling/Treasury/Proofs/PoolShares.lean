import Treasury.Proofs.RouterFunds

/-! Who has which shares after a deposit and after a withdrawal. A pool gives the shares of a deposit
to one holder, and takes the shares of a withdrawal from the one who hands them in. What passes
through a wrapped-vault adapter leaves it again to the last unit, unless the adapter keeps the
shares for itself. -/
namespace Treasury

open Exec Chain

namespace Chain

variable {c c' : Chain} {t x a p owner taker caller : Address} {n shares : Amount}

/-- Whoever is neither the giver nor the taker of a move owns what it did. -/
theorem Moves.balance_collected (h : c.Moves t (.transferFrom x owner taker n) c')
    (hOwner : a = owner → p ≠ t) (hTaker : a ≠ taker) : c'.balance p a = c.balance p a := by
  have hMoved := h.balance_transferFrom p a
  rwa [if_neg fun hAt => hOwner hAt.2 hAt.1, if_neg fun hAt => hTaker hAt.2] at hMoved

/-- An adapter that is its own pool takes the caller's shares. -/
theorem PoolKeeps.balance_taken (h : c.PoolKeeps x (Strategy.takeShares x caller shares) c')
    (p a : Address) :
    c'.balance p a + (if p = x ∧ a = caller then shares else 0) = c.balance p a := by
  by_cases hp : p = x
  · subst hp
    obtain ⟨l, l', hl, hTake, hl'⟩ := h.spec
    simpa only [balance, hl, hl', Option.getD_some, true_and] using
      (Token.Ledger.takeShares_spec hTake).1 a
  · simp only [balance, h.books_frame hp, hp, false_and, if_false, Nat.add_zero]

/-- A vault destroys the owner's shares. -/
theorem PoolKeeps.balance_burned (h : c.PoolKeeps x (·.burnFrom caller owner shares) c')
    (p a : Address) :
    c'.balance p a + (if p = x ∧ a = owner then shares else 0) = c.balance p a := by
  by_cases hp : p = x
  · subst hp
    obtain ⟨l, l', hl, hBurn, hl'⟩ := h.spec
    simpa only [balance, hl, hl', Option.getD_some, true_and] using
      (Token.Ledger.burnFrom_spec hBurn).1 a
  · simp only [balance, h.books_frame hp, hp, false_and, if_false, Nat.add_zero]

/-- Adapters and vaults are no desk. -/
theorem Desk.ne (h : c.Desk a) {y : Contract} (hy : c.contract? x = some y)
    (hKind : y.kind ∉ [.router, .custody]) : a ≠ x := by
  rintro rfl
  rw [Desk, kind?_of_contract? hy] at h
  rcases h with h | h <;> simp [Option.some.inj h] at hKind

theorem Desk.alike (h : c.Desk a) (hAlike : Alike c c') : c'.Desk a := by
  rw [Desk, hAlike.kind?]
  exact h

/-- By a deposit for which a payer gives stable, the desk gets nothing but the shares that one
holder gets of one pool. They are no more than is reported. -/
def Endows (c : Chain) (payer stable : Address) (reported : Amount) (c' : Chain) : Prop :=
  ∃ pool holder shares, shares ≤ reported ∧ ∀ p a, c.Desk a → (a = payer → p ≠ stable) →
    c'.balance p a = c.balance p a + if p = pool ∧ a = holder then shares else 0

/-- A caller hands shares of one pool in that the adapter was allowed to take, and is paid in one
token. The payment is no more than is reported. -/
def Repays (c : Chain) (adapter caller : Address) (shares reported : Amount) (c' : Chain) : Prop :=
  ∃ pool t n, n ≤ reported ∧ c.kind? pool ≠ some .ledger ∧
    shares ≤ c.allowance pool caller adapter ∧ ∀ p,
      c'.balance p caller + (if p = pool then shares else 0) =
        c.balance p caller + if p = t then n else 0

/-- An adapter takes its payment in stable, and issues shares of its own. -/
theorem endows_of_own {payer stable holder : Address} {reported : Amount} {c₁ : Chain}
    {y : Contract} (hx : c.contract? x = some y) (hKind : y.kind ∉ [.router, .custody])
    (hStable : t = stable) (hMove : c.Moves t (.transferFrom x payer x n) c₁)
    (hMint : c₁.PoolKeeps x (·.mint holder shares) c') (hReport : shares ≤ reported) :
    c.Endows payer stable reported c' := by
  refine ⟨x, holder, shares, hReport, fun p a hDesk hPayer => ?_⟩
  rw [hMint.balance_mint,
    hMove.balance_collected (fun h => hStable ▸ hPayer h) (hDesk.ne hx hKind)]

end Chain

section Adapters

variable {u : World} {self payer stable caller : Address} {n shares : Amount}
  {back : Router.Callback} {locked : List Address}

namespace Strategy

/-- A wrapped-vault adapter takes its payment in stable, and hands it on to a vault. -/
theorem Wrapped.after_deposit_endows {s : Wrapped}
    (hAdapter : u.chain.contract? self = some (.wrapped s))
    (hToken : n ≠ 0 → ∀ t c', u.chain.Moves t (.transferFrom self payer self n) c' → t = stable) :
    After (s.deposit self payer n) u fun minted v =>
      u.chain.Endows payer stable minted.shares v.chain := by
  refine Wrapped.after_deposit_moves.mono ?_
  rintro minted v ⟨b, vault, custodian, y, t, c₁, c₂, c₃, c₄, hAmount, -, -, hMove, hAllow, hy, -,
    -, hHand, hMint, hEnd⟩
  obtain rfl := hToken hAmount _ _ hMove
  refine ⟨vault, custodian, minted.shares, Nat.le_refl _, fun p a hDesk hPayer => ?_⟩
  have hSelf : a ≠ self := hDesk.ne hAdapter (by simp [Contract.kind])
  have hVault : a ≠ vault :=
    Desk.ne (hDesk.alike (hMove.alike.trans hAllow.alike)) hy (by simp [Contract.kind])
  rw [hEnd.balance_approve, hMint.balance_mint,
    hHand.balance_collected (fun h => (hSelf h).elim) hVault, hAllow.balance_approve,
    hMove.balance_collected hPayer hSelf]

/-- A deposit through an adapter of any kind that calls nobody back, and takes stable only. -/
theorem after_deposit_endows {adapter : Address}
    (hBack : ∀ s v, v.chain = u.chain → u.chain.contract? adapter = some (.synthetic s) →
      After (s.callBack back locked adapter) v fun _ v' => v'.chain = u.chain)
    (hToken : n ≠ 0 → ∀ t c',
      u.chain.Moves t (.transferFrom adapter payer adapter n) c' → t = stable) :
    After (Strategy.deposit back locked adapter payer n) u fun minted v =>
      u.chain.Endows payer stable minted.shares v.chain := by
  simp only [Strategy.deposit, after_entering, after_bind, after_view, View.contract_eq_ok]
  intro x hx
  cases x with
  | fixedRate s =>
    refine After.mono FixedRate.after_deposit_moves ?_
    rintro minted v ⟨t, custodian, shares, c, hAmount, -, -, -, rfl, hMove, hMint⟩
    exact endows_of_own hx (by simp [Contract.kind]) (hToken hAmount _ _ hMove) hMove hMint
      (Nat.le_refl _)
  | synthetic s =>
    refine After.mono (Synthetic.after_deposit_moves (R := (· = u.chain)) (hBack s _ rfl hx)) ?_
    rintro minted v ⟨_, s', t, _, shares, custodian, c, rfl, hAmount, -, -, -, -, hReport, hMove,
      hMint⟩
    obtain ⟨-, hSum⟩ := Amount.add_eq_ok.1 hReport
    exact endows_of_own hx (by simp [Contract.kind]) (hToken hAmount _ _ hMove) hMove hMint
      (hSum ▸ Nat.le_add_right _ _)
  | wrapped s => exact Wrapped.after_deposit_endows hx hToken
  | stable | share | yieldVault | custody | router | registry | roles | ledger =>
    exact after_throw.2 trivial

/-- An adapter takes shares of its own back, and pays. -/
theorem repays_of_own {c c₁ c' : Chain} {t : Address} {reported : Amount} {y : Contract}
    (hx : c.contract? self = some y) (hKind : y.kind ∉ [.router, .custody, .ledger])
    (hDesk : c.Desk caller) (hTake : c.PoolKeeps self (takeShares self caller shares) c₁)
    (hMove : c₁.Moves t (.transfer self caller n) c') (hReport : n ≤ reported) :
    c.Repays self caller shares reported c' := by
  have hNe : caller ≠ self := hDesk.ne hx fun h => hKind (by simp_all)
  refine ⟨self, t, n, hReport, ?_, ?_, fun p => ?_⟩
  · rw [kind?_of_contract? hx]
    intro hLedger
    simp [Option.some.inj hLedger] at hKind
  · obtain ⟨l, l', hl, hTaken, -⟩ := hTake.spec
    have hSpent := (Token.Ledger.takeShares_spec hTaken).2.1 caller self
    simp only [and_self, if_true] at hSpent
    rw [allowance, hl]
    exact Nat.le_of_add_left_le (Nat.le_of_eq hSpent)
  · have hPaid := hMove.balance_transfer p caller
    have hTaken := hTake.balance_taken p caller
    simp only [hNe, and_false, if_false, and_true] at hPaid hTaken
    omega

/-- A wrapped-vault adapter takes the shares of its vault that it then has destroyed. -/
theorem Wrapped.after_withdraw_repays {s : Wrapped} (hDesk : u.chain.Desk caller)
    (hAdapter : u.chain.contract? self = some (.wrapped s)) :
    After (s.withdraw self caller shares) u fun paid v =>
      u.chain.Repays self caller shares paid v.chain := by
  refine Wrapped.after_withdraw_moves.mono ?_
  rintro paid v ⟨vault, y, t, c₁, c₂, hGive, hy, -, -, hTake, hMove⟩
  have hSelf : caller ≠ self := hDesk.ne hAdapter (by simp [Contract.kind])
  have hVault : caller ≠ vault := Desk.ne (hDesk.alike hGive.alike) hy (by simp [Contract.kind])
  refine ⟨vault, t, paid, Nat.le_refl _, hGive.kind_ne, ?_, fun p => ?_⟩
  · have hSpent := hGive.allowance_transferFrom vault caller self
    simp only [and_self, if_true] at hSpent
    exact Nat.le_of_add_left_le (Nat.le_of_eq hSpent)
  · have hGiven := hGive.balance_transferFrom p caller
    have hTaken := hTake.balance_burned p caller
    have hPaid := hMove.balance_transfer p caller
    simp only [hSelf, hVault, and_false, if_false, and_true] at hGiven hTaken hPaid
    omega

/-- A withdrawal of the desk through an adapter of any kind. -/
theorem after_withdraw_repays {adapter : Address} (hDesk : u.chain.Desk caller) :
    After (Strategy.withdraw adapter caller shares) u fun reported v =>
      u.chain.Repays adapter caller shares reported v.chain := by
  simp only [Strategy.withdraw, after_entering, after_bind, after_view, View.contract_eq_ok]
  intro x hx
  cases x with
  | fixedRate s =>
    refine After.mono FixedRate.after_withdraw_moves ?_
    rintro paid v ⟨t, c, -, -, hTake, hMove⟩
    exact repays_of_own hx (by simp [Contract.kind]) hDesk hTake hMove (Nat.le_refl _)
  | synthetic s =>
    refine After.mono Synthetic.after_withdraw_moves ?_
    rintro reported v ⟨t, due, paid, c, -, -, -, hReport, hTake, hMove⟩
    obtain ⟨-, hSum⟩ := Amount.add_eq_ok.1 hReport
    exact repays_of_own hx (by simp [Contract.kind]) hDesk hTake hMove
      (hSum ▸ Nat.le_add_right _ _)
  | wrapped s => exact Wrapped.after_withdraw_repays hDesk hx
  | stable | share | yieldVault | custody | router | registry | roles | ledger =>
    exact after_throw.2 trivial

/-- What others deposit through a wrapped-vault adapter that has allowed nobody anything passes
through it. Only if it is to get the shares itself do they stay with it. -/
theorem Wrapped.after_deposit_passes {s : Wrapped}
    (hAdapter : u.chain.contract? self = some (.wrapped s)) (hCaller : caller ≠ self)
    (hNone : ∀ t spender, u.chain.kind? t ≠ some .ledger → u.chain.allowance t self spender = 0) :
    After (s.deposit self caller n) u fun minted v => ∀ t, v.chain.balance t self =
      u.chain.balance t self +
        if t = minted.pool ∧ s.custody = some self then minted.shares else 0 := by
  refine Wrapped.after_deposit_moves.mono ?_
  rintro minted v ⟨b, vault, custodian, y, b', c₁, c₂, c₃, c₄, hAmount, hCustody, hPool, hMove,
    hAllow, hy, -, -, hHand, hMint, hEnd⟩ t
  have hVault : self ≠ vault := by
    rintro rfl
    have hSame := (hMove.alike.trans hAllow.alike).kind? self
    rw [kind?_of_contract? hAdapter, kind?_of_contract? hy] at hSame
    cases hSame
  -- The vault is allowed nothing but what the adapter has just taken.
  have hNothing : ∀ t, c₁.kind? t ≠ some .ledger → c₁.allowance t self vault = 0 := by
    intro t hKind
    have hBefore := hMove.allowance_transferFrom t self vault
    rw [hNone t vault (hMove.alike.kind? t ▸ hKind), Nat.add_eq_zero_iff] at hBefore
    exact hBefore.1
  obtain rfl := token_of_collected hNothing hAmount hAllow hHand
  have hTaken := hMove.balance_transferFrom t self
  have hHanded := hHand.balance_transferFrom t self
  rw [hAllow.balance_approve] at hHanded
  simp only [hCaller.symm, hVault, and_false, if_false, and_true, Nat.add_zero] at hTaken hHanded
  rw [hEnd.balance_approve, hMint.balance_mint, hPool, hCustody]
  simp only [Option.some.injEq, eq_comm (a := custodian)]
  omega

/-- What others withdraw through a wrapped-vault adapter passes through it. -/
theorem Wrapped.after_withdraw_passes {s : Wrapped}
    (hAdapter : u.chain.contract? self = some (.wrapped s)) (hCaller : caller ≠ self) :
    After (s.withdraw self caller shares) u fun _ v =>
      ∀ t, v.chain.balance t self = u.chain.balance t self := by
  refine Wrapped.after_withdraw_moves.mono ?_
  rintro paid v ⟨vault, y, b, c₁, c₂, hGive, hy, -, -, hTake, hMove⟩ t
  have hVault : self ≠ vault := by
    rintro rfl
    have hSame := hGive.alike.kind? self
    rw [kind?_of_contract? hAdapter, kind?_of_contract? hy] at hSame
    cases hSame
  have hGiven := hGive.balance_transferFrom t self
  have hBurned := hTake.balance_burned t self
  have hPaid := hMove.balance_transfer t self
  simp only [hCaller.symm, hVault, and_false, if_false, and_true, Nat.add_zero]
    at hGiven hBurned hPaid
  omega

end Strategy

end Adapters

end Treasury
