import Treasury.Proofs.Run

/-! Allowances between calls. A contract lets others take tokens of its own only in the middle of a
call, so that between calls nobody is allowed anything by a contract. -/
namespace Treasury

open Exec Chain

variable {user t o spender : Address} {c c' : Chain}

/-- A token that makes a move is no ledger that stands by itself. -/
theorem Chain.Moves.kind_ne {m : Token.Move} (h : c.Moves t m c') : c.kind? t ≠ some .ledger := by
  obtain ⟨old, new, hOld, hKeep, -⟩ := h
  rw [kind?_of_contract? hOld]
  cases old <;> simp [Contract.keepBooks, Contract.kind] at hKeep ⊢

theorem Chain.Moves.allowance_le {b : Address} {m : Token.Move} (h : c.Moves b m c')
    (hApprove : ∀ owner x n, m = .approve owner x n → owner ≠ o) :
    c'.allowance t o spender ≤ c.allowance t o spender := by
  cases m with
  | transfer giver taker n => exact Nat.le_of_eq (h.allowance_transfer t o spender)
  | approve owner x n =>
    have hNe := hApprove owner x n rfl
    apply Nat.le_of_eq
    rw [h.allowance_approve, if_neg fun hAt => hNe hAt.2.1.symm]
  | transferFrom x owner taker n =>
    rw [← h.allowance_transferFrom t o spender]
    exact Nat.le_add_right _ _

/-- A pool that takes shares back uses allowances up, and grants none. -/
theorem Chain.Takes.allowance_le {x : Address} {shares : Amount}
    {act : Token.Ledger → Result Token.Ledger} (hTakes : c.Takes user x shares act)
    (hPool : c.PoolKeeps x act c') : c'.allowance t o spender ≤ c.allowance t o spender := by
  obtain ⟨l, l', hl, hAct, hl'⟩ := hPool.spec
  have hLess : l'.allowance o spender ≤ l.allowance o spender := by
    cases hTakes with
    | adapter =>
      rw [← (Token.Ledger.takeShares_spec hAct).2.1 o spender]
      exact Nat.le_add_right _ _
    | vault =>
      rw [← (Token.Ledger.burnFrom_spec hAct).2.1 o spender]
      exact Nat.le_add_right _ _
  by_cases ht : t = x
  · subst ht
    simpa only [allowance, hl, hl', Option.getD_some] using hLess
  · simp only [allowance, hPool.books_frame ht, Nat.le_refl]

/-- What is allowed for the time of something that grants nothing is not allowed afterwards. -/
theorem Chain.lent_allowance_le {b lender x : Address} {n : Amount} {c₁ c₂ : Chain}
    (hAllow : c.Moves b (.approve lender x n) c₁)
    (hLess : c₂.allowance t o spender ≤ c₁.allowance t o spender)
    (hEnd : c₂.Moves b (.approve lender x 0) c') :
    c'.allowance t o spender ≤ c.allowance t o spender := by
  rw [hEnd.allowance_approve]
  split
  · exact Nat.zero_le _
  · next hOther =>
    rw [hAllow.allowance_approve, if_neg hOther] at hLess
    exact hLess

theorem Deal.allowance_le {May : Chain → Address → Prop} (h : Deal May user c c')
    (hOther : o ≠ user) : c'.allowance t o spender ≤ c.allowance t o spender := by
  induction h with
  | refl c => exact Nat.le_refl _
  | trans _ _ ihFirst ihThen => exact Nat.le_trans ihThen ihFirst
  | sent _ hMove | drawn hMove | collected _ _ hMove => exact hMove.allowance_le (by simp)
  | allowed hMove =>
    apply hMove.allowance_le
    rintro _ _ _ ⟨⟩
    exact hOther.symm
  | lent _ hAllow _ hEnd ih => exact lent_allowance_le hAllow ih hEnd
  | joined _ _ hMove hMint =>
    rw [hMint.allowance_mint]
    exact hMove.allowance_le (by simp)
  | left _ hTakes hTake hMove =>
    exact Nat.le_trans (hMove.allowance_le (by simp)) (hTakes.allowance_le hTake)

/-- Whoever has allowed nobody anything, and is not the user, has not after a deal either. -/
theorem Deal.allowance_eq_zero {May : Chain → Address → Prop} (h : Deal May user c c')
    (hOther : o ≠ user)
    (hNone : ∀ t spender, c.kind? t ≠ some .ledger → c.allowance t o spender = 0) :
    ∀ t spender, c'.kind? t ≠ some .ledger → c'.allowance t o spender = 0 := by
  intro t spender hKind
  rw [h.alike.kind?] at hKind
  have hLess : c'.allowance t o spender ≤ c.allowance t o spender := h.allowance_le hOther
  rw [hNone t spender hKind] at hLess
  exact Nat.le_zero.1 hLess

theorem Chain.allowance_put_le {a : Address} {old new : Contract}
    (hOld : c.contract? a = some old)
    (h : a = t → ∀ l', new.books? = some l' → ∃ l, old.books? = some l ∧
      l'.allowance o spender ≤ l.allowance o spender) :
    (c.put a new).allowance t o spender ≤ c.allowance t o spender := by
  simp only [allowance]
  rw [books?_put hOld]
  split
  · next ht =>
    subst ht
    cases hNew : new.books? with
    | none => exact Nat.zero_le _
    | some l' =>
      obtain ⟨l, hl, hLess⟩ := h rfl l' hNew
      simpa only [books?_of_contract? hOld, hl, Option.getD_some] using hLess
  · exact Nat.le_refl _

theorem Token.Ledger.allowance_of_same {l l' : Token.Ledger} (h : l'.allowances = l.allowances) :
    l'.allowance o spender ≤ l.allowance o spender := by
  rw [allowance, h]
  exact Nat.le_refl _

theorem Flow.allowance_le (h : Flow user c c') (hOther : o ≠ user) :
    c'.allowance t o spender ≤ c.allowance t o spender := by
  induction h with
  | trade hTrade => exact hTrade.allowance_le hOther
  | trans _ _ ihFirst ihThen => exact Nat.le_trans ihThen ihFirst
  | lent _ hAllow _ hEnd ih => exact lent_allowance_le hAllow ih hEnd
  | issued hOld hMint =>
    refine allowance_put_le hOld fun _ _ hNew => ⟨_, rfl, ?_⟩
    cases hNew
    exact Token.Ledger.allowance_of_same (Token.Ledger.mint_spec hMint).2.1
  | retired hOld _ hRetire =>
    obtain ⟨l', hl', rfl⟩ := ShareToken.retire_spec hRetire
    refine allowance_put_le hOld fun _ _ hNew => ⟨_, rfl, ?_⟩
    cases hNew
    rw [← (Token.Ledger.burnFrom_spec hl').2.1 o spender]
    exact Nat.le_add_right _ _
  | recorded hOld | paused hOld => exact allowance_put_le hOld fun _ _ hNew => by cases hNew

/-- Ledgers that stand by themselves are told what is allowed. -/
theorem Deed.allowance_le (h : Deed user c c') (hKind : c.kind? t ≠ some .ledger) :
    c'.allowance t o spender ≤ c.allowance t o spender := by
  cases h with
  | minted hOld hMint =>
    obtain ⟨l', _, hl', rfl⟩ := Token.Stable.mint_spec hMint
    refine allowance_put_le hOld fun _ _ hNew => ⟨_, rfl, ?_⟩
    cases hNew
    exact Token.Ledger.allowance_of_same (Token.Ledger.mint_spec hl').2.1
  | burned hOld hBurn =>
    obtain ⟨l', _, hl', rfl⟩ := Token.Stable.burn_spec hBurn
    refine allowance_put_le hOld fun _ _ hNew => ⟨_, rfl, ?_⟩
    cases hNew
    exact Token.Ledger.allowance_of_same (Token.Ledger.burn_spec hl').2.1
  | @standalone a old new hOld hIn hSame =>
    apply allowance_put_le hOld
    intro hAt l' hNew
    subst hAt
    rw [kind?_of_contract? hOld, ← hSame] at hKind
    rw [← hSame] at hIn
    cases new <;> cases hNew
    case ledger.refl => exact absurd rfl hKind
    all_goals simp [Contract.kind] at hIn
  | @constructed a old new hOld _ hBuilds =>
    obtain ⟨hSame, hBooks⟩ := hBuilds.keeps
    apply allowance_put_le hOld
    intro _ l' hNew
    cases hl : old.books? with
    | some l =>
      obtain ⟨k, hk, -, hSame⟩ := hBooks l hl
      obtain rfl : l' = k := Option.some.inj (hNew.symm.trans hk)
      exact ⟨l, rfl, Token.Ledger.allowance_of_same hSame⟩
    | none => cases new <;> cases hNew <;> cases old <;> cases hl <;> cases hSame

/-- No effect makes anyone but the user allow more. -/
theorem Effect.allowance_le (h : Effect user c c') (hOther : o ≠ user)
    (hKind : c.kind? t ≠ some .ledger) :
    c'.allowance t o spender ≤ c.allowance t o spender := by
  induction h with
  | flow hFlow => exact hFlow.allowance_le hOther
  | trans hFirst _ ihFirst ihThen =>
    exact Nat.le_trans (ihThen (by rw [hFirst.kind?]; exact hKind)) (ihFirst hKind)
  | deed hDeed => exact hDeed.allowance_le hKind
  | configured hConfigured =>
    simp only [allowance, (hConfigured.same t).2, Nat.le_refl]

/-- Whoever allows a spender nothing but one token is charged in nothing else. -/
theorem Chain.token_of_collected {b lender p taker : Address} {n : Amount} {c₁ c₂ : Chain}
    (hNone : ∀ t, c.kind? t ≠ some .ledger → c.allowance t lender p = 0) (hAmount : n ≠ 0)
    (hAllow : c.Moves b (.approve lender p n) c₁)
    (hTake : c₁.Moves t (.transferFrom p lender taker n) c₂) : t = b := by
  refine Classical.byContradiction fun hNe => hAmount ?_
  have hKind : c.kind? t ≠ some .ledger := by
    rw [← hAllow.alike.kind?]
    exact hTake.kind_ne
  have hSpent := hTake.allowance_transferFrom t lender p
  simp only [and_self, if_true] at hSpent
  rw [hAllow.allowance_approve, if_neg fun hAt => hNe hAt.1, hNone t hKind] at hSpent
  exact (Nat.add_eq_zero_iff.1 hSpent).2

/-- In a run of accounts, between calls, contracts allow nobody anything. -/
theorem Run.allowance_eq_zero {Kept : Chain → Prop} (h : Run Address.IsAccount Kept c) {d : Digest}
    (hKind : c.kind? t ≠ some .ledger) : c.allowance t (.contract d) spender = 0 := by
  refine h.invariant (P := fun c => ∀ t, c.kind? t ≠ some .ledger →
    c.allowance t (.contract d) spender = 0) (fun _ _ => rfl) ?_ t hKind
  intro c c' user hUser _ _ ih hAdvances t hKind
  cases hAdvances with
  | effect hEffect =>
    rw [hEffect.kind?] at hKind
    have hOther : Address.contract d ≠ user := by
      obtain ⟨_, rfl⟩ := hUser
      simp
    have hLess : c'.allowance t (.contract d) spender ≤ c.allowance t (.contract d) spender :=
      hEffect.allowance_le hOther hKind
    rw [ih t hKind] at hLess
    exact Nat.le_zero.1 hLess
  | governed hSame | rewired hSame =>
    rw [(hSame.same t).1] at hKind
    rw [allowance, (hSame.same t).2]
    exact ih t hKind
  | @gains _ a x hGains =>
    by_cases ht : t = a
    · subst ht
      cases hl : c'.books? t with
      | none => rw [allowance, hl]; rfl
      | some l =>
        rw [allowance, hl, Option.getD_some, Token.Ledger.allowance, (hGains.books_new hl).2]
        rfl
    · rw [hGains.kind? ht] at hKind
      rw [allowance, hGains.books? ht]
      exact ih t hKind
  | skipped => exact ih t hKind

/-- Contracts let nobody take tokens of theirs. -/
def Chain.Sealed (c : Chain) : Prop :=
  ∀ o t spender, c.kind? o ≠ none → c.kind? t ≠ some .ledger → c.allowance t o spender = 0

/-- In a run of accounts, between calls, contracts let nobody take tokens of theirs. -/
theorem Run.sealed {Kept : Chain → Prop} (h : Run Address.IsAccount Kept c) :
    c.Sealed := by
  intro o t spender hStands hKind
  obtain ⟨d, rfl⟩ := h.address_of_contract hStands
  exact h.allowance_eq_zero hKind

theorem WiredRun.allowance_eq_zero {w : Wiring} (h : WiredRun w c) {d : Digest}
    (hKind : c.kind? t ≠ some .ledger) : c.allowance t (.contract d) spender = 0 :=
  h.run.allowance_eq_zero hKind

end Treasury
