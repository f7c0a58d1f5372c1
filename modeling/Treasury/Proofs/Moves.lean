import Treasury.Proofs.StableBooks

/-! Moves of tokens, and changes that pools make to their own books. Both leave everything but one
ledger as it is. What a move does to balances, allowances and supplies is said for all tokens at
once, so that the token that is moved need not be told from the others. -/
namespace Treasury

namespace Token

/-- A move of a token, with everyone who has a part in it. -/
inductive Move where
  | transfer (giver taker : Address) (amount : Amount)
  | approve (owner spender : Address) (amount : Amount)
  | transferFrom (spender owner taker : Address) (amount : Amount)

namespace Move

/-- The move as the stable token makes it. -/
def onStable : Move → Stable → Result Stable
  | transfer giver taker n, t => t.transfer giver taker n
  | approve owner spender n, t => pure (t.approve owner spender n)
  | transferFrom spender owner taker n, t => t.transferFrom spender owner taker n

/-- The move as other tokens make it. -/
def onLedger : Move → Ledger → Result Ledger
  | transfer giver taker n, l => l.transfer giver taker n
  | approve owner spender n, l => pure (l.approve owner spender n)
  | transferFrom spender owner taker n, l => l.transferFrom spender owner taker n

/-- The stable token makes the move on its books as other tokens do. -/
theorem ledger_onStable (m : Move) (t : Stable) :
    Stable.ledger <$> m.onStable t = m.onLedger t.ledger := by
  cases m with
  | transfer giver taker n => exact t.ledger_transfer giver taker n
  | approve owner spender n => rfl
  | transferFrom spender owner taker n => exact t.ledger_transferFrom spender owner taker n

theorem onStable_writes {m : Move} {t t' : Stable} (h : m.onStable t = .ok t') : t.Writes t' := by
  cases m with
  | transfer giver taker n => exact Stable.transfer_writes h
  | approve owner spender n =>
    cases h
    exact .allowance .refl owner spender n
  | transferFrom spender owner taker n => exact Stable.transferFrom_writes h

/-- The stable token makes the move on its ledger, and changes its settings in no way. -/
theorem onStable_spec {m : Move} {t t' : Stable} (h : m.onStable t = .ok t') :
    m.onLedger t.ledger = .ok t'.ledger ∧ (Contract.stable t').bare = (Contract.stable t).bare := by
  refine ⟨?_, (onStable_writes h).bare⟩
  rw [← ledger_onStable, h]
  rfl

end Move

end Token

open Token (Move Ledger)

/-- A contract that is a token makes the move on its books, and changes in nothing else. -/
theorem Contract.keepBooks_spec {m : Move} {old new : Contract}
    (h : old.keepBooks m.onStable m.onLedger = some (.ok new)) :
    ∃ l l', old.books? = some l ∧ m.onLedger l = .ok l' ∧ new.books? = some l' ∧
      new.bare = old.bare := by
  cases old with
  | stable t =>
    simp only [keepBooks, Option.some.injEq, Result.bind_eq_ok] at h
    obtain ⟨t', ht, ⟨⟩⟩ := h
    obtain ⟨hLedger, hBare⟩ := Move.onStable_spec ht
    exact ⟨t.ledger, t'.ledger, rfl, hLedger, rfl, hBare⟩
  | share t | yieldVault t | fixedRate t | synthetic t =>
    simp only [keepBooks, Option.some.injEq, Result.bind_eq_ok] at h
    obtain ⟨l, hl, ⟨⟩⟩ := h
    exact ⟨t.ledger, l, rfl, hl, rfl, rfl⟩
  | wrapped | custody | router | registry | roles | ledger =>
    simp only [keepBooks, reduceCtorEq] at h

/-- A pool that issues its own shares changes its books. -/
inductive Contract.PoolKept (act : Ledger → Result Ledger) : Contract → Contract → Prop where
  | fixedRate {s : Strategy.FixedRate} {l : Ledger} (hAct : act s.ledger = .ok l) :
      PoolKept act (.fixedRate s) (.fixedRate { s with ledger := l })
  | synthetic {s : Strategy.Synthetic} {l : Ledger} (hAct : act s.ledger = .ok l) :
      PoolKept act (.synthetic s) (.synthetic { s with ledger := l })
  | yieldVault {v : Yield.Vault} {l : Ledger} (hAct : act v.ledger = .ok l) :
      PoolKept act (.yieldVault v) (.yieldVault { v with ledger := l })

theorem Contract.PoolKept.spec {act : Ledger → Result Ledger} {old new : Contract}
    (h : old.PoolKept act new) :
    ∃ l l', old.books? = some l ∧ act l = .ok l' ∧ new.books? = some l' ∧ new.bare = old.bare ∧
      old.kind ∈ [.fixedRate, .synthetic, .yieldVault] := by
  cases h with
  | fixedRate hAct | synthetic hAct | yieldVault hAct =>
    exact ⟨_, _, rfl, hAct, rfl, rfl, by simp [Contract.kind]⟩

namespace Chain

/-- The token at `t` makes a move. -/
def Moves (c : Chain) (t : Address) (m : Move) (c' : Chain) : Prop :=
  ∃ old new, c.contract? t = some old ∧ old.keepBooks m.onStable m.onLedger = some (.ok new) ∧
    c' = c.put t new

/-- The pool at `x` changes its books. -/
def PoolKeeps (c : Chain) (x : Address) (act : Ledger → Result Ledger) (c' : Chain) : Prop :=
  ∃ old new, c.contract? x = some old ∧ old.PoolKept act new ∧ c' = c.put x new

variable {c c' : Chain} {t x b a giver taker owner spender account : Address} {n : Amount}

theorem Moves.spec {m : Move} (h : c.Moves t m c') :
    ∃ l l', c.books? t = some l ∧ m.onLedger l = .ok l' ∧ c'.books? t = some l' := by
  obtain ⟨old, new, hOld, hKeep, rfl⟩ := h
  obtain ⟨l, l', hl, hMove, hl', -⟩ := Contract.keepBooks_spec hKeep
  refine ⟨l, l', ?_, hMove, ?_⟩
  · rw [books?_of_contract? hOld, hl]
  · rw [books?_put hOld, if_pos rfl, hl']

theorem Moves.alike {m : Move} (h : c.Moves t m c') : Alike c c' := by
  obtain ⟨old, new, hOld, hKeep, rfl⟩ := h
  obtain ⟨-, -, -, -, -, hBare⟩ := Contract.keepBooks_spec hKeep
  exact alike_put hOld hBare

theorem Moves.frame {m : Move} (h : c.Moves t m c') (hNe : b ≠ t) :
    c'.contract? b = c.contract? b := by
  obtain ⟨old, new, -, -, rfl⟩ := h
  exact contract?_put_of_ne c new hNe

theorem Moves.books_frame {m : Move} (h : c.Moves t m c') (hNe : b ≠ t) :
    c'.books? b = c.books? b := by
  rw [books?, h.frame hNe, books?]

theorem Moves.supply {m : Move} (h : c.Moves t m c') (b : Address) :
    c'.supply b = c.supply b := by
  by_cases hb : b = t
  · subst hb
    obtain ⟨l, l', hl, hMove, hl'⟩ := h.spec
    simp only [Chain.supply, hl, hl', Option.getD_some]
    cases m with
    | transfer => exact (Ledger.transfer_spec hMove).2.2
    | approve => cases hMove; rfl
    | transferFrom => exact (Ledger.transferFrom_spec hMove).2.2
  · rw [Chain.supply, h.books_frame hb, Chain.supply]

theorem Moves.balance_transfer (h : c.Moves t (.transfer giver taker n) c') (b a : Address) :
    c'.balance b a + (if b = t ∧ a = giver then n else 0) =
      c.balance b a + if b = t ∧ a = taker then n else 0 := by
  by_cases hb : b = t
  · subst hb
    obtain ⟨l, l', hl, hMove, hl'⟩ := h.spec
    simpa only [balance, hl, hl', Option.getD_some, true_and] using
      (Ledger.transfer_spec hMove).1 a
  · simp only [balance, h.books_frame hb, hb, false_and, if_false]

theorem Moves.allowance_transfer (h : c.Moves t (.transfer giver taker n) c')
    (b o s : Address) : c'.allowance b o s = c.allowance b o s := by
  by_cases hb : b = t
  · subst hb
    obtain ⟨l, l', hl, hMove, hl'⟩ := h.spec
    simp only [allowance, Ledger.allowance, hl, hl', Option.getD_some,
      (Ledger.transfer_spec hMove).2.1]
  · simp only [allowance, h.books_frame hb]

theorem Moves.balance_approve (h : c.Moves t (.approve owner spender n) c') (b a : Address) :
    c'.balance b a = c.balance b a := by
  by_cases hb : b = t
  · subst hb
    obtain ⟨l, l', hl, ⟨⟩, hl'⟩ := h.spec
    simp only [balance, hl, hl', Option.getD_some]
    rfl
  · simp only [balance, h.books_frame hb]

theorem Moves.allowance_approve (h : c.Moves t (.approve owner spender n) c') (b o s : Address) :
    c'.allowance b o s =
      if b = t ∧ o = owner ∧ s = spender then n else c.allowance b o s := by
  by_cases hb : b = t
  · subst hb
    obtain ⟨l, l', hl, ⟨⟩, hl'⟩ := h.spec
    simpa only [allowance, hl, hl', Option.getD_some, true_and] using
      Ledger.allowance_approve l owner spender n o s
  · simp only [allowance, h.books_frame hb, hb, false_and, if_false]

theorem Moves.balance_transferFrom (h : c.Moves t (.transferFrom spender owner taker n) c')
    (b a : Address) :
    c'.balance b a + (if b = t ∧ a = owner then n else 0) =
      c.balance b a + if b = t ∧ a = taker then n else 0 := by
  by_cases hb : b = t
  · subst hb
    obtain ⟨l, l', hl, hMove, hl'⟩ := h.spec
    simpa only [balance, hl, hl', Option.getD_some, true_and] using
      (Ledger.transferFrom_spec hMove).1 a
  · simp only [balance, h.books_frame hb, hb, false_and, if_false]

theorem Moves.allowance_transferFrom (h : c.Moves t (.transferFrom spender owner taker n) c')
    (b o s : Address) :
    c'.allowance b o s + (if b = t ∧ o = owner ∧ s = spender then n else 0) =
      c.allowance b o s := by
  by_cases hb : b = t
  · subst hb
    obtain ⟨l, l', hl, hMove, hl'⟩ := h.spec
    simpa only [allowance, hl, hl', Option.getD_some, true_and] using
      (Ledger.transferFrom_spec hMove).2.1 o s
  · simp only [allowance, h.books_frame hb, hb, false_and, if_false, Nat.add_zero]

section PoolKeeps

variable {act : Ledger → Result Ledger}

theorem PoolKeeps.spec (h : c.PoolKeeps x act c') :
    ∃ l l', c.books? x = some l ∧ act l = .ok l' ∧ c'.books? x = some l' := by
  obtain ⟨old, new, hOld, hKept, rfl⟩ := h
  obtain ⟨l, l', hl, hAct, hl', -⟩ := hKept.spec
  refine ⟨l, l', ?_, hAct, ?_⟩
  · rw [books?_of_contract? hOld, hl]
  · rw [books?_put hOld, if_pos rfl, hl']

theorem PoolKeeps.alike (h : c.PoolKeeps x act c') : Alike c c' := by
  obtain ⟨old, new, hOld, hKept, rfl⟩ := h
  obtain ⟨-, -, -, -, -, hBare, -⟩ := hKept.spec
  exact alike_put hOld hBare

theorem PoolKeeps.kind (h : c.PoolKeeps x act c') :
    ∃ k ∈ [Contract.Kind.fixedRate, .synthetic, .yieldVault], c.kind? x = some k := by
  obtain ⟨old, new, hOld, hKept, rfl⟩ := h
  obtain ⟨-, -, -, -, -, -, hKind⟩ := hKept.spec
  exact ⟨old.kind, hKind, kind?_of_contract? hOld⟩

theorem PoolKeeps.books_frame (h : c.PoolKeeps x act c') (hNe : b ≠ x) :
    c'.books? b = c.books? b := by
  obtain ⟨old, new, -, -, rfl⟩ := h
  rw [books?, contract?_put_of_ne c new hNe, books?]

end PoolKeeps

theorem PoolKeeps.balance_mint (h : c.PoolKeeps x (·.mint account n) c') (b a : Address) :
    c'.balance b a = c.balance b a + if b = x ∧ a = account then n else 0 := by
  by_cases hb : b = x
  · subst hb
    obtain ⟨l, l', hl, hMint, hl'⟩ := h.spec
    simpa only [balance, hl, hl', Option.getD_some, true_and] using (Ledger.mint_spec hMint).1 a
  · simp only [balance, h.books_frame hb, hb, false_and, if_false, Nat.add_zero]

theorem PoolKeeps.allowance_mint (h : c.PoolKeeps x (·.mint account n) c') (b o s : Address) :
    c'.allowance b o s = c.allowance b o s := by
  by_cases hb : b = x
  · subst hb
    obtain ⟨l, l', hl, hMint, hl'⟩ := h.spec
    simp only [allowance, Ledger.allowance, hl, hl', Option.getD_some, (Ledger.mint_spec hMint).2.1]
  · simp only [allowance, h.books_frame hb]

end Chain

namespace Token

open Exec

variable {caller token taker owner spender : Address} {n : Amount} {w : World}

/-- What is done to the books of a token is a move of it. -/
theorem after_keep {entry : String} (m : Move) {Q : Unit → World → Prop}
    (h : ∀ c', w.chain.Moves token m c' → Q () { w with chain := c' }) :
    After (keep token entry m.onStable m.onLedger) w Q := by
  simp only [keep, after_bind, after_view, View.contract_eq_ok]
  intro old hOld
  split
  · next changed hKeep =>
    simp only [after_bind, after_result, after_put]
    rintro new rfl
    exact h _ ⟨old, new, hOld, hKeep, rfl⟩
  · simp only [after_throw]

theorem after_transfer :
    After (transfer caller token taker n) w fun _ v =>
      w.chain.Moves token (.transfer caller taker n) v.chain := by
  simp only [transfer, after_entering, after_bind, after_mark]
  exact after_keep (.transfer caller taker n) fun _ h => h

theorem after_approve :
    After (approve caller token spender n) w fun _ v =>
      w.chain.Moves token (.approve caller spender n) v.chain := by
  simp only [approve, after_entering]
  exact after_keep (.approve caller spender n) fun _ h => h

theorem after_transferFrom :
    After (transferFrom caller token owner taker n) w fun _ v =>
      w.chain.Moves token (.transferFrom caller owner taker n) v.chain := by
  simp only [transferFrom, after_entering, after_bind, after_mark]
  exact after_keep (.transferFrom caller owner taker n) fun _ h => h

end Token

end Treasury
