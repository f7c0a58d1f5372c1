import Treasury.Proofs.Books

/-! What the stable token writes. Each value is written to the books and to the published copy at
once, and what is neither stays as it is. An operation makes of the books what a ledger that stands
alone makes of them, and is turned down where the ledger turns it down. -/
namespace Treasury.Token

/-- What is handed over does not depend on allowances. -/
theorem Ledger.approve_transfer (l : Ledger) (owner spender giver taker : Address) (n m : Amount) :
    (l.approve owner spender n).transfer giver taker m =
      (fun moved => moved.approve owner spender n) <$> l.transfer giver taker m := by
  simp only [transfer, debit, credit, map_bind, bind_assoc, map_pure, pure_bind]
  rfl

namespace Stable

/-- A token after values have been written one after the other, each to the books and to what is
published. -/
inductive Writes (t : Stable) : Stable → Prop where
  | refl : Writes t t
  | balance {u : Stable} (h : Writes t u) (account : Address) (n : Amount) :
      Writes t (u.setBalance account n)
  | allowance {u : Stable} (h : Writes t u) (owner spender : Address) (n : Amount) :
      Writes t (u.approve owner spender n)
  | supply {u : Stable} (h : Writes t u) (n : Amount) : Writes t (u.setSupply n)

variable {t t' u : Stable} {caller account giver taker owner spender : Address} {n : Amount}

theorem transfer_writes (h : t.transfer giver taker n = .ok t') : t.Writes t' := by
  simp only [transfer, Result.bind_eq_ok] at h
  obtain ⟨_, -, total, -, ⟨⟩⟩ := h
  exact (Writes.refl.balance giver _).balance taker total

theorem transferFrom_writes (h : t.transferFrom spender owner taker n = .ok t') : t.Writes t' := by
  simp only [transferFrom, Result.bind_eq_ok] at h
  obtain ⟨_, -, moved, hMove, ⟨⟩⟩ := h
  exact (transfer_writes hMove).allowance owner spender _

theorem mint_writes (h : t.mint caller account n = .ok t') : t.Writes t' := by
  simp only [mint, Result.bind_eq_ok] at h
  obtain ⟨_, -, total, -, supply, -, ⟨⟩⟩ := h
  exact (Writes.refl.balance account total).supply supply

theorem burn_writes (h : t.burn caller n = .ok t') : t.Writes t' := by
  simp only [burn, Result.bind_eq_ok] at h
  obtain ⟨_, -, supply, -, ⟨⟩⟩ := h
  exact (Writes.refl.balance caller _).supply supply

namespace Writes

theorem frame (h : t.Writes t') : ∃ ledger published, t' = { t with ledger, published } := by
  induction h with
  | refl => exact ⟨_, _, rfl⟩
  | balance _ _ _ ih | allowance _ _ _ _ ih | supply _ _ ih =>
    obtain ⟨ledger, published, rfl⟩ := ih
    exact ⟨_, _, rfl⟩

/-- What is written changes no settings. -/
theorem bare (h : t.Writes t') : (Contract.stable t').bare = (Contract.stable t).bare := by
  obtain ⟨ledger, published, rfl⟩ := h.frame
  rfl

end Writes

theorem ledger_transfer (t : Stable) (giver taker : Address) (n : Amount) :
    ledger <$> t.transfer giver taker n = t.ledger.transfer giver taker n := by
  simp only [transfer, Ledger.transfer, Ledger.debit, Ledger.credit, map_bind, bind_assoc, map_pure,
    pure_bind]
  rfl

/-- The ledger uses an allowance up before the amount is moved, and the token afterwards. -/
theorem ledger_transferFrom (t : Stable) (spender owner taker : Address) (n : Amount) :
    ledger <$> t.transferFrom spender owner taker n =
      t.ledger.transferFrom spender owner taker n := by
  simp only [transferFrom, Ledger.transferFrom, Ledger.spendAllowance, Ledger.approve_transfer,
    ← ledger_transfer, ← bind_pure_comp, bind_assoc, pure_bind]
  rfl

theorem ledger_mint (t : Stable) (caller account : Address) (n : Amount) :
    ledger <$> t.mint caller account n = (do
      ensure (t.minters.read caller = true) .unauthorized
      t.ledger.mint account n) := by
  simp only [mint, Ledger.mint, Ledger.credit, map_bind, bind_assoc, map_pure, pure_bind]
  rfl

theorem ledger_burn (t : Stable) (caller : Address) (n : Amount) :
    ledger <$> t.burn caller n = t.ledger.burn caller n := by
  simp only [burn, Ledger.burn, Ledger.debit, map_bind, bind_assoc, map_pure, pure_bind]
  rfl

/-- A minter changes the books, and what is published of them. -/
theorem mint_spec (h : t.mint caller account n = .ok t') :
    ∃ l published, t.ledger.mint account n = .ok l ∧ t' = { t with ledger := l, published } := by
  obtain ⟨l, published, rfl⟩ := (mint_writes h).frame
  have hLedger := t.ledger_mint caller account n
  rw [h] at hLedger
  obtain ⟨_, -, hMint⟩ := Result.bind_eq_ok.1 hLedger.symm
  exact ⟨l, published, hMint, rfl⟩

theorem burn_spec (h : t.burn caller n = .ok t') :
    ∃ l published, t.ledger.burn caller n = .ok l ∧ t' = { t with ledger := l, published } := by
  obtain ⟨l, published, rfl⟩ := (burn_writes h).frame
  have hLedger := t.ledger_burn caller n
  rw [h] at hLedger
  exact ⟨l, published, hLedger.symm, rfl⟩

/-- The admin changes who may create units, and nothing else. -/
theorem setMinter_spec {allowed : Bool} (h : t.setMinter caller account allowed = .ok t') :
    t.admin = some caller ∧ ∃ minters, t' = { t with minters } := by
  simp only [setMinter, Result.bind_eq_ok, ensure_eq_ok] at h
  obtain ⟨_, hAdmin, ⟨⟩⟩ := h
  exact ⟨hAdmin, _, rfl⟩

end Stable

end Treasury.Token
