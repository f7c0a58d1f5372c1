import Treasury.Proofs.Additive
import Treasury.Proofs.Fails
import Treasury.Proofs.LedgerSums

/-! Why moves of tokens fail. A move fails for want of an allowance or of a balance, or because an
amount leaves its range, which cannot happen while books add up. -/
namespace Treasury

open Exec Chain

theorem known_eq_error {α : Type} {collaborator : Option α} {e : Fault}
    (h : known collaborator = .error e) : e = .refused .notInitialized := by
  cases collaborator <;> cases h
  rfl

theorem Amount.mulDiv_eq_error {a b c : Amount} {e : Fault} (h : mulDiv a b c = .error e) :
    e = .overflow ∨ e = .divisionByZero := by
  rcases Result.bind_eq_error.1 h with hMul | ⟨_, -, hDiv⟩
  · simp only [mul, checked] at hMul
    split at hMul <;> cases hMul
    exact .inl rfl
  · simp only [div] at hDiv
    split at hDiv <;> cases hDiv
    exact .inr rfl

namespace View

variable {c : Chain} {a : Address} {e : Fault}

theorem contract_eq_error (h : contract a c = .error e) : e = .invalidContractAddress := by
  simp only [contract] at h
  split at h <;> cases h
  rfl

theorem storage_eq_error {σ : Type} [Storage σ] {wrong : Fault}
    (h : (storage wrong a : View σ) c = .error e) : e = .invalidContractAddress ∨ e = wrong := by
  rcases Result.bind_eq_error.1 h with hContract | ⟨x, -, hPick⟩
  · exact .inl (contract_eq_error hContract)
  · cases hStorage : Storage.pick (σ := σ) x <;> simp only [hStorage] at hPick <;> cases hPick
    exact .inr rfl

theorem books_eq_error {entry : String} (h : books entry a c = .error e) :
    e = .invalidContractAddress ∨ e = .noSuchMethod entry := by
  rcases Result.bind_eq_error.1 h with hContract | ⟨x, -, hBooks⟩
  · exact .inl (contract_eq_error hContract)
  · cases hLedger : x.books? <;> simp only [hLedger] at hBooks <;> cases hBooks
    exact .inr rfl

end View

namespace Token

theorem balanceOf_eq_error {c : Chain} {t a : Address} {e : Fault}
    (h : balanceOf t a c = .error e) :
    e = .invalidContractAddress ∨ e = .noSuchMethod "balance_of" := by
  rcases Result.bind_eq_error.1 h with hBooks | ⟨_, -, hEnd⟩
  · exact View.books_eq_error hBooks
  · cases hEnd

/-- The faults with which a ledger turns a move down. -/
def faults : List Fault :=
  [.refused .insufficientAllowance, .refused .insufficientBalance, .overflow]

namespace Ledger

variable {l : Ledger} {giver taker owner spender self account : Address} {n : Amount} {e : Fault}

theorem debit_eq_error :
    l.debit account n = .error e ↔
      l.balanceOf account < n ∧ e = .refused .insufficientBalance := by
  simp only [debit, Result.bind_eq_error, ensure_eq_error, Nat.not_le]
  constructor
  · rintro (h | ⟨_, _, h⟩)
    · exact h
    · cases h
  · exact .inl

theorem credit_eq_error :
    l.credit account n = .error e ↔ Amount.bound ≤ l.balanceOf account + n ∧ e = .overflow := by
  simp only [credit, Amount.add, Amount.checked, Result.bind_eq_error]
  constructor
  · rintro (h | ⟨_, _, h⟩)
    · split at h <;> cases h
      next hNot => exact ⟨Nat.le_of_not_lt hNot, rfl⟩
    · cases h
  · rintro ⟨hOut, rfl⟩
    rw [if_neg (Nat.not_lt.2 hOut)]
    exact .inl rfl

theorem spendAllowance_eq_error :
    l.spendAllowance owner spender n = .error e ↔
      l.allowance owner spender < n ∧ e = .refused .insufficientAllowance := by
  simp only [spendAllowance, Result.bind_eq_error, ensure_eq_error, Nat.not_le]
  constructor
  · rintro (h | ⟨_, _, h⟩)
    · exact h
    · cases h
  · exact .inl

theorem transfer_faults (h : l.transfer giver taker n = .error e) : e ∈ faults := by
  rcases Result.bind_eq_error.1 h with hDebit | ⟨debited, -, hCredit⟩
  · obtain ⟨-, rfl⟩ := debit_eq_error.1 hDebit
    simp [faults]
  · obtain ⟨-, rfl⟩ := credit_eq_error.1 hCredit
    simp [faults]

theorem takeShares_faults (h : Strategy.takeShares self owner n l = .error e) : e ∈ faults := by
  rcases Result.bind_eq_error.1 h with hSpend | ⟨spent, -, hBurn⟩
  · obtain ⟨-, rfl⟩ := spendAllowance_eq_error.1 hSpend
    simp [faults]
  · rcases Result.bind_eq_error.1 hBurn with hDebit | ⟨debited, -, hRest⟩
    · obtain ⟨-, rfl⟩ := debit_eq_error.1 hDebit
      simp [faults]
    · rcases Result.bind_eq_error.1 hRest with hSub | ⟨_, -, hEnd⟩
      · simp only [Amount.sub] at hSub
        split at hSub <;> cases hSub
        simp [faults]
      · cases hEnd

end Ledger

namespace Move

variable {t : Stable} {m : Move} {e : Fault}

/-- The stable token turns down what its ledger does. -/
theorem onStable_eq_error : m.onStable t = .error e ↔ m.onLedger t.ledger = .error e := by
  rw [← ledger_onStable]
  cases m.onStable t <;> simp [Functor.map, Except.map]

end Move

end Token

open Token (Move Ledger)

/-- A token turns down what its ledger does. -/
theorem Contract.keepBooks_eq_error {m : Move} {x : Contract} {e : Fault}
    (h : x.keepBooks m.onStable m.onLedger = some (.error e)) :
    ∃ l, x.books? = some l ∧ m.onLedger l = .error e := by
  cases x with
  | stable t =>
    simp only [keepBooks, Option.some.injEq] at h
    rcases Result.bind_eq_error.1 h with hMove | ⟨_, -, hEnd⟩
    · exact ⟨_, rfl, Move.onStable_eq_error.1 hMove⟩
    · cases hEnd
  | share t | yieldVault t | fixedRate t | synthetic t =>
    simp only [keepBooks, Option.some.injEq] at h
    rcases Result.bind_eq_error.1 h with hMove | ⟨_, -, hEnd⟩
    · exact ⟨_, rfl, hMove⟩
    · cases hEnd
  | wrapped | custody | router | registry | roles | ledger => simp [keepBooks] at h

/-- A contract whose books cannot be moved has none, or is a ledger that stands by itself. -/
theorem Contract.of_keepBooks_eq_none {m : Move} {x : Contract}
    (h : x.keepBooks m.onStable m.onLedger = none) : x.books? = none ∨ x.kind = .ledger := by
  cases x with
  | stable | share | yieldVault | fixedRate | synthetic => cases h
  | wrapped | custody | router | registry | roles => exact .inl rfl
  | ledger => exact .inr rfl

/-- No token stands at an address. -/
def Chain.Tokenless (c : Chain) (t : Address) : Prop :=
  c.books? t = none ∨ c.kind? t = some .ledger

namespace Token

variable {c : Chain} {token caller owner taker spender : Address} {n : Amount} {e : Fault}

/-- A token fails to make a move because there is no token, or because its books turn it down. -/
theorem fails_keep {entry : String} {m : Move}
    (h : Fails (keep token entry m.onStable m.onLedger) c e) :
    ((e = .invalidContractAddress ∨ e = .noSuchMethod entry) ∧ c.Tokenless token) ∨
      ∃ l, c.books? token = some l ∧ m.onLedger l = .error e := by
  simp only [keep, fails_view_bind] at h
  rcases h with hFault | ⟨x, hx, h⟩
  · refine .inl ⟨.inl (View.contract_eq_error hFault), .inl ?_⟩
    cases hx : c.contract? token with
    | none => rw [books?, hx, Option.bind_none]
    | some x =>
      rw [View.contract_eq_ok.2 hx] at hFault
      cases hFault
  · rw [View.contract_eq_ok] at hx
    split at h
    · next changed hKeep =>
      simp only [fails_result_bind, fails_put, and_false, exists_false, or_false] at h
      obtain ⟨l, hl, hMove⟩ := Contract.keepBooks_eq_error (h ▸ hKeep)
      exact .inr ⟨l, (books?_of_contract? hx).trans hl, hMove⟩
    · next hKeep =>
      refine .inl ⟨.inr (fails_throw.1 h).symm, ?_⟩
      exact (Contract.of_keepBooks_eq_none hKeep).imp (books?_of_contract? hx).trans
        fun hLedger => by rw [kind?_of_contract? hx, hLedger]

theorem fails_transfer (h : Fails (transfer caller token taker n) c e) :
    ((e = .invalidContractAddress ∨ e = .noSuchMethod "transfer") ∧ c.Tokenless token) ∨
      ∃ l, c.books? token = some l ∧ l.transfer caller taker n = .error e := by
  simp only [transfer, fails_entering, fails_bind, fails_mark, and_false, exists_false,
    or_false] at h
  exact fails_keep (m := .transfer caller taker n) h

theorem fails_transferFrom (h : Fails (transferFrom caller token owner taker n) c e) :
    ((e = .invalidContractAddress ∨ e = .noSuchMethod "transfer_from") ∧ c.Tokenless token) ∨
      ∃ l, c.books? token = some l ∧ l.transferFrom caller owner taker n = .error e := by
  simp only [transferFrom, fails_entering, fails_bind, fails_mark, and_false, exists_false,
    or_false] at h
  exact fails_keep (m := .transferFrom caller owner taker n) h

end Token

end Treasury
