import Treasury.Contract

/-! The chain: the contracts that stand on it, by address. A view is a question about the chain that
may end with a fault and changes nothing. -/
namespace Treasury

/-- All contracts with their addresses, in the order of deployment. -/
structure Chain where
  contracts : List (Address × Contract) := []
  /-- How many contract numbers have been used. A failed deployment uses one too. -/
  numbered : Nat := 0
  /-- Contracts that were deployed without running their constructor. -/
  blank : List Address := []

namespace Chain

/-- The contract at an address. -/
def contract? (c : Chain) (a : Address) : Option Contract := c.contracts.lookup a

/-- Replace the contract at an address that has one. -/
def put (c : Chain) (a : Address) (new : Contract) : Chain :=
  { c with contracts := c.contracts.map fun entry => if entry.1 = a then (a, new) else entry }

/-- Replacing the contract at one address is seen at that address only. -/
theorem contract?_put (c : Chain) (a b : Address) (new : Contract) :
    (c.put a new).contract? b =
      if b = a then (c.contract? b).map fun _ => new else c.contract? b := by
  unfold contract? put
  induction c.contracts with
  | nil => simp
  | cons entry rest ih =>
    obtain ⟨key, old⟩ := entry
    simp only [List.map_cons]
    by_cases hKey : b = key
    · subst hKey
      by_cases h : b = a
      · subst h; simp
      · simp [h]
    · have hNe : (b == key) = false := beq_false_of_ne hKey
      by_cases h : key = a
      · subst h
        simp only [if_true, List.lookup_cons, hNe, ih]
      · simp only [h, if_false, List.lookup_cons, hNe, ih]

@[simp] theorem contract?_put_of_ne (c : Chain) {a b : Address} (new : Contract) (h : b ≠ a) :
    (c.put a new).contract? b = c.contract? b := by simp [contract?_put, h]

theorem contract?_put_self {c : Chain} {a : Address} {old : Contract} (new : Contract)
    (h : c.contract? a = some old) : (c.put a new).contract? a = some new := by
  simp [contract?_put, h]

end Chain

/-- A question about the chain. -/
abbrev View := ReaderT Chain Result

namespace View

/-- The contract at an address. -/
def contract (a : Address) : View Contract := fun c =>
  match c.contract? a with
  | some found => .ok found
  | none => .error .invalidContractAddress

/-- The books of the contract at `a`, asked for by the entry point `entry`. -/
def books (entry : String) (a : Address) : View Token.Ledger := do
  match (← contract a).books? with
  | some ledger => pure ledger
  | none => throw (.noSuchMethod entry)

variable {σ : Type} [Storage σ]

/-- The storage of the contract at `a`. A contract of another kind leads to the fault `wrong`. -/
def storage (wrong : Fault) (a : Address) : View σ := do
  match Storage.pick (← contract a) with
  | some s => pure s
  | none => throw wrong

/-- The storage of the contract at `a`, which is called at the entry point `entry`. A contract of
another kind has no such entry point. -/
def callee (entry : String) (a : Address) : View σ := storage (.noSuchMethod entry) a

/-- The storage of the contract at `a` in the middle of a call that has found its kind. -/
def load (a : Address) : View σ := storage .invalidContractAddress a

variable {α β : Type}

theorem bind_apply (x : View α) (f : α → View β) (c : Chain) :
    (x >>= f) c = (x c >>= fun a => f a c) := rfl

@[simp] theorem pure_apply (a : α) (c : Chain) : (pure a : View α) c = .ok a := rfl

@[simp] theorem throw_apply (e : Fault) (c : Chain) : (throw e : View α) c = .error e := rfl

@[simp] theorem lift_apply (r : Result α) (c : Chain) : (liftM r : View α) c = r := rfl

theorem bind_eq_ok {x : View α} {f : α → View β} {c : Chain} {b : β} :
    (x >>= f) c = .ok b ↔ ∃ a, x c = .ok a ∧ f a c = .ok b := Result.bind_eq_ok

@[simp] theorem contract_eq_ok {a : Address} {c : Chain} {found : Contract} :
    contract a c = .ok found ↔ c.contract? a = some found := by
  unfold contract
  cases c.contract? a <;> simp

@[simp] theorem storage_eq_ok {wrong : Fault} {a : Address} {c : Chain} {s : σ} :
    storage wrong a c = .ok s ↔ c.contract? a = some (Storage.wrap s) := by
  unfold storage
  rw [bind_eq_ok]
  constructor
  · rintro ⟨found, hFound, hPick⟩
    cases h : Storage.pick (σ := σ) found with
    | none => simp [h] at hPick
    | some t =>
      simp only [h, pure_apply, Except.ok.injEq] at hPick
      rw [← hPick, ← (Storage.pick_eq_some_iff found t).1 h]
      exact contract_eq_ok.1 hFound
  · intro h
    exact ⟨Storage.wrap s, contract_eq_ok.2 h, by simp⟩

@[simp] theorem callee_eq_ok {entry : String} {a : Address} {c : Chain} {s : σ} :
    callee entry a c = .ok s ↔ c.contract? a = some (Storage.wrap s) := storage_eq_ok

@[simp] theorem load_eq_ok {a : Address} {c : Chain} {s : σ} :
    load a c = .ok s ↔ c.contract? a = some (Storage.wrap s) := storage_eq_ok

end View

end Treasury
