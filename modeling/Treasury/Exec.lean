import Treasury.Chain
import Treasury.Event

/-! Calls that change the chain. A call runs on the chain and keeps a record: what contracts
announce, which calls that may change storage begin and end, and what tokens credit to whom. A call
that ends with a fault has no record and no effect, since nothing but the fault is left of it. -/
namespace Treasury

/-- A moment of a call. -/
inductive Mark where
  /-- A contract is called at an entry point that may change storage. -/
  | entered (caller callee : Address) (entry : String)
  /-- The call of a contract that began last and has not ended comes to its end. -/
  | left (callee : Address)
  /-- A token credits an amount to an account. -/
  | credited (token account : Address) (amount : Amount)
deriving DecidableEq, Repr

/-- The chain during an outermost call, with the record of the call so far. -/
structure World where
  chain : Chain
  /-- What was announced, with the contract that announced it. -/
  events : List (Address × Event) := []
  /-- What the call was made of so far. -/
  marks : List Mark := []

/-- A computation on the world that may end with a fault. -/
abbrev Exec := StateT World Result

/-- Views can be asked in the middle of a call. -/
instance (priority := low) : MonadLift View Exec where
  monadLift view := fun w => do pure (← view w.chain, w)

namespace Exec

/-- Announce an event. -/
def emit (self : Address) (event : Event) : Exec Unit :=
  modify fun w => { w with events := w.events ++ [(self, event)] }

/-- Record a moment of the call. -/
def mark (m : Mark) : Exec Unit := modify fun w => { w with marks := w.marks ++ [m] }

/-- Run the body of an entry point, with marks around it. -/
def entering {α : Type} (caller callee : Address) (entry : String) (body : Exec α) : Exec α := do
  mark (.entered caller callee entry)
  let result ← body
  mark (.left callee)
  pure result

/-- Replace the contract at an address. -/
def put (a : Address) (new : Contract) : Exec Unit :=
  modify fun w => { w with chain := w.chain.put a new }

/-- Change the storage of the contract at an address. -/
def update {σ : Type} [Storage σ] (a : Address) (change : σ → Result σ) : Exec Unit := do
  let s ← View.load a
  put a (Storage.wrap (← change s))

/-- An entry point that does nothing but change the storage of its contract. -/
def amend {σ : Type} [Storage σ] (caller self : Address) (entry : String)
    (change : σ → Result σ) : Exec Unit :=
  entering caller self entry do
    let s ← View.callee entry self
    put self (Storage.wrap (← change s))

variable {α β σ : Type} [Storage σ] {w v : World}

@[simp] theorem run_view (view : View α) (w : World) :
    (liftM view : Exec α).run w = (fun a => (a, w)) <$> view w.chain := by
  change (view w.chain >>= fun a => pure (a, w)) = _
  cases view w.chain <;> rfl

@[simp] theorem run_result (r : Result α) (w : World) :
    (liftM r : Exec α).run w = (fun a => (a, w)) <$> r := by
  change (r >>= fun a => pure (a, w)) = _
  cases r <;> rfl

@[simp] theorem run_throw (e : Fault) (w : World) : (throw e : Exec α).run w = .error e := rfl

@[simp] theorem run_emit (self : Address) (event : Event) (w : World) :
    (emit self event).run w = .ok ((), { w with events := w.events ++ [(self, event)] }) := rfl

@[simp] theorem run_mark (m : Mark) (w : World) :
    (mark m).run w = .ok ((), { w with marks := w.marks ++ [m] }) := rfl

@[simp] theorem run_put (a : Address) (new : Contract) (w : World) :
    (put a new).run w = .ok ((), { w with chain := w.chain.put a new }) := rfl

theorem bind_eq_ok {x : Exec α} {f : α → Exec β} {b : β} :
    (x >>= f).run w = .ok (b, v) ↔ ∃ a u, x.run w = .ok (a, u) ∧ (f a).run u = .ok (b, v) := by
  rw [StateT.run_bind, Result.bind_eq_ok]
  exact ⟨fun ⟨⟨a, u⟩, h⟩ => ⟨a, u, h⟩, fun ⟨a, u, h⟩ => ⟨(a, u), h⟩⟩

/-- A body that ends with a value does so between its two marks. -/
theorem entering_eq_ok {caller callee : Address} {entry : String} {body : Exec α} {a : α} :
    (entering caller callee entry body).run w = .ok (a, v) ↔
      ∃ u, body.run { w with marks := w.marks ++ [.entered caller callee entry] } = .ok (a, u) ∧
        { u with marks := u.marks ++ [.left callee] } = v := by
  simp only [entering, bind_eq_ok, run_mark, Except.ok.injEq, Prod.mk.injEq, true_and]
  constructor
  · rintro ⟨_, _, rfl, b, u, hBody, _, _, rfl, hv⟩
    cases hv
    exact ⟨u, hBody, rfl⟩
  · rintro ⟨u, hBody, rfl⟩
    exact ⟨(), _, rfl, a, u, hBody, (), _, rfl, rfl⟩

/-- A change of storage ends with a value if it finds the storage and the change does. -/
theorem update_eq_ok {a : Address} {change : σ → Result σ} :
    (update a change).run w = .ok ((), v) ↔
      ∃ s t, w.chain.contract? a = some (Storage.wrap s) ∧ change s = .ok t ∧
        { w with chain := w.chain.put a (Storage.wrap t) } = v := by
  simp only [update, bind_eq_ok, run_view, run_result, run_put, Result.map_eq_ok,
    View.load_eq_ok, Prod.mk.injEq, Except.ok.injEq, true_and]
  constructor
  · rintro ⟨_, _, ⟨s, hs, rfl, rfl⟩, _, _, ⟨t, ht, rfl, rfl⟩, rfl⟩
    exact ⟨s, t, hs, ht, rfl⟩
  · rintro ⟨s, t, hs, ht, rfl⟩
    exact ⟨s, w, ⟨s, hs, rfl, rfl⟩, t, w, ⟨t, ht, rfl, rfl⟩, rfl⟩

end Exec

end Treasury
