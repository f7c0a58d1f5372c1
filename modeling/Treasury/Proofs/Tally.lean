import Treasury.Proofs.Wiring

/-! What the record of a call says about the stable that the router of a treasury gets. The router
takes some itself, and pools pay it for shares while it withdraws; all else is given to it. -/
namespace Treasury

open Exec

/-- A call that has begun and not come to its end. -/
structure Call where
  caller : Address
  callee : Address
  entry : String
deriving DecidableEq, Repr

/-- What a record comes to: the calls that have begun and not come to their end, the last one first,
and how much stable the router has been given. -/
structure Tally where
  calls : List Call := []
  given : Nat := 0
deriving DecidableEq, Repr

namespace Wiring

variable (w : Wiring)

/-- Whether a pool is paying the router, which is withdrawing from it. -/
def paysOut (calls : List Call) : Bool :=
  calls.any fun call => call.caller = w.router && call.entry = "withdraw_from_strategy"

/-- Whether the router is taking stable itself. -/
def pulls (calls : List Call) : Bool :=
  calls.head?.any fun call => call.caller = w.router && call.entry = "transfer_from"

/-- A record goes on. What is credited to the router is given to it, unless it is taking it itself
or a pool is paying. -/
def note (t : Tally) : Mark → Tally
  | .entered caller callee entry => { t with calls := ⟨caller, callee, entry⟩ :: t.calls }
  | .left _ => { t with calls := t.calls.tail }
  | .credited token account amount =>
    if token = w.stable ∧ account = w.router ∧ w.pulls t.calls = false ∧ w.paysOut t.calls = false
    then { t with given := t.given + amount } else t

/-- What a record comes to. -/
def tally (marks : List Mark) : Tally := marks.foldl w.note {}

/-- How much stable the router is given in the course of a call. -/
def given (marks : List Mark) : Nat := (w.tally marks).given

variable {w} {marks : List Mark}

theorem tally_append (m : Mark) : w.tally (marks ++ [m]) = w.note (w.tally marks) m := by
  simp only [tally, List.foldl_append, List.foldl_cons, List.foldl_nil]

@[simp] theorem tally_entered {caller callee : Address} {entry : String} :
    w.tally (marks ++ [.entered caller callee entry]) =
      ⟨⟨caller, callee, entry⟩ :: (w.tally marks).calls, (w.tally marks).given⟩ :=
  tally_append _

@[simp] theorem tally_left {callee : Address} :
    w.tally (marks ++ [.left callee]) = ⟨(w.tally marks).calls.tail, (w.tally marks).given⟩ :=
  tally_append _

theorem tally_credited {token account : Address} {n : Amount} :
    w.tally (marks ++ [.credited token account n]) =
      ⟨(w.tally marks).calls, (w.tally marks).given +
        if token = w.stable ∧ account = w.router ∧ w.pulls (w.tally marks).calls = false ∧
          w.paysOut (w.tally marks).calls = false then n else 0⟩ := by
  rw [tally_append, note]
  split <;> rfl

end Wiring

/-- A call that credits nothing to anyone, whatever the wiring. All calls that it makes come to
their end. -/
def Exec.Silent {α : Type} (m : Exec α) : Prop :=
  ∀ (w : Wiring) (u : World), After m u fun _ v => w.tally v.marks = w.tally u.marks

namespace Exec

variable {α β σ : Type} [Storage σ]

theorem silent_pure (a : α) : Silent (pure a : Exec α) := fun _ _ => after_pure.2 rfl

theorem silent_throw (e : Fault) : Silent (throw e : Exec α) := fun _ _ => after_throw.2 trivial

theorem silent_view (view : View α) : Silent (liftM view : Exec α) :=
  fun _ _ => after_view.2 fun _ _ => rfl

theorem silent_result (r : Result α) : Silent (liftM r : Exec α) :=
  fun _ _ => after_result.2 fun _ _ => rfl

theorem silent_emit (self : Address) (event : Event) : Silent (emit self event) :=
  fun _ _ => after_emit.2 rfl

theorem silent_put (a : Address) (new : Contract) : Silent (put a new) :=
  fun _ _ => after_put.2 rfl

theorem silent_update (a : Address) (change : σ → Result σ) : Silent (update a change) :=
  fun _ _ => after_update.2 fun _ _ _ _ => rfl

theorem silent_bind {m : Exec α} {f : α → Exec β} (h : Silent m) (hThen : ∀ a, Silent (f a)) :
    Silent (m >>= f) :=
  fun w u => after_bind.2 ((h w u).mono fun a v hv => (hThen a w v).mono fun _ _ hx => hx.trans hv)

theorem silent_entering {caller callee : Address} {entry : String} {body : Exec α}
    (h : Silent body) : Silent (entering caller callee entry body) := by
  refine fun w u => after_entering.2 ((h w _).mono fun _ v hv => ?_)
  simp [hv]

theorem silent_amend {caller self : Address} {entry : String} {change : σ → Result σ} :
    Silent (amend caller self entry change) :=
  silent_entering (silent_bind (silent_view _) fun s =>
    silent_bind (silent_result (change s)) fun t => silent_put self (Storage.wrap t))

end Exec

theorem Router.silent_guarded {α : Type} {f : Frame} {entry : String}
    {body : Frame → State → Exec α} (h : ∀ f s, Silent (body f s)) :
    Silent (guarded f entry body) := by
  refine silent_entering (silent_bind (silent_view _) fun s => ?_)
  split
  · exact silent_throw _
  · exact h _ s

end Treasury
