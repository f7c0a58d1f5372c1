import Treasury.Proofs.Agreement
import Treasury.Proofs.Tally

/-! The fee ledger of a treasury in the middle of a call. The router's stable and what has become of
fees are explained by the fees kept back and by what the router was given. What they exceed that by
is followed through the moves of tokens: it grows while the router takes stable, falls while it
pays, and no one else can change it. -/
namespace Treasury

open Exec Chain

/-- What has become of the fees of the router at an address. -/
def Chain.fees (c : Chain) (a : Address) : Router.FeeStats := (c.routing a).fees

theorem Chain.Alike.fees {c c' : Chain} (h : Alike c c') (a : Address) : c'.fees a = c.fees a := by
  rw [Chain.fees, h.routing, Chain.fees]

theorem Chain.fees_of_map {c c' : Chain} {b : Address}
    (h : (c'.contract? b).map (fun x => x.routing.fees) =
      (c.contract? b).map fun x => x.routing.fees) : c'.fees b = c.fees b := by
  have hGet := congrArg (fun o => o.getD {}) h
  simpa only [fees, routing, ← Option.getD_map, Option.map_map, Function.comp_def] using hGet

theorem Chain.fees_put {c : Chain} {a : Address} {old new : Contract}
    (hOld : c.contract? a = some old) (hSame : new.routing.fees = old.routing.fees) (b : Address) :
    (c.put a new).fees b = c.fees b :=
  fees_of_map (map_put hOld hSame b)

namespace Wiring

/-- What the router holds and has spent of fees, less the fees kept back and what it was given. -/
def excess (w : Wiring) (u : World) : Int :=
  u.chain.balance w.stable w.router + (u.chain.fees w.router).reinvested +
    (u.chain.fees w.router).incentives - (u.chain.fees w.router).collected -
    (w.tally u.marks).given

/-- A part of a call adds to the excess, and all calls that it makes come to their end. -/
structure Shifts (w : Wiring) (d : Int) (u v : World) : Prop where
  calls : (w.tally v.marks).calls = (w.tally u.marks).calls
  excess : w.excess v = w.excess u + d

/-- The router has the same stable and the same fees. -/
structure Calm (w : Wiring) (c c' : Chain) : Prop where
  idle : c'.balance w.stable w.router = c.balance w.stable w.router
  fees : c'.fees w.router = c.fees w.router

/-- A pool is paying the router in the middle of this call. -/
def Paying (w : Wiring) (u : World) : Prop := w.paysOut (w.tally u.marks).calls = true

instance (w : Wiring) (u : World) : Decidable (w.Paying u) := by
  unfold Paying
  infer_instance

variable {w : Wiring} {u v x : World} {c c₁ c' : Chain} {d e : Int}

theorem Calm.refl (w : Wiring) (c : Chain) : w.Calm c c := ⟨rfl, rfl⟩

theorem Calm.trans (h : w.Calm c c₁) (h' : w.Calm c₁ c') : w.Calm c c' :=
  ⟨h'.idle.trans h.idle, h'.fees.trans h.fees⟩

theorem Calm.of_same (hBooks : c'.books? w.stable = c.books? w.stable)
    (hFees : c'.fees w.router = c.fees w.router) : w.Calm c c' :=
  ⟨by rw [balance, hBooks, balance], hFees⟩

/-- A contract is replaced by one that has the same to do with fees, if it has. -/
theorem calm_put {a : Address} {old new : Contract} (hOld : c.contract? a = some old)
    (hToken : a ≠ w.stable ∨ new.books? = old.books?)
    (hFees : new.routing.fees = old.routing.fees) : w.Calm c (c.put a new) := by
  refine .of_same ?_ (fees_put hOld hFees w.router)
  rw [books?_put hOld]
  split
  · next hAt =>
    rw [hToken.resolve_left fun hNe => hNe hAt.symm, hAt, books?_of_contract? hOld]
  · rfl

/-- A part of a call has nothing to do with the router's stable, nor with fees. -/
structure Still (w : Wiring) (u v : World) : Prop where
  calm : w.Calm u.chain v.chain
  tally : w.tally v.marks = w.tally u.marks

namespace Shifts

theorem refl (w : Wiring) (u : World) : w.Shifts 0 u u := ⟨rfl, (Int.add_zero _).symm⟩

theorem trans (h : w.Shifts d u v) (h' : w.Shifts e v x) : w.Shifts (d + e) u x :=
  ⟨h'.calls.trans h.calls, by rw [h'.excess, h.excess, Int.add_assoc]⟩

/-- What adds nothing may come first. -/
theorem after_none (h : w.Shifts d v x) (hFirst : w.Shifts 0 u v) : w.Shifts d u x := by
  have hBoth := hFirst.trans h
  rwa [Int.zero_add] at hBoth

/-- What adds nothing may follow. -/
theorem then_none (h : w.Shifts d u v) (hThen : w.Shifts 0 v x) : w.Shifts d u x := by
  have hBoth := h.trans hThen
  rwa [Int.add_zero] at hBoth

theorem of_eq (h : w.Shifts d u v) (hSame : d = e) : w.Shifts e u v := hSame ▸ h

/-- What is announced adds nothing. -/
theorem announced (h : w.Shifts d u v) (events : List (Address × Event)) :
    w.Shifts d u { v with events } :=
  ⟨h.calls, h.excess⟩

/-- What the router gets and what it gives away is told from its balance and its record. -/
theorem of_flows {got lost given : Nat} (hFees : v.chain.fees w.router = u.chain.fees w.router)
    (hIdle : v.chain.balance w.stable w.router + lost = u.chain.balance w.stable w.router + got)
    (hTally : w.tally v.marks =
      ⟨(w.tally u.marks).calls, (w.tally u.marks).given + given⟩) :
    w.Shifts (got - lost - given) u v := by
  refine ⟨by rw [hTally], ?_⟩
  rw [Wiring.excess, Wiring.excess, hFees, hTally]
  dsimp only
  omega

/-- What the router is given adds nothing. -/
theorem of_given {n : Nat} (hFees : v.chain.fees w.router = u.chain.fees w.router)
    (hIdle : v.chain.balance w.stable w.router = u.chain.balance w.stable w.router + n)
    (hTally : w.tally v.marks = ⟨(w.tally u.marks).calls, (w.tally u.marks).given + n⟩) :
    w.Shifts 0 u v := by
  have hFlows := of_flows hFees ((Nat.add_zero _).trans hIdle) hTally
  exact hFlows.of_eq (by omega)

/-- The marks around the body of an entry point add nothing. -/
theorem of_entered {caller callee : Address} {entry : String}
    (h : w.Shifts d { u with marks := u.marks ++ [.entered caller callee entry] } v) :
    w.Shifts d u { v with marks := v.marks ++ [.left callee] } := by
  refine ⟨?_, ?_⟩
  · rw [tally_left]
    dsimp only
    rw [h.calls, tally_entered, List.tail_cons]
  · have hExcess := h.excess
    simpa only [Wiring.excess, tally_left, tally_entered] using hExcess

theorem paying (h : w.Shifts d u v) : w.Paying v ↔ w.Paying u := by
  rw [Paying, h.calls, Paying]

end Shifts

namespace Still

theorem trans (h : w.Still u v) (h' : w.Still v x) : w.Still u x :=
  ⟨h.calm.trans h'.calm, h'.tally.trans h.tally⟩

theorem shifts (h : w.Still u v) : w.Shifts 0 u v := by
  refine ⟨by rw [h.tally], ?_⟩
  rw [Int.add_zero, Wiring.excess, Wiring.excess, h.calm.idle, h.calm.fees, h.tally]

theorem paying (h : w.Still u v) : w.Paying v ↔ w.Paying u := h.shifts.paying

/-- Nothing is announced to the ledger. -/
theorem announced (h : w.Still u v) (events : List (Address × Event)) :
    w.Still u { v with events } :=
  ⟨h.calm, h.tally⟩

theorem of_entered {caller callee : Address} {entry : String}
    (h : w.Still { u with marks := u.marks ++ [.entered caller callee entry] } v) :
    w.Still u { v with marks := v.marks ++ [.left callee] } := by
  refine ⟨h.calm, ?_⟩
  rw [tally_left, h.tally, tally_entered]
  rfl

end Still

/-- What is nothing to the ledger adds nothing. -/
theorem Still.after_shifts {α : Type} {m : Exec α} (h : After m u fun _ v => w.Still u v) :
    After m u fun _ v => w.Shifts 0 u v :=
  h.mono fun _ _ hDone => hDone.shifts

/-- The router gets stable for shares. -/
structure Receives (w : Wiring) (n : Nat) (u v : World) : Prop where
  shifts : w.Shifts n u v
  idle : v.chain.balance w.stable w.router = u.chain.balance w.stable w.router + n

namespace Receives

variable {n : Nat}

theorem after_still (h : w.Receives n v x) (hFirst : w.Still u v) : w.Receives n u x :=
  ⟨h.shifts.after_none hFirst.shifts, by rw [h.idle, hFirst.calm.idle]⟩

theorem then_still (h : w.Receives n u v) (hThen : w.Still v x) : w.Receives n u x :=
  ⟨h.shifts.then_none hThen.shifts, by rw [hThen.calm.idle, h.idle]⟩

theorem of_entered {caller callee : Address} {entry : String}
    (h : w.Receives n { u with marks := u.marks ++ [.entered caller callee entry] } v) :
    w.Receives n u { v with marks := v.marks ++ [.left callee] } :=
  ⟨h.shifts.of_entered, h.idle⟩

end Receives

/-- A body runs as part of an entry point that is no withdrawal of the router's. -/
theorem paying_entered {caller callee : Address} {entry : String}
    (h : caller ≠ w.router ∨ entry ≠ "withdraw_from_strategy") :
    w.Paying { u with marks := u.marks ++ [.entered caller callee entry] } ↔ w.Paying u := by
  rw [Paying, tally_entered, Paying, paysOut, List.any_cons]
  rcases h with hCaller | hEntry
  · simp [hCaller, paysOut]
  · simp [hEntry, paysOut]

theorem not_paying_entered (h : ¬w.Paying u) (caller callee : Address) {entry : String}
    (hEntry : entry ≠ "withdraw_from_strategy") :
    ¬w.Paying { u with marks := u.marks ++ [.entered caller callee entry] } :=
  mt (paying_entered (.inr hEntry)).1 h

/-- A token gives an amount of the giver's to the taker. -/
structure Sends (w : Wiring) (giver t taker : Address) (n : Amount) (u v : World) : Prop where
  move : u.chain.Moves t (.transfer giver taker n) v.chain
  tally : w.tally v.marks = ⟨(w.tally u.marks).calls, (w.tally u.marks).given +
    if t = w.stable ∧ taker = w.router ∧ ¬w.Paying u then n else 0⟩

/-- A token gives an amount of the owner's to the taker, as the spender is allowed to have it do. -/
structure Collects (w : Wiring) (spender t owner taker : Address) (n : Amount) (u v : World) :
    Prop where
  move : u.chain.Moves t (.transferFrom spender owner taker n) v.chain
  tally : w.tally v.marks = ⟨(w.tally u.marks).calls, (w.tally u.marks).given +
    if t = w.stable ∧ taker = w.router ∧ spender ≠ w.router ∧ ¬w.Paying u then n else 0⟩

section Token

variable {giver spender t owner taker : Address} {n : Amount}

theorem after_transfer_sends (w : Wiring) :
    After (Token.transfer giver t taker n) u fun _ v => w.Sends giver t taker n u v := by
  simp only [Token.transfer, after_entering, after_bind, after_mark]
  refine Token.after_keep (.transfer giver taker n) fun c' hMove => ⟨hMove, ?_⟩
  rw [tally_left, tally_credited, tally_entered]
  simp [pulls, Paying, paysOut]

theorem after_transferFrom_collects (w : Wiring) :
    After (Token.transferFrom spender t owner taker n) u fun _ v =>
      w.Collects spender t owner taker n u v := by
  simp only [Token.transferFrom, after_entering, after_bind, after_mark]
  refine Token.after_keep (.transferFrom spender owner taker n) fun c' hMove => ⟨hMove, ?_⟩
  rw [tally_left, tally_credited, tally_entered]
  simp [pulls, Paying, paysOut]

/-- An allowance changes neither balances nor fees. -/
theorem after_approve_still (w : Wiring) :
    After (Token.approve owner t spender n) u fun _ v =>
      u.chain.Moves t (.approve owner spender n) v.chain ∧ w.Still u v := by
  simp only [Token.approve, after_entering]
  refine Token.after_keep (.approve owner spender n) fun c' hMove => ?_
  have hCalm : w.Calm u.chain c' := ⟨hMove.balance_approve _ _, hMove.alike.fees _⟩
  exact ⟨hMove, hCalm, by rw [tally_left, tally_entered]; rfl⟩

/-- What a transfer adds to the excess. -/
theorem Sends.shifts (h : w.Sends giver t taker n u v) :
    w.Shifts ((if t = w.stable ∧ taker = w.router ∧ w.Paying u then n else 0 : Nat) -
      (if t = w.stable ∧ giver = w.router then n else 0 : Nat)) u v := by
  have hIdle := h.move.balance_transfer w.stable w.router
  have hShifts := Shifts.of_flows (h.move.alike.fees _) hIdle h.tally
  refine ⟨hShifts.calls, hShifts.excess.trans ?_⟩
  simp only [eq_comm (a := w.stable), eq_comm (a := w.router)]
  split <;> split <;> split <;> split <;> simp_all

/-- What the use of an allowance adds to the excess. -/
theorem Collects.shifts (h : w.Collects spender t owner taker n u v) :
    w.Shifts ((if t = w.stable ∧ taker = w.router ∧ (spender = w.router ∨ w.Paying u) then n
      else 0 : Nat) - (if t = w.stable ∧ owner = w.router then n else 0 : Nat)) u v := by
  have hIdle := h.move.balance_transferFrom w.stable w.router
  have hShifts := Shifts.of_flows (h.move.alike.fees _) hIdle h.tally
  refine ⟨hShifts.calls, hShifts.excess.trans ?_⟩
  simp only [eq_comm (a := w.stable), eq_comm (a := w.router)]
  split <;> split <;> split <;> split <;> simp_all

/-- Nobody but the router gives its stable away. -/
theorem Sends.shifts_none (h : w.Sends giver t taker n u v) (hGiver : giver ≠ w.router)
    (hPaying : ¬w.Paying u) : w.Shifts 0 u v := by
  simpa [hGiver, hPaying] using h.shifts

/-- The router pays. Whether it pays itself makes no difference. -/
theorem Sends.shifts_paid (h : w.Sends w.router w.stable taker n u v) (hPaying : ¬w.Paying u) :
    w.Shifts (-n) u v := by
  simpa [hPaying] using h.shifts

/-- A pool pays the router for shares. -/
theorem Sends.receives (h : w.Sends giver t w.router n u v) (hGiver : giver ≠ w.router)
    (hPaying : w.Paying u) : ∃ m, w.Receives m u v := by
  refine ⟨if t = w.stable then n else 0, ?_, ?_⟩
  · simpa [hGiver, hPaying] using h.shifts
  · have hIdle := h.move.balance_transfer w.stable w.router
    simpa [hGiver.symm, eq_comm] using hIdle

/-- Other tokens do not matter. -/
theorem Sends.still (h : w.Sends giver t taker n u v) (hToken : t ≠ w.stable) : w.Still u v := by
  refine ⟨⟨?_, h.move.alike.fees _⟩, by simpa [hToken] using h.tally⟩
  simpa [hToken.symm] using h.move.balance_transfer w.stable w.router

theorem Collects.still (h : w.Collects spender t owner taker n u v) (hToken : t ≠ w.stable) :
    w.Still u v := by
  refine ⟨⟨?_, h.move.alike.fees _⟩, by simpa [hToken] using h.tally⟩
  simpa [hToken.symm] using h.move.balance_transferFrom w.stable w.router

/-- The router takes stable of somebody else's. -/
theorem Collects.shifts_pulled (h : w.Collects w.router w.stable owner w.router n u v)
    (hOwner : owner ≠ w.router) : w.Shifts n u v := by
  simpa [hOwner] using h.shifts

/-- What it costs the router if a payer is charged in stable. -/
def cost (w : Wiring) (payer : Address) (n : Amount) : Int := if payer = w.router then -n else 0

/-- Somebody else takes an amount. That matters only if it is the router's. -/
theorem Collects.shifts_charged (h : w.Collects spender t owner taker n u v)
    (hSpender : spender ≠ w.router) (hPaying : ¬w.Paying u)
    (hToken : owner = w.router → t = w.stable) : w.Shifts (w.cost owner n) u v := by
  have hShifts := h.shifts
  unfold cost
  by_cases hOwner : owner = w.router
  · simpa [hSpender, hPaying, hOwner, hToken hOwner] using hShifts
  · simpa [hSpender, hPaying, hOwner] using hShifts

/-- Others use the allowances of others. -/
theorem Collects.shifts_none (h : w.Collects spender t owner taker n u v)
    (hSpender : spender ≠ w.router) (hOwner : owner ≠ w.router) (hPaying : ¬w.Paying u) :
    w.Shifts 0 u v := by
  simpa [hSpender, hOwner, hPaying] using h.shifts

end Token

end Wiring

end Treasury
