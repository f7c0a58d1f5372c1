import Treasury.Proofs.Conversion

/-! Conservation of value. What a call does to all managed value is accounted for: what is taken in
from users, what is paid out, and what rounding loses. -/
namespace Treasury

open Exec Chain

namespace Wiring

/-- All managed value has changed by what was taken less what was paid, but for a loss. -/
structure Conserves (w : Wiring) (pools : List Address) (taken paid loss : Nat)
    (c c' : Chain) : Prop where
  steady : w.Steady c c'
  upper : w.managed c' pools + paid ≤ w.managed c pools + taken
  lower : w.managed c pools + taken ≤ w.managed c' pools + paid + loss

variable {w : Wiring} {user : Address} {c c₁ c' : Chain} {pools : List Address} {q : Custody}
  {taken paid loss taken' paid' loss' n : Nat}

theorem Conserves.refl (w : Wiring) (pools : List Address) (c : Chain) :
    w.Conserves pools 0 0 0 c c :=
  ⟨.refl w c, Nat.le_refl _, Nat.le_refl _⟩

theorem Conserves.trans (h : w.Conserves pools taken paid loss c c₁)
    (h' : w.Conserves pools taken' paid' loss' c₁ c') :
    w.Conserves pools (taken + taken') (paid + paid') (loss + loss') c c' := by
  have hUpper := h.upper
  have hLower := h.lower
  have hUpper' := h'.upper
  have hLower' := h'.lower
  refine ⟨h.steady.trans h'.steady, ?_, ?_⟩ <;> omega

/-- Nothing is taken, paid or lost any more. -/
theorem Conserves.then_same (h : w.Conserves pools taken paid loss c c₁)
    (h' : w.Conserves pools 0 0 0 c₁ c') : w.Conserves pools taken paid loss c c' :=
  h.trans h'

theorem Converts.conserves (h : w.Converts user pools loss c c') :
    w.Conserves pools 0 0 loss c c' :=
  ⟨.of_alike h.trade.alike, h.upper, h.lower⟩

/-- What has been taken or paid without a loss is converted at a loss. -/
theorem Conserves.then_converts (h : w.Conserves pools taken paid 0 c c₁)
    (h' : w.Converts user pools loss c₁ c') : w.Conserves pools taken paid loss c c' := by
  have hBoth := h.trans h'.conserves
  simp only [Nat.zero_add, Nat.add_zero] at hBoth
  exact hBoth

/-- What has been converted at a loss is paid out of. -/
theorem Converts.then_pays (h : w.Converts user pools loss c c₁)
    (h' : w.Conserves pools 0 paid 0 c₁ c') : w.Conserves pools 0 paid loss c c' := by
  have hBoth := h.conserves.trans h'
  simp only [Nat.zero_add, Nat.add_zero] at hBoth
  exact hBoth

/-- Where custody holds the same shares, only the router's own stable can make a difference. -/
theorem counted_of_balances (hSteady : w.Steady c c')
    (h : ∀ p ∈ pools, c'.balance p w.custody = c.balance p w.custody) :
    w.counted c' pools = w.counted c pools := by
  apply counted_congr
  intro p hp
  rw [worth, worth, h p hp, hSteady.rates]

/-- The router takes stable from an owner. -/
theorem Fixed.conserves_take (h : w.Fixed c q) {owner : Address} {n : Amount}
    (hOwner : owner ≠ w.router)
    (hMove : c.Moves w.stable (.transferFrom w.router owner w.router n) c') :
    w.Conserves q.supported.toList n 0 0 c c' ∧
      c'.balance w.stable owner + n = c.balance w.stable owner := by
  have hSteady : w.Steady c c' := .of_alike hMove.alike
  have hHeld : ∀ p ∈ q.supported.toList, c'.balance p w.custody = c.balance p w.custody := by
    intro p hp
    have hBalance := hMove.balance_transferFrom p w.custody
    have hToken := h.stable_ne (h.supported.mem_toList.1 hp)
    simpa only [hToken, false_and, if_false, Nat.add_zero] using hBalance
  have hCounted := counted_of_balances hSteady hHeld
  have hRouter := hMove.balance_transferFrom w.stable w.router
  have hPayer := hMove.balance_transferFrom w.stable owner
  rw [if_neg fun h => hOwner h.2.symm, if_pos ⟨rfl, rfl⟩, Nat.add_zero] at hRouter
  rw [if_pos ⟨rfl, rfl⟩, if_neg fun h => hOwner h.2, Nat.add_zero] at hPayer
  refine ⟨⟨hSteady, ?_, ?_⟩, hPayer⟩
  · rw [managed, managed, hCounted, hRouter]
    omega
  · rw [managed, managed, hCounted, hRouter]
    omega

/-- The router pays stable to a receiver. -/
theorem Fixed.conserves_pay (h : w.Fixed c q) {receiver : Address} {n : Amount}
    (hReceiver : receiver ≠ w.router)
    (hMove : c.Moves w.stable (.transfer w.router receiver n) c') :
    w.Conserves q.supported.toList 0 n 0 c c' ∧ w.Draws q.supported.toList c c' := by
  have hSteady : w.Steady c c' := .of_alike hMove.alike
  have hHeld : ∀ p ∈ q.supported.toList, c'.balance p w.custody = c.balance p w.custody := by
    intro p hp
    have hBalance := hMove.balance_transfer p w.custody
    have hToken := h.stable_ne (h.supported.mem_toList.1 hp)
    simpa only [hToken, false_and, if_false, Nat.add_zero] using hBalance
  have hCounted := counted_of_balances hSteady hHeld
  have hRouter := hMove.balance_transfer w.stable w.router
  rw [if_pos ⟨rfl, rfl⟩, if_neg fun h => hReceiver h.2.symm, Nat.add_zero] at hRouter
  refine ⟨⟨hSteady, ?_, ?_⟩, fun p hp => Nat.le_of_eq (hHeld p hp)⟩
  · rw [managed, managed, hCounted, ← hRouter]
    omega
  · rw [managed, managed, hCounted, ← hRouter]
    omega

/-- A share token or a router changes in what value does not depend on. -/
theorem Fixed.conserves_put (h : w.Fixed c q) {a : Address} {old : Contract} (new : Contract)
    (hOld : c.contract? a = some old) (hFace : new.face = old.face)
    (hKind : old.kind = .share ∨ old.kind = .router) :
    w.Conserves q.supported.toList 0 0 0 c (c.put a new) ∧
      w.Draws q.supported.toList c (c.put a new) ∧
        ∀ x, (c.put a new).balance w.stable x = c.balance w.stable x := by
  have hSameKind : new.kind = old.kind := congrArg Prod.fst hFace
  have hRate : new.rate = old.rate := by
    rcases hKind with hShare | hRouter
    · rw [hShare] at hSameKind
      cases old <;> cases hShare
      cases new <;> cases hSameKind
      rfl
    · rw [hRouter] at hSameKind
      cases old <;> cases hRouter
      cases new <;> cases hSameKind
      rfl
  have hSteady : w.Steady c (c.put a new) := by
    refine .of_put hOld hFace hRate ?_
    rcases hKind with hShare | hRouter <;> simp [*]
  have hToken : ∀ t, c.kind? t = some .stable ∨ c.kind? t = some .fixedRate →
      ∀ x, (c.put a new).balance t x = c.balance t x := by
    intro t ht x
    have hNe : t ≠ a := by
      rintro rfl
      rw [kind?_of_contract? hOld] at ht
      rcases hKind with hShare | hRouter <;> simp [*] at ht
    rw [balance, books?_put hOld, if_neg hNe, balance]
  have hStable : c.kind? w.stable = some .stable := by
    obtain ⟨t, ht⟩ := h.complete.stable
    exact kind?_of_contract? ht
  have hHeld : ∀ p ∈ q.supported.toList,
      (c.put a new).balance p w.custody = c.balance p w.custody := by
    intro p hp
    obtain ⟨-, s, hs⟩ := h.pools p (h.supported.mem_toList.1 hp)
    exact hToken p (.inr (kind?_of_contract? hs)) w.custody
  have hCounted := counted_of_balances hSteady hHeld
  have hIdle := hToken w.stable (.inl hStable) w.router
  have hManaged : w.managed (c.put a new) q.supported.toList = w.managed c q.supported.toList := by
    rw [managed, managed, hCounted, hIdle]
  refine ⟨⟨hSteady, ?_, ?_⟩, fun p hp => Nat.le_of_eq (hHeld p hp), hToken _ (.inl hStable)⟩
  · omega
  · omega

end Wiring

end Treasury
