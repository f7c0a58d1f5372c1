import Treasury.Address
import Treasury.Amount
import Treasury.Table

/-! Ordered sets of addresses with removal in one step. A roster keeps its members by position, the
position of each member, and a mark for each member. Removing a member moves the last one into its
place; positions that are no longer in use keep what they held. -/
namespace Treasury

/-- Addresses by position, with the way back. -/
structure Roster where
  /-- How many positions are in use. -/
  size : Nat := 0
  /-- The address at each position. -/
  slots : Table Nat (Option Address) := .const none
  /-- The position last given to each address. -/
  positions : Table Address (Option Nat) := .const none
  /-- Which addresses are members. -/
  marks : Table Address Bool := .const false

namespace Roster

/-- Whether an address is a member. -/
def contains (r : Roster) (a : Address) : Bool := r.marks.read a

/-- The members in order. -/
def toList (r : Roster) : List Address := (List.range r.size).filterMap r.slots.read

/-- Add an address at the end. The caller sees to it that the address is no member yet. -/
def push (r : Roster) (a : Address) : Roster where
  size := r.size + 1
  slots := r.slots.write r.size (some a)
  positions := r.positions.write a (some r.size)
  marks := r.marks.write a true

/-- Fill the place of `a` with the last member, and drop the last position. An address without a
position counts as the first. Without any position in use there is nothing to drop. -/
def swapRemove (r : Roster) (a : Address) : Result Roster := do
  let last ← Amount.sub r.size 1
  let index := (r.positions.read a).getD 0
  let dropped := { r with size := last, marks := r.marks.write a false }
  match if index = last then none else r.slots.read last with
  | none => pure dropped
  | some moved => pure { dropped with
      slots := r.slots.write index (some moved)
      positions := r.positions.write moved (some index) }

/-- Forget all positions in use, but not who was marked as a member. -/
def emptied (r : Roster) : Roster := { r with size := 0 }

end Roster

end Treasury
