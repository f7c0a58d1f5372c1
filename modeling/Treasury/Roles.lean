import Treasury.Address
import Treasury.Fault
import Treasury.Table

/-! Who may do what. A role is a small number; an account may hold any of the four that are defined.
The number of holders is counted along, so that the last admin can be kept from leaving. -/
namespace Treasury

/-- The roles of a contract that is governed by them. -/
structure Roles where
  /-- Whether an account holds a role. -/
  held : Table (Nat × Address) Bool := .const false
  /-- How many accounts hold a role. -/
  members : Table Nat Nat := .const 0
  /-- Whether there has been a first admin. -/
  founded : Bool := false

namespace Roles

/-- Governs everything, the roles included. -/
def admin : Nat := 0

/-- Moves value between pools. -/
def operator : Nat := 1

/-- Deposits and withdraws over pools of its own choice. -/
def solver : Nat := 2

/-- Stops the flows of users. -/
def pauser : Nat := 3

/-- Roles below this number are defined. -/
def count : Nat := 4

/-- Whether an account holds a role. -/
def has (r : Roles) (role : Nat) (account : Address) : Bool := r.held.read (role, account)

/-- How many accounts hold a role. -/
def memberCount (r : Roles) (role : Nat) : Nat := r.members.read role

/-- Give a role to an account. A holder is not counted twice. -/
def add (r : Roles) (role : Nat) (account : Address) : Roles where
  held := r.held.write (role, account) true
  members := if r.has role account then r.members
    else r.members.write role (r.memberCount role + 1)
  founded := r.founded

/-- Take a role from an account. -/
def drop (r : Roles) (role : Nat) (account : Address) : Roles where
  held := r.held.write (role, account) false
  members := if r.has role account then r.members.write role (r.memberCount role - 1)
    else r.members
  founded := r.founded

/-- Name the first admin. This can be done once. -/
def found (r : Roles) (account : Address) : Result Roles := do
  ensure (r.founded = false) .invalidConfig
  pure { r.add admin account with founded := true }

/-- Stop unless the account holds the role. -/
def requireRole (r : Roles) (role : Nat) (account : Address) : Result Unit :=
  ensure (r.has role account = true) .unauthorized

/-- Stop unless the account is an admin. -/
def requireAdmin (r : Roles) (account : Address) : Result Unit := r.requireRole admin account

/-- Stop unless the account holds the role or is an admin. -/
def requireRoleOrAdmin (r : Roles) (role : Nat) (account : Address) : Result Unit :=
  ensure (r.has role account = true ∨ r.has admin account = true) .unauthorized

/-- Stop if giving up the role would leave no admin. -/
def requireSpare (r : Roles) (role : Nat) : Result Unit :=
  ensure (role ≠ admin ∨ 1 < r.memberCount admin) .invalidConfig

/-- An admin gives a role to an account. Nothing happens if the account holds it. -/
def grant (r : Roles) (caller : Address) (role : Nat) (account : Address) : Result Roles := do
  r.requireAdmin caller
  ensure (role < count) .invalidConfig
  pure (if r.has role account then r else r.add role account)

/-- An admin takes a role from an account. Nothing happens if the account does not hold it. -/
def revoke (r : Roles) (caller : Address) (role : Nat) (account : Address) : Result Roles := do
  r.requireAdmin caller
  if r.has role account then
    r.requireSpare role
    pure (r.drop role account)
  else
    pure r

/-- The caller gives up a role. Nothing happens if the caller does not hold it. -/
def renounce (r : Roles) (caller : Address) (role : Nat) : Result Roles := do
  if r.has role caller then
    r.requireSpare role
    pure (r.drop role caller)
  else
    pure r

end Roles

end Treasury
