import Treasury.Exec

/-! Calls to a contract that keeps roles and nothing else. -/
namespace Treasury

/-- A call to a contract that keeps roles and nothing else. -/
inductive Roles.Command where
  | grant (role : Nat) (account : Address)
  | revoke (role : Nat) (account : Address)
  | renounce (role : Nat)
deriving DecidableEq, Repr

/-- Run a call to a contract that keeps roles. -/
def Roles.Command.run (self caller : Address) : Roles.Command → Exec Unit
  | grant role account =>
    Exec.amend caller self "grant_role" fun r : Roles => r.grant caller role account
  | revoke role account =>
    Exec.amend caller self "revoke_role" fun r : Roles => r.revoke caller role account
  | renounce role => Exec.amend caller self "renounce_role" fun r : Roles => r.renounce caller role

end Treasury
