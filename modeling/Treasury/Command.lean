import Treasury.Construction
import Treasury.Custody.Command
import Treasury.Pool.Command
import Treasury.Roles.Command
import Treasury.Router.Dispatch
import Treasury.Share.Command
import Treasury.Strategy.Command
import Treasury.Token.Command
import Treasury.Yield.Command

/-! Every call that may change storage, by the contract that it is meant for. A contract of another
kind turns the call down, since it has no such entry point. -/
namespace Treasury

/-- A call that may change storage. -/
inductive Command where
  | token (c : Token.Command)
  | stable (c : Token.Stable.Command)
  | ledger (c : Token.Ledger.Command)
  | registry (c : Pool.Registry.Command)
  | roles (c : Roles.Command)
  | share (c : ShareToken.Command)
  | yieldVault (c : Yield.Command)
  | strategy (c : Strategy.Command)
  | custody (c : Custody.Command)
  | router (c : Router.Command)
  /-- The constructor. It can be called only on a contract that was deployed without it. -/
  | construct (c : Construction)
  /-- A call to an entry point that no contract has. -/
  | unlisted (entry : String)
deriving DecidableEq, Repr

/-- Run a call, with `back` for the calls that come back to a router in the middle of it. -/
def Command.run (back : Router.Callback) (self caller : Address) : Command → Exec Answer
  | token c => c.run self caller
  | stable c => do c.run self caller; pure .unit
  | ledger c => do c.run self caller; pure .unit
  | registry c => c.run self caller
  | roles c => do c.run self caller; pure .unit
  | share c => c.run back self caller
  | yieldVault c => c.run self caller
  | strategy c => c.run back self caller
  | custody c => do c.run self caller; pure .unit
  | router c => Router.run back ⟨self, caller, []⟩ c
  | construct c => do
    let _ ← View.contract self
    if self ∈ (← get).chain.blank then
      c.run self caller
      pure .unit
    else
      throw .invalidContext
  | unlisted entry => do
    let _ ← View.contract self
    throw (.noSuchMethod entry)

end Treasury
