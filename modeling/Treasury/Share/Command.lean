import Treasury.Answer
import Treasury.Share.Exchange

/-! Calls to the share token. -/
namespace Treasury

/-- A call that only the share token takes. -/
inductive ShareToken.Command where
  | deposit (assets : Amount) (receiver : Address)
  | redeem (shares : Amount) (receiver owner : Address)
  | mintFor (receiver : Address) (shares : Amount)
  | burnFor (initiator owner : Address) (shares : Amount)
  | setRouter (router : Address)
deriving DecidableEq, Repr

/-- Run a call to the share token. -/
def ShareToken.Command.run (back : Router.Callback) (self caller : Address) :
    ShareToken.Command → Exec Answer
  | deposit assets receiver => .amount <$> ShareToken.deposit back self caller assets receiver
  | redeem shares receiver owner => .amount <$> ShareToken.redeem self caller shares receiver owner
  | mintFor receiver shares => do
    ShareToken.mintFor self caller receiver shares
    pure .unit
  | burnFor initiator owner shares => do
    ShareToken.burnFor self caller initiator owner shares
    pure .unit
  | setRouter router => do
    Exec.amend caller self "set_router" fun t : ShareToken => t.setRouter caller router
    pure .unit

end Treasury
