import Treasury.Answer
import Treasury.Strategy.Execution

/-! Calls to pool adapters: deposits and withdrawals by anyone, and what an admin may change. -/
namespace Treasury.Strategy

/-- A call to a pool adapter. -/
inductive Command where
  | deposit (amount : Amount)
  | withdraw (shares : Amount)
  | fund (amount : Amount)
  | setRate (rate : Amount)
  | setPaused (paused : Bool)
  | turn (switch : Switch)
deriving DecidableEq, Repr

/-- The entry point that sets a switch. -/
def Switch.entry : Switch → String
  | healthy _ => "set_healthy"
  | reportBonus _ => "set_report_bonus"
  | haircut _ => "set_execution_haircut_bps"
  | premium _ => "set_execution_premium_bps"
  | roundsQuotesDown _ => "set_round_down_share_quotes"
  | reportedPool _ => "set_reported_pool"
  | callbackTarget _ => "set_reentry_target"
  | callbackPauses _ => "set_reentry_via_admin"

/-- The admin of an adapter changes its rate. Wrapped vaults have no rate of their own. -/
def setRate (self caller : Address) (rate : Amount) : Exec Unit :=
  Exec.entering caller self "set_rate" do
    match ← View.contract self with
    | .fixedRate s => do Exec.put self (.fixedRate (← s.setRate caller rate))
    | .synthetic s => do Exec.put self (.synthetic (← s.setRate caller rate))
    | _ => throw (.noSuchMethod "set_rate")

/-- The admin of an adapter stops deposits, or lets them go on. Synthetic adapters have switches for
that. -/
def setPaused (self caller : Address) (paused : Bool) : Exec Unit :=
  Exec.entering caller self "set_paused" do
    match ← View.contract self with
    | .fixedRate s => do Exec.put self (.fixedRate (← s.setPaused caller paused))
    | .wrapped s => do Exec.put self (.wrapped (← s.setPaused caller paused))
    | _ => throw (.noSuchMethod "set_paused")

/-- Run a call to an adapter. -/
def Command.run (back : Router.Callback) (self caller : Address) :
    Command → Exec Answer
  | deposit amount => do
    let minted ← Strategy.deposit back [] self caller amount
    pure (.list [.address minted.pool, .amount minted.shares])
  | withdraw shares => .amount <$> Strategy.withdraw self caller shares
  | fund amount => do
    FixedRate.fund self caller amount
    pure .unit
  | setRate rate => do
    Strategy.setRate self caller rate
    pure .unit
  | setPaused paused => do
    Strategy.setPaused self caller paused
    pure .unit
  | turn switch => do
    Exec.amend caller self switch.entry fun s : Synthetic => s.turn caller switch
    pure .unit

end Treasury.Strategy
