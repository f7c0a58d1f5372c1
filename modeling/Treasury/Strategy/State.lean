import Treasury.Rate
import Treasury.Token.Ledger

/-! The three kinds of pool adapter. A fixed-rate adapter and a synthetic one issue the shares of
their own pool; a wrapped-vault adapter deals in the shares of a yield vault. -/
namespace Treasury.Strategy

/-- The storage of a fixed-rate adapter. -/
structure FixedRate where
  admin : Option Address := none
  stable : Option Address := none
  /-- The custody contract that receives minted shares. -/
  custody : Option Address := none
  /-- What a share is worth, in units of `rateScale`. -/
  rate : Amount := rateScale
  paused : Bool := false
  ledger : Token.Ledger := {}

/-- The storage of a synthetic adapter: a fixed-rate adapter with switches for misbehaviour. -/
structure Synthetic where
  admin : Option Address := none
  stable : Option Address := none
  /-- The custody contract that receives minted shares. -/
  custody : Option Address := none
  /-- What a share is worth, in units of `rateScale`. -/
  rate : Amount := rateScale
  /-- An unhealthy adapter refuses all quotes and deposits. -/
  healthy : Bool := true
  /-- Added to every reported result. -/
  reportBonus : Amount := 0
  /-- The part held back from what is minted or paid, in units of `weightScale`. -/
  haircut : Nat := 0
  /-- The part put on top of what is minted or paid, in units of `weightScale`. -/
  premium : Nat := 0
  /-- Quotes of shares for an amount round down. -/
  roundsQuotesDown : Bool := false
  /-- The pool that deposits report in place of the real one. -/
  reportedPool : Option Address := none
  /-- The contract called back during a deposit. -/
  callbackTarget : Option Address := none
  /-- The call back is `pause` and not `reinvest_fees`. -/
  callbackPauses : Bool := false
  ledger : Token.Ledger := {}

namespace FixedRate

/-- Set a fixed-rate adapter up. It may not start below a rate of one. The shares issued so far
stay. -/
def construct (s : FixedRate) (admin stable custody : Address) (rate : Amount) :
    Result FixedRate := do
  ensure (rateScale ≤ rate) .invalidConfig
  pure {
    admin := some admin
    stable := some stable
    custody := some custody
    rate
    ledger := s.ledger }

/-- The admin changes the rate. It may fall, but not to zero. -/
def setRate (s : FixedRate) (caller : Address) (rate : Amount) : Result FixedRate := do
  ensure (s.admin = some caller) .unauthorized
  ensure (rate ≠ 0) .invalidConfig
  pure { s with rate }

/-- The admin stops deposits, or lets them go on. -/
def setPaused (s : FixedRate) (caller : Address) (paused : Bool) : Result FixedRate := do
  ensure (s.admin = some caller) .unauthorized
  pure { s with paused }

end FixedRate

/-- A switch of a synthetic adapter with the value that it is to get. -/
inductive Switch where
  | healthy (value : Bool)
  | reportBonus (value : Amount)
  | haircut (value : Nat)
  | premium (value : Nat)
  | roundsQuotesDown (value : Bool)
  | reportedPool (value : Option Address)
  | callbackTarget (value : Option Address)
  | callbackPauses (value : Bool)
deriving DecidableEq, Repr

namespace Synthetic

/-- The storage of a freshly constructed synthetic adapter: rate one, healthy, no switch set. The
shares issued so far stay. -/
def construct (s : Synthetic) (admin stable custody : Address) : Synthetic where
  admin := some admin
  stable := some stable
  custody := some custody
  ledger := s.ledger

/-- The admin changes the rate. It may fall, but not to zero. -/
def setRate (s : Synthetic) (caller : Address) (rate : Amount) : Result Synthetic := do
  ensure (s.admin = some caller) .unauthorized
  ensure (rate ≠ 0) .invalidConfig
  pure { s with rate }

/-- The admin sets a switch. The parts held back or put on top are at most the whole. -/
def turn (s : Synthetic) (caller : Address) (switch : Switch) : Result Synthetic := do
  ensure (s.admin = some caller) .unauthorized
  match switch with
  | .healthy value => pure { s with healthy := value }
  | .reportBonus value => pure { s with reportBonus := value }
  | .haircut value => do
    ensure (value ≤ weightScale) .valueAboveMaximum
    pure { s with haircut := value }
  | .premium value => do
    ensure (value ≤ weightScale) .valueAboveMaximum
    pure { s with premium := value }
  | .roundsQuotesDown value => pure { s with roundsQuotesDown := value }
  | .reportedPool value => pure { s with reportedPool := value }
  | .callbackTarget value => pure { s with callbackTarget := value }
  | .callbackPauses value => pure { s with callbackPauses := value }

/-- Stop while the adapter is unhealthy. -/
def requireHealthy (s : Synthetic) : Result Unit := ensure (s.healthy = true) .poolUnhealthy

/-- What is really minted or paid when `amount` is due. -/
def executed (s : Synthetic) (amount : Amount) : Result Amount := do
  let haircut ← Amount.mulDiv amount s.haircut weightScale
  let reduced ← Amount.sub amount haircut
  let premium ← Amount.mulDiv amount s.premium weightScale
  Amount.add reduced premium

/-- The shares quoted for paying out an amount. -/
def quoteShares (s : Synthetic) (amount : Amount) : Result Amount :=
  if s.roundsQuotesDown then Rate.sharesForDeposit amount s.rate
  else Rate.sharesForAmount amount s.rate

end Synthetic

/-- The storage of a wrapped-vault adapter. -/
structure Wrapped where
  admin : Option Address := none
  stable : Option Address := none
  /-- The custody contract that receives minted shares. -/
  custody : Option Address := none
  /-- The yield vault, whose shares are the pool's shares. -/
  vault : Option Address := none
  paused : Bool := false

namespace Wrapped

/-- Set a wrapped-vault adapter up over a vault that holds `asset`, which has to be the stable
token. -/
def construct (asset admin stable custody vault : Address) : Result Wrapped := do
  ensure (asset = stable) .invalidConfig
  pure {
    admin := some admin
    stable := some stable
    custody := some custody
    vault := some vault }

/-- The admin stops deposits, or lets them go on. -/
def setPaused (s : Wrapped) (caller : Address) (paused : Bool) : Result Wrapped := do
  ensure (s.admin = some caller) .unauthorized
  pure { s with paused }

end Wrapped

end Treasury.Strategy
