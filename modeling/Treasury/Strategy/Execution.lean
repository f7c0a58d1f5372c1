import Treasury.Router.Command
import Treasury.Strategy.Quote

/-! Deposits and withdrawals through a pool adapter. A deposit takes the caller's stable and gives
shares to the custody contract; a withdrawal takes the caller's shares and pays stable to the
caller. A synthetic adapter may call a router back in the middle of a deposit. -/
namespace Treasury.Strategy

/-- The deposit of a fixed-rate adapter. -/
def FixedRate.deposit (self caller : Address) (amount : Amount) (s : FixedRate) : Exec Minted := do
  ensure (amount ≠ 0) .zeroAmount
  ensure (s.paused = false) .poolUnhealthy
  let shares ← Rate.sharesForDeposit amount s.rate
  ensure (shares ≠ 0) .zeroAmount
  Token.transferFrom self (← known s.stable) caller self amount
  let custody ← known s.custody
  Exec.update self fun s : FixedRate => do
    pure { s with ledger := ← s.ledger.mint custody shares }
  pure ⟨self, shares⟩

/-- The call that a synthetic adapter makes in the middle of a deposit, if it is set to make one. -/
def Synthetic.callBack (back : Router.Callback) (locked : List Address) (self : Address)
    (s : Synthetic) : Exec Unit :=
  match s.callbackTarget with
  | none => pure ()
  | some target => back ⟨target, self, locked⟩ (if s.callbackPauses then .pause else .reinvestFees)

/-- The deposit of a synthetic adapter. -/
def Synthetic.deposit (back : Router.Callback) (locked : List Address) (self caller : Address)
    (amount : Amount) (s : Synthetic) : Exec Minted := do
  ensure (amount ≠ 0) .zeroAmount
  s.requireHealthy
  s.callBack back locked self
  let s : Synthetic ← View.load self
  Token.transferFrom self (← known s.stable) caller self amount
  let shares ← s.executed (← Rate.sharesForDeposit amount s.rate)
  let custody ← known s.custody
  Exec.update self fun s : Synthetic => do
    pure { s with ledger := ← s.ledger.mint custody shares }
  pure ⟨s.reportedPool.getD self, ← Amount.add shares s.reportBonus⟩

/-- The deposit of a wrapped-vault adapter: on into the vault, for the custody contract. -/
def Wrapped.deposit (self caller : Address) (amount : Amount) (s : Wrapped) : Exec Minted := do
  ensure (amount ≠ 0) .zeroAmount
  ensure (s.paused = false) .poolUnhealthy
  let vault ← known s.vault
  let stable ← known s.stable
  Token.transferFrom self stable caller self amount
  Token.approve self stable vault amount
  let shares ← Yield.deposit vault self amount (← known s.custody)
  Token.approve self stable vault 0
  pure ⟨vault, shares⟩

/-- Deposit through an adapter. -/
def deposit (back : Router.Callback) (locked : List Address) (adapter caller : Address)
    (amount : Amount) : Exec Minted :=
  Exec.entering caller adapter "deposit_into_strategy" do
    match ← View.contract adapter with
    | .fixedRate s => s.deposit adapter caller amount
    | .synthetic s => s.deposit back locked adapter caller amount
    | .wrapped s => s.deposit adapter caller amount
    | _ => throw (.noSuchMethod "deposit_into_strategy")

/-- Take the caller's shares off the books of an adapter that is its own pool. The caller has to let
the adapter do so. -/
def takeShares (self caller : Address) (shares : Amount) (ledger : Token.Ledger) :
    Result Token.Ledger := do
  (← ledger.spendAllowance caller self shares).burn caller shares

/-- The withdrawal of a fixed-rate adapter. -/
def FixedRate.withdraw (self caller : Address) (shares : Amount) (s : FixedRate) :
    Exec Amount := do
  ensure (shares ≠ 0) .zeroAmount
  let amount ← Rate.assetsForShares shares s.rate
  let stable ← known s.stable
  let liquidity ← Token.balanceOf stable self
  ensure (amount ≤ liquidity) .insufficientLiquidity
  Exec.update self fun s : FixedRate => do
    pure { s with ledger := ← takeShares self caller shares s.ledger }
  Token.transfer self stable caller amount
  pure amount

/-- The withdrawal of a synthetic adapter. -/
def Synthetic.withdraw (self caller : Address) (shares : Amount) (s : Synthetic) :
    Exec Amount := do
  ensure (shares ≠ 0) .zeroAmount
  let paid ← s.executed (← Rate.assetsForShares shares s.rate)
  let stable ← known s.stable
  let liquidity ← Token.balanceOf stable self
  ensure (paid ≤ liquidity) .insufficientLiquidity
  Exec.update self fun s : Synthetic => do
    pure { s with ledger := ← takeShares self caller shares s.ledger }
  Token.transfer self stable caller paid
  Amount.add paid s.reportBonus

/-- The withdrawal of a wrapped-vault adapter: the vault pays the caller. -/
def Wrapped.withdraw (self caller : Address) (shares : Amount) (s : Wrapped) : Exec Amount := do
  ensure (shares ≠ 0) .zeroAmount
  let vault ← known s.vault
  Token.transferFrom self vault caller self shares
  Yield.redeem vault self shares caller self

/-- Withdraw through an adapter. -/
def withdraw (adapter caller : Address) (shares : Amount) : Exec Amount :=
  Exec.entering caller adapter "withdraw_from_strategy" do
    match ← View.contract adapter with
    | .fixedRate s => s.withdraw adapter caller shares
    | .synthetic s => s.withdraw adapter caller shares
    | .wrapped s => s.withdraw adapter caller shares
    | _ => throw (.noSuchMethod "withdraw_from_strategy")

/-- Take the caller's stable without minting shares, so that a fixed-rate adapter can pay a higher
rate. -/
def FixedRate.fund (self caller : Address) (amount : Amount) : Exec Unit :=
  Exec.entering caller self "fund" do
    let s : FixedRate ← View.callee "fund" self
    ensure (amount ≠ 0) .zeroAmount
    Token.transferFrom self (← known s.stable) caller self amount

end Treasury.Strategy
