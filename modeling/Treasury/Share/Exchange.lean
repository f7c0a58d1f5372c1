import Treasury.Router.UserFlow
import Treasury.Share.Price

/-! Users exchange stable for shares and back. The share token prices the exchange and keeps the
books; the router moves the value. -/
namespace Treasury.ShareToken

/-- Deposit stable, which the caller has to have allowed the router to take, and get shares. -/
def deposit (back : Router.Callback) (self caller : Address) (assets : Amount)
    (receiver : Address) : Exec Amount :=
  Exec.entering caller self "deposit" do
    let t : ShareToken ← View.callee "deposit" self
    ensure (assets ≠ 0) .zeroAmount
    let shares ← t.sharesFor assets
    ensure (shares ≠ 0) .zeroAmount
    let router ← known t.router
    Router.handleDeposit back ⟨router, self, []⟩ caller assets shares receiver
    Exec.update self fun t : ShareToken => do
      pure { t with ledger := ← t.ledger.mint receiver shares }
    pure shares

/-- Give up shares of the owner, who has to allow it unless it is the caller, and get their net
worth. -/
def redeem (self caller : Address) (shares : Amount) (receiver owner : Address) : Exec Amount :=
  Exec.entering caller self "redeem" do
    let t : ShareToken ← View.callee "redeem" self
    ensure (shares ≠ 0) .zeroAmount
    let gross ← t.worth shares
    ensure (gross ≠ 0) .zeroAmount
    Exec.update self fun t : ShareToken => t.retire caller owner shares
    let router ← known t.router
    let expected ← Router.previewFee router gross
    let split ← Router.handleWithdraw ⟨router, self, []⟩ caller receiver owner gross expected.net
    pure split.net

end Treasury.ShareToken
