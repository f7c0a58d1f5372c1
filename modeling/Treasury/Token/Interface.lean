import Treasury.Exec

/-! The entry points that every token has, at the address of a token. The stable token, the share
token, yield vaults, fixed-rate and synthetic adapters are tokens. A token that does not refuse a
move has made it. -/
namespace Treasury.Token

/-- All units of a token. -/
def totalSupply (token : Address) : View Amount := do
  pure (← View.books "total_supply" token).supply

/-- What an address owns of a token. -/
def balanceOf (token account : Address) : View Amount := do
  pure ((← View.books "balance_of" token).balanceOf account)

/-- What an owner lets a spender move of a token. -/
def allowance (token owner spender : Address) : View Amount := do
  pure ((← View.books "allowance" token).allowance owner spender)

/-- Change the books of a token in the middle of a call at one of its entry points. -/
def keep (token : Address) (entry : String) (onStable : Stable → Result Stable)
    (onLedger : Ledger → Result Ledger) : Exec Unit := do
  match (← View.contract token).keepBooks onStable onLedger with
  | some changed => Exec.put token (← changed)
  | none => throw (.noSuchMethod entry)

/-- The caller moves an amount of its own. -/
def transfer (caller token taker : Address) (amount : Amount) : Exec Unit :=
  Exec.entering caller token "transfer" do
    keep token "transfer" (fun t => t.transfer caller taker amount)
      (fun l => l.transfer caller taker amount)
    Exec.mark (.credited token taker amount)

/-- The caller sets an allowance. -/
def approve (caller token spender : Address) (amount : Amount) : Exec Unit :=
  Exec.entering caller token "approve" do
    keep token "approve" (fun t => pure (t.approve caller spender amount))
      (fun l => pure (l.approve caller spender amount))

/-- The caller moves an amount of the owner's on the strength of an allowance. -/
def transferFrom (caller token owner taker : Address) (amount : Amount) : Exec Unit :=
  Exec.entering caller token "transfer_from" do
    keep token "transfer_from" (fun t => t.transferFrom caller owner taker amount)
      (fun l => l.transferFrom caller owner taker amount)
    Exec.mark (.credited token taker amount)

end Treasury.Token
