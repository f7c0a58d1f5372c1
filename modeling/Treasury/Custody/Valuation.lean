import Treasury.Strategy.Quote

/-! What the custody contract holds and what it is worth. Each supported pool is valued by the
adapter bound to it; a pool of which nothing is held is worth nothing and is not asked. -/
namespace Treasury.Custody

/-- The adapter bound to a pool. -/
def boundAdapter (self pool : Address) : View (Option Address) := do
  let c : Custody ← View.callee "get_adapter" self
  pure (c.adapter? pool)

/-- Whether the pool's shares count as value. -/
def isSupported (self pool : Address) : View Bool := do
  let c : Custody ← View.callee "is_supported" self
  pure (c.supports pool)

/-- How many shares of a pool are held. -/
def poolBalance (self pool : Address) : View Amount := do
  let _ : Custody ← View.callee "pool_balance" self
  Token.balanceOf pool self

/-- What a number of shares of a pool is worth. -/
def valueOf (c : Custody) (pool : Address) (shares : Amount) : View Amount :=
  match c.adapter? pool with
  | some adapter => Strategy.valueOf adapter pool shares
  | none => refuse .adapterNotRegistered

/-- What the held shares of a pool are worth. -/
def held (c : Custody) (self pool : Address) : View Amount := do
  let balance ← Token.balanceOf pool self
  if balance = 0 then pure 0 else valueOf c pool balance

/-- What the held shares of a pool are worth. -/
def poolValue (self pool : Address) : View Amount := do
  let c : Custody ← View.callee "pool_value" self
  held c self pool

/-- What all held shares of supported pools are worth. -/
def totalValue (self : Address) : View Amount := do
  let c : Custody ← View.callee "total_value" self
  c.supported.toList.foldlM (fun total pool => do Amount.add total (← held c self pool)) 0

/-- Whether a residual value is dust: below the limit, and below its part of all value. -/
def isDust (c : Custody) (self : Address) (value : Amount) : View Bool := do
  if c.dustLimit ≤ value then
    pure false
  else
    let total ← totalValue self
    let scaled ← Amount.mul value weightScale
    let part ← Amount.mul total c.dustPart
    pure (scaled < part)

end Treasury.Custody
