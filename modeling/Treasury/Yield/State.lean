import Treasury.Token.Ledger

/-! A yield vault: a share token over the stable token that the vault holds. Its shares gain value
whenever the vault receives stable without issuing shares. -/
namespace Treasury.Yield

/-- The storage of a yield vault. -/
structure Vault where
  /-- The token that the vault holds. -/
  asset : Option Address := none
  admin : Option Address := none
  /-- The vault's own shares. -/
  ledger : Token.Ledger := {}

/-- `amount * numerator / denominator`, rounded down. One for one if the denominator is zero. -/
def convert (amount numerator denominator : Amount) : Result Amount :=
  if denominator = 0 then .ok amount else Amount.mulDiv amount numerator denominator

/-- `amount * numerator / denominator`, rounded up. One for one if the denominator is zero. -/
def convertCeil (amount numerator denominator : Amount) : Result Amount :=
  if denominator = 0 then .ok amount else Amount.mulDivCeil amount numerator denominator

end Treasury.Yield
