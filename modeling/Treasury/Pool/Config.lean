import Treasury.Address
import Treasury.Amount
import Treasury.Pool.Status

/-! What the treasury keeps about a pool, and the shapes in which callers speak of pools. A pool is
known by the address of its share token. -/
namespace Treasury.Pool

/-- A registered pool. -/
structure Config where
  pool : Address
  /-- The contract through which the pool is reached. -/
  adapter : Address
  /-- The part of all value that the pool should hold, in units of `weightScale`. -/
  target : Nat
  status : Status
deriving DecidableEq, Repr, Inhabited

/-- One part of a solver's call: a pool with an amount of the stable token or of pool shares. -/
structure Leg where
  pool : Address
  amount : Amount
deriving DecidableEq, Repr, Inhabited

/-- A pool with the target that it should get. -/
structure Target where
  pool : Address
  target : Nat
deriving DecidableEq, Repr, Inhabited

/-- The sum of the targets in a table. -/
def Target.total (table : List Target) : Nat := table.foldr (fun t total => t.target + total) 0

/-- A pool as reports show it. -/
structure Allocation where
  pool : Address
  /-- What the custodied shares of the pool are worth. Zero for a pool that cannot be valued. -/
  value : Amount
  /-- The part of all value that the pool holds, in units of `weightScale`. -/
  current : Nat
  target : Nat
  status : Status
  /-- Whether the pool could be valued. -/
  healthy : Bool
deriving DecidableEq, Repr, Inhabited

end Treasury.Pool
