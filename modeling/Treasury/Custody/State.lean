import Treasury.Roster
import Treasury.Scale

/-! The custody contract's storage: which pools it holds shares of, and through which adapter each
pool is valued. -/
namespace Treasury

/-- The storage of a custody contract. -/
structure Custody where
  admin : Option Address := none
  /-- The only contract that may move shares. -/
  router : Option Address := none
  /-- The pools whose shares count as value. -/
  supported : Roster := {}
  /-- The adapter bound to each pool. -/
  adapters : Table Address (Option Address) := .const none
  /-- A residual value has to be below this to be dust. -/
  dustLimit : Amount := 0
  /-- A residual value has to be below this part of all value, in units of `weightScale`. -/
  dustPart : Nat := 0

namespace Custody

/-- Set a custody contract up. No router is known and no position is in use. -/
def construct (c : Custody) (admin : Address) (dustLimit : Amount) (dustPart : Nat) :
    Result Custody := do
  ensure (dustPart ≤ weightScale) .invalidConfig
  pure { c with
    admin := some admin
    router := none
    supported := c.supported.emptied
    dustLimit
    dustPart }

/-- The adapter bound to a pool. -/
def adapter? (c : Custody) (pool : Address) : Option Address := c.adapters.read pool

/-- Whether the pool's shares count as value. -/
def supports (c : Custody) (pool : Address) : Bool := c.supported.contains pool

/-- Stop unless the caller is the router. -/
def requireRouter (c : Custody) (caller : Address) : Result Unit :=
  ensure (c.router = some caller) .unauthorizedRouter

/-- Stop unless the caller is the admin. -/
def requireAdmin (c : Custody) (caller : Address) : Result Unit :=
  ensure (c.admin = some caller) .unauthorized

/-- The admin chooses another router. The one before loses its say. -/
def setRouter (c : Custody) (caller router : Address) : Result Custody := do
  c.requireAdmin caller
  pure { c with router := some router }

/-- The admin changes what counts as dust. -/
def setDust (c : Custody) (caller : Address) (dustLimit : Amount) (dustPart : Nat) :
    Result Custody := do
  c.requireAdmin caller
  ensure (dustPart ≤ weightScale) .invalidConfig
  pure { c with dustLimit, dustPart }

/-- The admin hands over to another one. -/
def setAdmin (c : Custody) (caller admin : Address) : Result Custody := do
  c.requireAdmin caller
  pure { c with admin := some admin }

/-- Unbind a pool's adapter. The pool's shares must no longer count as value. -/
def unbind (c : Custody) (caller pool : Address) : Result Custody := do
  c.requireRouter caller
  ensure (c.adapter? pool ≠ none) .adapterNotRegistered
  ensure (c.supports pool = false) .poolNotWoundDown
  pure { c with adapters := c.adapters.write pool none }

/-- Count the pool's shares as value from now on. -/
def support (c : Custody) (caller pool : Address) : Result Custody := do
  c.requireRouter caller
  ensure (c.supports pool = false) .poolAlreadyExists
  ensure (c.adapter? pool ≠ none) .adapterNotRegistered
  pure { c with supported := c.supported.push pool }

end Custody

end Treasury
