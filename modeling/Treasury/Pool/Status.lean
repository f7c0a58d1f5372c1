/-! The life of a pool. A pool is active, or it is being left: impaired pools may come back,
suspended ones may not. -/
namespace Treasury.Pool

/-- Where a pool is in its life. -/
inductive Status where
  /-- Takes deposits and serves withdrawals. -/
  | active
  /-- Winding down: only withdrawals, for good. -/
  | suspended
  /-- Unwell: only withdrawals, until it is active again. -/
  | impaired
deriving DecidableEq, Repr, Inhabited

namespace Status

/-- Whether new value may go into the pool. -/
def acceptsDeposits : Status → Bool
  | active => true
  | _ => false

/-- Whether value may leave the pool. There is no status that locks value in. -/
def servesWithdrawals (_ : Status) : Bool := true

/-- The moves that a pool's life allows. -/
def canBecome : Status → Status → Bool
  | active, suspended => true
  | active, impaired => true
  | impaired, active => true
  | impaired, suspended => true
  | _, _ => false

end Status

end Treasury.Pool
