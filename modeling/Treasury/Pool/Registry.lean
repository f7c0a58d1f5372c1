import Treasury.Amount
import Treasury.Pool.Config
import Treasury.Table

/-! The registry of pools: their configs by position, with the way back from a pool to its position.
Removing a pool moves the last config into its place; positions that are no longer in use keep what
they held. -/
namespace Treasury.Pool

/-- The registered pools and their configs. -/
structure Registry where
  /-- The config at each position. -/
  entries : Table Nat (Option Config) := .const none
  /-- How many positions are in use. -/
  size : Nat := 0
  /-- The position last given to each pool. -/
  positions : Table Address (Option Nat) := .const none
  /-- Which pools are registered. -/
  marks : Table Address Bool := .const false

namespace Registry

/-- Whether a pool is registered. -/
def contains (r : Registry) (pool : Address) : Bool := r.marks.read pool

/-- The position of a registered pool. -/
def index? (r : Registry) (pool : Address) : Option Nat :=
  if r.contains pool then r.positions.read pool else none

/-- The config of a registered pool. -/
def get? (r : Registry) (pool : Address) : Option Config :=
  if r.contains pool then (r.positions.read pool).bind r.entries.read else none

/-- The config of a pool that has to be registered. -/
def require (r : Registry) (pool : Address) : Result Config :=
  match r.get? pool with
  | some config => .ok config
  | none => refuse .poolNotFound

/-- The position of a pool that has to be registered. -/
def requireIndex (r : Registry) (pool : Address) : Result Nat :=
  match r.index? pool with
  | some i => .ok i
  | none => refuse .poolNotFound

/-- The config at a position. -/
def at? (r : Registry) (i : Nat) : Result Config := do
  ensure (i < r.size) .indexOutOfRange
  match r.entries.read i with
  | some config => .ok config
  | none => refuse .indexOutOfRange

/-- All configs in order. -/
def toList (r : Registry) : List Config := (List.range r.size).filterMap r.entries.read

/-- Register a pool at the end. -/
def push (r : Registry) (config : Config) : Result Registry := do
  ensure (r.contains config.pool = false) .poolAlreadyExists
  pure {
    entries := r.entries.write r.size (some config)
    size := r.size + 1
    positions := r.positions.write config.pool (some r.size)
    marks := r.marks.write config.pool true }

/-- Replace the config of a registered pool, in its place. -/
def update (r : Registry) (config : Config) : Result Registry := do
  let i ← r.requireIndex config.pool
  pure { r with entries := r.entries.write i (some config) }

/-- Move the config at the last position to a position, unless it is there already. -/
def fill (r : Registry) (i last : Nat) : Result Registry :=
  if i = last then pure r else do
    let moved ← r.at? last
    pure { r with
      entries := r.entries.write i (some moved)
      positions := r.positions.write moved.pool (some i) }

/-- Take a pool out, and move the last config into its place. -/
def swapRemove (r : Registry) (pool : Address) : Result (Config × Registry) := do
  let i ← r.requireIndex pool
  let removed ← r.at? i
  let last ← Amount.sub r.size 1
  let filled ← r.fill i last
  pure (removed, { filled with size := last, marks := filled.marks.write pool false })

end Registry

end Treasury.Pool
