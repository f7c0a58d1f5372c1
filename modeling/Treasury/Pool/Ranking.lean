import Treasury.Address
import Treasury.Amount

/-! Which pool comes first. Deposits go where most is missing to the target, withdrawals come from
where most is above it, and equal pools keep their order. The choice depends on nothing else. -/
namespace Treasury.Pool

/-- What a choice between pools looks at. -/
structure Snapshot where
  pool : Address
  target : Nat
  current : Nat
  /-- What the pool is worth to the treasury now. -/
  available : Amount
  /-- Whether the pool may be chosen. -/
  eligible : Bool
deriving DecidableEq, Repr, Inhabited

namespace Snapshot

/-- What is missing to the target. -/
def deficit (s : Snapshot) : Int := (s.target : Int) - s.current

/-- What is above the target. -/
def surplus (s : Snapshot) : Int := (s.current : Int) - s.target

end Snapshot

namespace Ranking

/-- A snapshot with its position. -/
abbrev Entry := Snapshot × Nat

/-- Put an entry before the first one whose key is not larger. -/
def insert (key : Snapshot → Int) (x : Entry) : List Entry → List Entry
  | [] => [x]
  | y :: ys => if key y.1 ≤ key x.1 then x :: y :: ys else y :: insert key x ys

/-- The entries by descending key. Entries with equal keys keep their order. -/
def sort (key : Snapshot → Int) : List Entry → List Entry
  | [] => []
  | x :: xs => insert key x (sort key xs)

/-- The eligible pools with their positions, by descending key. -/
def ranked (key : Snapshot → Int) (pools : List Snapshot) : List Entry :=
  sort key (pools.zipIdx.filter fun entry => entry.1.eligible)

/-- The positions of up to `k` eligible pools, the largest deficit first. -/
def forDeposit (pools : List Snapshot) (k : Nat) : List Nat :=
  ((ranked Snapshot.deficit pools).take k).map Prod.snd

/-- The position of the eligible pool with the largest deficit. -/
def depositPool (pools : List Snapshot) : Option Nat := (forDeposit pools 1).head?

/-- The positions of all eligible pools, the largest surplus first. -/
def forWithdrawal (pools : List Snapshot) : List Nat :=
  (ranked Snapshot.surplus pools).map Prod.snd

/-- The position of the first pool, by surplus, that is worth at least `amount`. -/
def withdrawalPool (pools : List Snapshot) (amount : Amount) : Result Nat :=
  match (ranked Snapshot.surplus pools).find? (fun entry => amount ≤ entry.1.available) with
  | some entry => .ok entry.2
  | none => refuse .liquidityExhausted

end Ranking

end Treasury.Pool
