import Treasury.Amount
import Treasury.Scale

/-! Current weights: which part of the whole each of a list of values is. -/
namespace Treasury.Pool.Weight

/-- The parts of a list of values, in units of `allocationScale`, and their total. -/
structure Shares where
  weights : List Amount
  total : Amount
deriving DecidableEq, Repr, Inhabited

/-- Each value's part of the total. All parts are zero when the total is. -/
def shares (values : List Amount) : Result Shares := do
  let total ← Amount.sum values
  if total = 0 then
    pure ⟨values.map (fun _ => 0), total⟩
  else
    pure ⟨← values.mapM (fun value => Amount.mulDiv value allocationScale total), total⟩

/-- A part in units of `allocationScale`, in units of `weightScale` and never above the whole. -/
def ofShare (share : Amount) : Result Nat := do
  let weight ← Amount.mulDiv share weightScale allocationScale
  pure (min weight weightScale)

/-- The weights of a list of values, in units of `weightScale`. -/
def current (values : List Amount) : Result (List Nat) := do
  (← shares values).weights.mapM ofShare

end Treasury.Pool.Weight
