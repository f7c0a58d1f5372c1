import Treasury.Router.State

/-! What calls and views answer. -/
namespace Treasury

/-- An answer. Amounts are told apart from counts, since clients write them differently. -/
inductive Answer where
  | unit
  | flag (value : Bool)
  | count (value : Nat)
  | amount (value : Amount)
  | text (value : String)
  | address (value : Address)
  | config (value : Pool.Config)
  | allocation (value : Pool.Allocation)
  | summary (value : Router.Summary)
  | fees (value : Router.FeeStats)
  | absent
  | list (values : List Answer)
deriving Repr, Inhabited

namespace Answer

/-- An answer that may be absent. -/
def optional {α : Type} (present : α → Answer) : Option α → Answer
  | some a => present a
  | none => absent

/-- A list of answers of one kind. -/
def listOf {α : Type} (each : α → Answer) (values : List α) : Answer := list (values.map each)

/-- Two amounts. -/
def amounts (first second : Amount) : Answer := list [amount first, amount second]

end Answer

end Treasury
