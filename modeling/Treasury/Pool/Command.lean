import Treasury.Answer
import Treasury.Exec

/-! Calls to a registry that stands by itself. -/
namespace Treasury.Pool

/-- A call to a registry that stands by itself. -/
inductive Registry.Command where
  | push (config : Config)
  | update (config : Config)
  | swapRemove (pool : Address)
deriving DecidableEq, Repr

/-- Run a call to a registry. Taking a pool out answers with its config. -/
def Registry.Command.run (self caller : Address) : Registry.Command → Exec Answer
  | push config => do
    Exec.amend caller self "push" fun r : Registry => r.push config
    pure .unit
  | update config => do
    Exec.amend caller self "update" fun r : Registry => r.update config
    pure .unit
  | swapRemove pool =>
    Exec.entering caller self "swap_remove" do
      let r : Registry ← View.callee "swap_remove" self
      let (removed, rest) ← r.swapRemove pool
      Exec.put self (.registry rest)
      pure (.config removed)

end Treasury.Pool
