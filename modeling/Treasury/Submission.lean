import Treasury.Command
import Treasury.Query

/-! What can be done with the chain from outside: submit a call, ask a question, deploy a contract.
A call that ends with a fault leaves nothing behind, so only the fault is answered. -/
namespace Treasury

/-- What a call leaves behind. -/
structure Outcome where
  answer : Answer
  chain : Chain
  /-- What was announced, in order. -/
  events : List (Address × Event)
  /-- Which calls it was made of. -/
  marks : List Mark

namespace Chain

/-- Calls back to routers. They lock one more router at each level, so there are never more levels
than contracts. -/
def callback (c : Chain) : Router.Callback := Router.nested c.contracts.length

/-- Make a call. -/
def submit (c : Chain) (caller target : Address) (command : Command) : Result Outcome := do
  let (answer, world) ← (command.run c.callback target caller).run { chain := c }
  pure ⟨answer, world.chain, world.events, world.marks⟩

/-- Ask a question. -/
def ask (c : Chain) (caller target : Address) (query : Query) : Result Answer :=
  query.ask target caller c

/-- The address that the next deployment uses up. -/
def nextAddress (c : Chain) : Address := .ofNumber (c.numbered + 1)

/-- Use up the next address for nothing, as a deployment does that fails. -/
def skip (c : Chain) : Chain := { c with numbered := c.numbered + 1 }

/-- Put a contract that was never written to at the next address, where no contract may stand. For
registries and ledgers, which have no constructor, this is the whole deployment. -/
def place (c : Chain) (kind : Contract.Kind) : Result Chain :=
  match c.contract? c.nextAddress with
  | none => .ok { c.skip with contracts := c.contracts ++ [(c.nextAddress, kind.blank)] }
  | some _ => .error .invalidContractAddress

/-- Deploy a contract and run its constructor. -/
def deploy (c : Chain) (caller : Address) (construction : Construction) : Result Chain := do
  let placed ← c.place construction.kind
  let (_, world) ← (construction.run c.nextAddress caller).run { chain := placed }
  pure world.chain

/-- Deploy a contract without running its constructor. It can be run later. -/
def deployBlank (c : Chain) (kind : Contract.Kind) : Result Chain := do
  let placed ← c.place kind
  pure { placed with blank := c.nextAddress :: c.blank }

end Chain

end Treasury
