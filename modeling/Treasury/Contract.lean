import Treasury.Custody.State
import Treasury.Router.State
import Treasury.Share.State
import Treasury.Strategy.State
import Treasury.Token.Stable
import Treasury.Yield.State

/-! The kinds of contract that can stand on the chain. Each kind is known by its storage type. -/
namespace Treasury

/-- A contract with its storage. -/
inductive Contract where
  | stable (t : Token.Stable)
  | share (t : ShareToken)
  | yieldVault (v : Yield.Vault)
  | fixedRate (s : Strategy.FixedRate)
  | synthetic (s : Strategy.Synthetic)
  | wrapped (s : Strategy.Wrapped)
  | custody (c : Custody)
  | router (s : Router.State)
  | registry (r : Pool.Registry)
  | roles (r : Roles)
  | ledger (l : Token.Ledger)

/-- A storage type that tells the kind of contract. -/
class Storage (σ : Type) where
  /-- The storage of a contract of this kind. -/
  pick : Contract → Option σ
  /-- The contract with this storage. -/
  wrap : σ → Contract
  pick_eq_some_iff : ∀ c s, pick c = some s ↔ c = wrap s

namespace Storage

variable {σ : Type} [Storage σ]

@[simp] theorem pick_wrap (s : σ) : pick (wrap s) = some s := (pick_eq_some_iff _ s).2 rfl

instance : Storage Token.Stable where
  pick | .stable t => some t | _ => none
  wrap := .stable
  pick_eq_some_iff c s := by cases c <;> simp

instance : Storage ShareToken where
  pick | .share t => some t | _ => none
  wrap := .share
  pick_eq_some_iff c s := by cases c <;> simp

instance : Storage Yield.Vault where
  pick | .yieldVault v => some v | _ => none
  wrap := .yieldVault
  pick_eq_some_iff c s := by cases c <;> simp

instance : Storage Strategy.FixedRate where
  pick | .fixedRate s => some s | _ => none
  wrap := .fixedRate
  pick_eq_some_iff c s := by cases c <;> simp

instance : Storage Strategy.Synthetic where
  pick | .synthetic s => some s | _ => none
  wrap := .synthetic
  pick_eq_some_iff c s := by cases c <;> simp

instance : Storage Strategy.Wrapped where
  pick | .wrapped s => some s | _ => none
  wrap := .wrapped
  pick_eq_some_iff c s := by cases c <;> simp

instance : Storage Custody where
  pick | .custody c => some c | _ => none
  wrap := .custody
  pick_eq_some_iff c s := by cases c <;> simp

instance : Storage Router.State where
  pick | .router s => some s | _ => none
  wrap := .router
  pick_eq_some_iff c s := by cases c <;> simp

instance : Storage Pool.Registry where
  pick | .registry r => some r | _ => none
  wrap := .registry
  pick_eq_some_iff c s := by cases c <;> simp

instance : Storage Roles where
  pick | .roles r => some r | _ => none
  wrap := .roles
  pick_eq_some_iff c s := by cases c <;> simp

instance : Storage Token.Ledger where
  pick | .ledger l => some l | _ => none
  wrap := .ledger
  pick_eq_some_iff c s := by cases c <;> simp

end Storage

namespace Contract

/-- The names of the kinds. -/
inductive Kind where
  | stable
  | share
  | yieldVault
  | fixedRate
  | synthetic
  | wrapped
  | custody
  | router
  | registry
  | roles
  | ledger
deriving DecidableEq, Repr

/-- A contract of a kind whose storage was never written. -/
def Kind.blank : Kind → Contract
  | stable => .stable {}
  | share => .share {}
  | yieldVault => .yieldVault {}
  | fixedRate => .fixedRate {}
  | synthetic => .synthetic {}
  | wrapped => .wrapped {}
  | custody => .custody {}
  | router => .router {}
  | registry => .registry {}
  | roles => .roles {}
  | ledger => .ledger {}

/-- The kind of a contract. -/
def kind : Contract → Kind
  | stable _ => .stable
  | share _ => .share
  | yieldVault _ => .yieldVault
  | fixedRate _ => .fixedRate
  | synthetic _ => .synthetic
  | wrapped _ => .wrapped
  | custody _ => .custody
  | router _ => .router
  | registry _ => .registry
  | roles _ => .roles
  | ledger _ => .ledger

/-- The books of a contract that has a supply, balances and allowances. -/
def books? : Contract → Option Token.Ledger
  | stable t => some t.ledger
  | share t => some t.ledger
  | yieldVault v => some v.ledger
  | fixedRate s => some s.ledger
  | synthetic s => some s.ledger
  | ledger l => some l
  | _ => none

/-- Change the books of a token. The stable token changes its own way, since it also publishes what
it changes. A ledger that stands by itself is no token: it does not know who calls. -/
def keepBooks (onStable : Token.Stable → Result Token.Stable)
    (onLedger : Token.Ledger → Result Token.Ledger) : Contract → Option (Result Contract)
  | stable t => some do pure (.stable (← onStable t))
  | share t => some do pure (.share { t with ledger := ← onLedger t.ledger })
  | yieldVault v => some do pure (.yieldVault { v with ledger := ← onLedger v.ledger })
  | fixedRate s => some do pure (.fixedRate { s with ledger := ← onLedger s.ledger })
  | synthetic s => some do pure (.synthetic { s with ledger := ← onLedger s.ledger })
  | _ => none

end Contract

end Treasury
