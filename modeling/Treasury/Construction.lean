import Treasury.Yield.Vault

/-! Constructors. A contract is set up by a call that only its deployment can make. On a contract
that was deployed without it the same call can be made later, any number of times, and overwrites
only what it sets. -/
namespace Treasury

/-- What a contract is set up with. Registries and ledgers need nothing. -/
inductive Construction where
  | stable (admin : Address) (name symbol : String) (decimals : Nat)
  | share (admin asset : Address) (name symbol : String) (decimals : Nat)
  | yieldVault (admin asset : Address)
  | fixedRate (admin asset custodian : Address) (rate : Amount)
  | synthetic (admin asset custodian : Address)
  | wrapped (admin asset custodian vault : Address)
  | custody (admin : Address) (dustLimit : Amount) (dustPart : Nat)
  | router (setup : Router.Setup)
  | roles (admin : Address)
deriving DecidableEq, Repr

namespace Construction

/-- The kind of contract that is set up. -/
def kind : Construction → Contract.Kind
  | stable .. => .stable
  | share .. => .share
  | yieldVault .. => .yieldVault
  | fixedRate .. => .fixedRate
  | synthetic .. => .synthetic
  | wrapped .. => .wrapped
  | custody .. => .custody
  | router .. => .router
  | roles .. => .roles

/-- Set up the contract at `self`. A wrapped-vault adapter asks its vault what the vault holds. -/
def run (self caller : Address) : Construction → Exec Unit
  | stable admin name symbol decimals =>
    Exec.amend caller self "init" fun t : Token.Stable =>
      pure (t.construct admin name symbol decimals)
  | share admin asset name symbol decimals =>
    Exec.amend caller self "init" fun t : ShareToken =>
      pure (t.construct admin asset name symbol decimals)
  | yieldVault admin asset =>
    Exec.amend caller self "init" fun v : Yield.Vault =>
      pure { v with admin := some admin, asset := some asset }
  | fixedRate admin asset custodian rate =>
    Exec.amend caller self "init" fun s : Strategy.FixedRate =>
      s.construct admin asset custodian rate
  | synthetic admin asset custodian =>
    Exec.amend caller self "init" fun s : Strategy.Synthetic =>
      pure (s.construct admin asset custodian)
  | wrapped admin asset custodian vault =>
    Exec.entering caller self "init" do
      let _ : Strategy.Wrapped ← View.callee "init" self
      let heldAsset ← Yield.asset vault
      Exec.put self (.wrapped (← Strategy.Wrapped.construct heldAsset admin asset custodian vault))
  | custody admin dustLimit dustPart =>
    Exec.amend caller self "init" fun c : Custody => c.construct admin dustLimit dustPart
  | router setup =>
    Exec.amend caller self "init" fun s : Router.State => s.construct setup
  | roles admin =>
    Exec.amend caller self "init" fun r : Roles => r.found admin

end Construction

end Treasury
