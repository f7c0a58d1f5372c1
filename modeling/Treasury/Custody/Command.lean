import Treasury.Custody.Keeping

/-! Calls to custody contracts. -/
namespace Treasury

/-- A call to a custody contract. -/
inductive Custody.Command where
  | transferShares (pool : Address) (amount : Amount) (recipient : Address)
  | bindAdapter (pool adapter : Address)
  | unbindAdapter (pool : Address)
  | supportPool (pool : Address)
  | unsupportPool (pool : Address)
  | setRouter (router : Address)
  | setDust (dustLimit : Amount) (dustPart : Nat)
  | setAdmin (admin : Address)
deriving DecidableEq, Repr

/-- Run a call to a custody contract. -/
def Custody.Command.run (self caller : Address) : Custody.Command → Exec Unit
  | transferShares pool amount recipient => Custody.transferShares self caller pool amount recipient
  | bindAdapter pool adapter => Custody.bindAdapter self caller pool adapter
  | unbindAdapter pool => Custody.unbindAdapter self caller pool
  | supportPool pool => Custody.supportPool self caller pool
  | unsupportPool pool => Custody.unsupportPool self caller pool
  | setRouter router => Custody.changeRouter self caller router
  | setDust dustLimit dustPart =>
    Exec.amend caller self "set_dust_thresholds" fun c : Custody =>
      c.setDust caller dustLimit dustPart
  | setAdmin admin =>
    Exec.amend caller self "transfer_admin" fun c : Custody => c.setAdmin caller admin

end Treasury
