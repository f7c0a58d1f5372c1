import Treasury.Submission

/-! The standard treasury: a stable token, a custody contract, a router and a share token, deployed
in this order by one admin and pointed at each other. -/
namespace Treasury.Standard

/-- The parameters of a standard treasury. -/
structure Parameters where
  admin : Address
  /-- A residual value below this can be dust. -/
  dustLimit : Amount := 10
  /-- The part of all value below which a residual value can be dust. -/
  dustPart : Nat := 1_000
  withdrawalFee : Nat := 0
  dustTolerance : Amount := 5
  depositCap : Amount := 0
  reinvestIncentive : Nat := 0
  maxPoolCount : Nat := defaultMaxPoolCount
deriving DecidableEq, Repr

/-- The stable token's address. -/
def stable : Address := .ofNumber 1

/-- The custody contract's address. -/
def custody : Address := .ofNumber 2

/-- The router's address. -/
def router : Address := .ofNumber 3

/-- The share token's address. -/
def share : Address := .ofNumber 4

namespace Parameters

/-- What the router is set up with. -/
def setup (p : Parameters) : Router.Setup where
  admin := p.admin
  stable := Standard.stable
  custody := Standard.custody
  withdrawalFee := p.withdrawalFee
  dustTolerance := p.dustTolerance
  depositCap := p.depositCap
  reinvestIncentive := p.reinvestIncentive
  maxPoolCount := p.maxPoolCount

/-- The four deployments. -/
def constructions (p : Parameters) : List Construction :=
  [.stable p.admin "Stable" "STBL" 18,
    .custody p.admin p.dustLimit p.dustPart,
    .router p.setup,
    .share p.admin Standard.stable "Allocator Share" "ASH" 18]

/-- The three calls that point the contracts at each other. -/
def wiring : List (Address × Command) :=
  [(Standard.custody, .custody (.setRouter Standard.router)),
    (Standard.router, .router (.setShareToken Standard.share)),
    (Standard.share, .share (.setRouter Standard.router))]

/-- The chain on which a standard treasury has just been deployed. -/
def chain (p : Parameters) : Result Chain := do
  let deployed ← p.constructions.foldlM (fun c each => c.deploy p.admin each) {}
  wiring.foldlM (fun c call => do pure (← c.submit p.admin call.1 call.2).chain) deployed

end Parameters

end Treasury.Standard
