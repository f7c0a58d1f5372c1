import Treasury.Router.PoolCycle

/-! Putting idle fees to work. Anyone may ask for it: the asker gets a part of the fees, and the
rest goes into the default pool. -/
namespace Treasury.Router

/-- What became of idle fees. -/
structure Reinvested where
  reinvested : Amount
  incentive : Amount
deriving DecidableEq, Repr, Inhabited

/-- Pay the caller its part of the idle fees, and deposit the rest into the default pool. -/
def reinvestFees (back : Callback) (f : Frame) : Exec Reinvested :=
  guarded f "reinvest_fees" fun f s => do
    s.requireRunning
    let idle ← idleBalance f.self
    ensure (idle ≠ 0) .zeroAmount
    match s.defaultPool with
    | none => refuse .defaultPoolNotSet
    | some pool =>
      let config ← s.registry.require pool
      ensure (config.status.acceptsDeposits = true) .poolNotDepositEligible
      let incentive ← Fee.part idle s.reinvestIncentive
      let reinvested ← Amount.sub idle incentive
      ensure (reinvested ≠ 0) .zeroAmount
      if incentive ≠ 0 then
        Token.transfer f.self (← known s.stable) f.caller incentive
      discard (depositIntoPool back f config reinvested)
      Exec.update f.self fun s : State => s.reinvest reinvested incentive
      Exec.emit f.self (.feesReinvested f.caller pool reinvested incentive)
      pure ⟨reinvested, incentive⟩

end Treasury.Router
