import Treasury.Proofs.DepositPaths
import Treasury.Proofs.Postings

/-! A user's deposit from end to end. The router takes the stable before it looks at its pools, and
gives and ends an allowance on the way; what is left in the end is stable that has gone from the
account into the pool that was next, shares of that pool in custody, and shares of the treasury. -/
namespace Treasury

open Exec Chain
open Token (Entry Posting Ledger)

/-- What a user's deposit posts. The payer's stable goes to a pool, on the strength of what the payer
lets the router take; the receiver gets new shares of the treasury, and the custody contract new
shares of the pool. -/
def Wiring.deposited (w : Wiring) (payer receiver p : Address) (assets minted shares : Nat) :
    Posting :=
  (Entry.balance w.stable p).gains assets - (Entry.balance w.stable payer).gains assets -
    (Entry.allowance w.stable payer w.router).gains assets +
    (Entry.balance w.share receiver).gains minted + (Entry.supply w.share).gains minted +
    (Entry.balance p w.custody).gains shares + (Entry.supply p).gains shares

variable {w : Wiring} {c c' : Chain} {s : Router.State} {q : Custody} {p payer receiver : Address}
  {a n : Amount} {back : Router.Callback} [back.Adds] {config : Pool.Config}

namespace Router

/-- The pool at the position that is chosen is the next one. -/
theorem nextDepositPool_of (hs : c.contract? w.router = some (.router s))
    {pools : List Pool.Snapshot} (hPools : snapshots s .deposit c = .ok pools)
    (hChosen : ((Pool.Ranking.depositPool pools).bind fun i => s.registry.toList[i]?) =
      some config) :
    nextDepositPool w.router c = .ok (some config.pool) := by
  obtain ⟨i, hIndex, hConfig⟩ := Option.bind_eq_some_iff.1 hChosen
  obtain ⟨found, hFound, -⟩ := Pool.Ranking.depositPool_eligible hIndex
  obtain ⟨config', value, weight, hConfig', -, rfl⟩ := snapshots_spec hPools hFound
  obtain rfl : config = config' := Option.some.inj (hConfig.symm.trans hConfig')
  refine View.bind_eq_ok.2 ⟨s, View.callee_eq_ok.2 hs, View.bind_eq_ok.2 ⟨pools, hPools, ?_⟩⟩
  rw [hIndex, Option.bind_some, hFound]
  rfl

omit [back.Adds] in
/-- What is invested goes into a pool that was chosen. -/
theorem chosen_of_ends_invest {f : Frame} {u : Unit} {es : List (Address × Event)}
    (hEnds : Ends (invest back f s payer receiver a) c u c' es) :
    ∃ pools config, snapshots s .deposit c = .ok pools ∧
      ((Pool.Ranking.depositPool pools).bind fun i => s.registry.toList[i]?) = some config := by
  rw [invest, ends_view_bind] at hEnds
  obtain ⟨pools, hPools, hRest⟩ := hEnds
  cases hChosen : (Pool.Ranking.depositPool pools).bind fun i => s.registry.toList[i]? with
  | none => simp [hChosen, refuse] at hRest
  | some config => exact ⟨pools, config, hPools, hChosen⟩

/-- The router chooses after it has taken the stable, and would have chosen the same before. -/
theorem chosen_of_ends_handleDeposit (h : w.Open c s) {u : Unit} {es : List (Address × Event)}
    (hEnds : Ends (handleDeposit back ⟨w.router, w.share, []⟩ payer a n receiver) c u c' es) :
    ∃ pools config, snapshots s .deposit c = .ok pools ∧
      ((Pool.Ranking.depositPool pools).bind fun i => s.registry.toList[i]?) = some config := by
  obtain ⟨hStable, -, -⟩ := h.complete.links h.router
  simp only [handleDeposit_eq, ends_guarded, ends_result_bind, ends_view_bind,
    ends_pullStable_bind] at hEnds
  obtain ⟨s', hs', -, _, -, _, -, _, -, _, -, s'', t, c₁, hs'', ht, hPull, hRest⟩ := hEnds
  obtain rfl : s = s' := storage_unique h.router hs'
  obtain rfl : s = s'' := storage_unique h.router hs''
  obtain rfl : w.stable = t := Option.some.inj (hStable.symm.trans ht)
  obtain ⟨pools, config, hPools, hChosen⟩ := chosen_of_ends_invest hRest
  obtain ⟨stable, hUnit⟩ := h.complete.stable
  rw [h.fixedRate.snapshots_frame h.complete h.router hUnit (by simp [Contract.kind]) fun _ =>
    hPull.frame] at hPools
  exact ⟨pools, config, hPools, hChosen⟩

end Router

/-- A user's deposit invests in the pool that is next. -/
theorem ShareToken.invests_of_ends (h : w.Open c s) {es : List (Address × Event)}
    (hEnds : Ends (deposit back w.share payer a receiver) c n c' es) :
    ∃ config, Router.nextDepositPool w.router c = .ok (some config.pool) ∧
      s.registry.get? config.pool = some config ∧ config.status.acceptsDeposits = true ∧
      w.Invests back s config payer receiver a n c c' := by
  have hChosen : ∃ pools config, Router.snapshots s .deposit c = .ok pools ∧
      ((Pool.Ranking.depositPool pools).bind fun i => s.registry.toList[i]?) = some config := by
    obtain ⟨t, ht, hRouter⟩ := h.complete.share
    simp only [deposit, ends_entering, ends_view_bind, ends_result_bind, View.callee_eq_ok,
      known_eq_ok] at hEnds
    obtain ⟨t', ht', _, -, shares, -, _, -, router, hTo, hRest⟩ := hEnds
    obtain rfl : t = t' := storage_unique ht ht'
    obtain rfl : w.router = router := Option.some.inj (hRouter.symm.trans hTo)
    obtain ⟨_, _, _, _, hDeposit, -, -⟩ := ends_bind.1 hRest
    exact Router.chosen_of_ends_handleDeposit h hDeposit
  obtain ⟨pools, config, hPools, hChosen⟩ := hChosen
  have hNext := Router.nextDepositPool_of h.router hPools hChosen
  obtain ⟨pools', config', hPools', hChosen', hPool, hRequire, hStatus⟩ :=
    Router.nextDepositPool_spec h hNext
  obtain rfl : pools = pools' := Except.ok.inj (hPools.symm.trans hPools')
  obtain rfl : config = config' := Option.some.inj (hChosen.symm.trans hChosen')
  exact ⟨config, hNext, Pool.Registry.require_eq_ok.1 hRequire, ensure_eq_ok.1 hStatus,
    (ends_deposit h hPools hChosen).1 ⟨es, hEnds⟩⟩

/-- What is invested is posted. -/
theorem Wiring.Stands.nets_invests (h : w.Stands c s q)
    (hGet : s.registry.get? config.pool = some config)
    (hStatus : config.status.acceptsDeposits = true)
    (hInvests : w.Invests back s config payer receiver a n c c') :
    ∃ x, c.contract? config.pool = some (.fixedRate x) ∧ c.Nets
      (w.deposited payer receiver config.pool a n (a * rateScale / x.rate)) c' := by
  obtain ⟨c₁, m, c₂, es, t, l, hPull, hLeg, ht, hMint, rfl⟩ := hInvests.invested
  have h₁ := h.moves hPull (by simp)
  have hCounts := h.counts hGet hStatus
  obtain ⟨-, x, hx⟩ := h.fixed.pools _ hCounts
  obtain ⟨l₁, hx₁⟩ := hPull.alike.fixedRate hx
  obtain ⟨u, hu⟩ := h₁.fixed.complete.stable
  obtain ⟨hEnters, -⟩ := Router.enters_of_ends h₁ rfl (h₁.adapter_eq hGet hCounts) hCounts hLeg
  obtain ⟨_, _, -, -, -, -, -, hShares, -⟩ :=
    (Wiring.enters_iff hu hx₁ (h₁.fixed.stable_ne hCounts)).1 hEnters
  obtain ⟨-, -, rfl⟩ := Amount.mulDiv_eq_ok.1 hShares
  have hIssued : c₂.Nets _ (c₂.put w.share (.share { t with ledger := l })) :=
    nets_put ht rfl rfl rfl (Ledger.nets_mint w.share hMint)
  refine ⟨x, hx, ?_⟩
  convert (h₁.nets_brought hCounts hPull hEnters).trans hIssued using 1
  unfold Wiring.deposited Wiring.brought
  abel

/-- Whatever has been done before, a deposit of an account that succeeds mints the shares that were
quoted for it. The account's stable goes into the pool that was next, which issues shares for it at
its rate to the custody contract; that is all that changes. -/
theorem WiredRun.deposit_settles {w : Wiring} {c : Chain} (hRun : WiredRun w c)
    (hComplete : w.Complete c) (hPools : w.FixedRatePools c) {depositor : Digest} {assets : Amount}
    {receiver : Address} {out : Outcome}
    (hCall : c.submit (.account depositor) w.share (.share (.deposit assets receiver)) = .ok out) :
    ∃ minted p x, out.answer = .amount minted ∧
      ShareToken.previewDeposit w.share assets c = .ok minted ∧
      Router.nextDepositPool w.router c = .ok (some p) ∧ c.contract? p = some (.fixedRate x) ∧
      c.Nets (w.deposited (.account depositor) receiver p assets minted
        (assets * rateScale / x.rate)) out.chain := by
  obtain ⟨s, q, hStands⟩ := hRun.stands hComplete hPools
  have hOpen : w.Open c s := ⟨hComplete, hStands.router, hStands.agree.registry, hPools⟩
  obtain ⟨minted, es, hAnswer, hEnds⟩ := answer_of_submit rfl hCall
  obtain ⟨config, hNext, hGet, hStatus, hInvests⟩ := ShareToken.invests_of_ends hOpen hEnds
  obtain ⟨x, hx, hPosts⟩ := hStands.nets_invests hGet hStatus hInvests
  obtain ⟨t, ht, hPrice⟩ := hInvests.price
  exact ⟨minted, config.pool, x, hAnswer, (ShareToken.previewDeposit_eq_ok ht).2 hPrice, hNext, hx,
    hPosts⟩

/-- At a rate of 1.5, the 33 shares of the pool that 50 were deposited for are worth 49. Another 31
buy 20 shares of the pool, and 31 of the treasury for somebody else. -/
theorem WiredRun.deposit_settles_invested : ∃ c out,
    WiredRun Standard.places c ∧ Standard.places.Complete c ∧
      Standard.places.FixedRatePools c ∧
      c.submit (.account 1) Standard.share (.share (.deposit 31 (.account 2))) = .ok out ∧
      out.answer = .amount 31 ∧ ShareToken.previewDeposit Standard.share 31 c = .ok 31 ∧
      c.Nets (Standard.places.deposited (.account 1) (.account 2) Standard.pool 31 31 20)
        out.chain := by
  have hEnd : (Standard.places.follow {} (Standard.pooled 0 1
      { admin := .account 0 } 1_500_000_000_000_000_000 100 ++
      [.call 1 Standard.share (.share (.deposit 50 (.account 1)))])).any (fun c =>
      Standard.places.completes c && (c.submit (.account 1) Standard.share (.share
        (.deposit 31 (.account 2)))).toOption.any fun out =>
          decide (Standard.places.FixedRatePools c) &&
            (Router.nextDepositPool Standard.router c).toOption == some (some Standard.pool) &&
            c.rate Standard.pool == 1_500_000_000_000_000_000 &&
            out.answer.amount? == some 31) = true := by decide +kernel
  obtain ⟨c, out, hRun, hComplete, hCall, hHolds⟩ := Wiring.exists_submit hEnd
  simp only [Bool.and_eq_true, decide_eq_true_eq, beq_iff_eq] at hHolds
  obtain ⟨⟨⟨hPools, hNext⟩, hRate⟩, hAnswer⟩ := hHolds
  obtain ⟨minted, p, x, hMinted, hQuote, hNext', hx, hNets⟩ :=
    deposit_settles hRun hComplete hPools hCall
  have hPick := Result.of_toOption hNext
  obtain rfl : p = Standard.pool := Option.some.inj (Except.ok.inj (hNext'.symm.trans hPick))
  obtain rfl : minted = 31 := Answer.amount.inj (hMinted.symm.trans (Answer.of_amount? hAnswer))
  rw [rate_of hx] at hRate
  rw [hRate] at hNets
  exact ⟨c, out, hRun, hComplete, hPools, hCall, hMinted, hQuote, hNets⟩

end Treasury
