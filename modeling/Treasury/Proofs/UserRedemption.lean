import Treasury.Proofs.Postings
import Treasury.Proofs.Redemptions
import Treasury.Proofs.WithdrawalChoice

/-! A user's redemption from end to end. The shares are burned before the router looks at its pools,
which finds the same as before. One pool gives up enough of its shares for the gross worth; what it
pays above the net amount stays with the router, and is counted as fees collected. -/
namespace Treasury

open Exec Chain
open Token (Entry Posting)

variable {w : Wiring} {c c' : Chain} {s : Router.State} {q : Custody} {f : Router.Frame}
  {caller initiator receiver owner : Address} {shares gross net : Amount} {split : Fee.Split}
  {es : List (Address × Event)}

/-- A payout is what the picked pool posts for the gross amount, and what the receiver gets and the
router keeps of it. -/
theorem Wiring.Stands.nets_payOut (h : w.Stands c s q) (hSelf : f.self = w.router)
    {result : Fee.Split}
    (hEnds : Ends (Router.payOut f s initiator receiver owner gross split) c result c' es) :
    ∃ pools i config x c₁ paid, Router.snapshots s .withdrawal c = .ok pools ∧
      Pool.Ranking.withdrawalPool pools gross = .ok i ∧ s.registry.toList[i]? = some config ∧
      c.contract? config.pool = some (.fixedRate x) ∧
      paid = (gross * rateScale ⌈/⌉ x.rate) * x.rate / rateScale ∧ gross ≤ paid ∧
      split.net ≤ paid ∧ c.Nets (w.released config.pool (gross * rateScale ⌈/⌉ x.rate) paid +
        w.settled receiver split.net (paid - split.net)) c₁ ∧
      c' = c₁.collecting w.router (paid - split.net) ∧ result = split := by
  obtain ⟨hStable, -, -⟩ := h.fixed.complete.links h.router
  simp only [Router.payOut, ends_view_bind, ends_result_bind] at hEnds
  obtain ⟨pools, hPools, i, hPick, hRest⟩ := hEnds
  cases hConfig : s.registry.toList[i]? with
  | none => simp [hConfig, refuse] at hRest
  | some config =>
    simp only [hConfig] at hRest
    obtain ⟨paid, c₁, _, _, hLeg, hRest, -⟩ := ends_bind.1 hRest
    simp only [ends_result_bind, known_eq_ok, Token.ends_transfer_bind, ends_update_bind] at hRest
    obtain ⟨t, ht, c₂, hPay, _, hKept, s₂, s₃, hs₂, hCollect, hRest⟩ := hRest
    obtain ⟨_, _, _, _, hEmit, hPure, -⟩ := ends_bind.1 hRest
    obtain ⟨rfl, -⟩ := ends_emit.1 hEmit
    obtain ⟨rfl, rfl, -⟩ := ends_pure.1 hPure
    obtain rfl : w.stable = t := Option.some.inj (hStable.symm.trans ht)
    obtain ⟨hNet, rfl⟩ := Amount.sub_eq_ok.1 hKept
    have hGet := h.agree.registry.get?_of_mem (List.mem_of_getElem? hConfig)
    obtain ⟨hEnough, x, hx, hPaid, hNets⟩ := h.nets_withdrawValue hSelf (h.adapter_eq hGet) hLeg
    rw [hSelf] at hPay hs₂
    refine ⟨pools, i, config, x, c₂, paid, hPools, hPick, hConfig, hx, hPaid, hEnough, hNet, ?_,
      ?_, rfl⟩
    · rw [Wiring.settled_sub hNet]
      convert hNets.trans hPay.nets_transfer using 1
      abel
    · rw [hSelf]
      exact put_eq_collecting hs₂ hCollect

/-- A redemption burns shares, and then has their worth paid out. -/
theorem ShareToken.retired_of_ends (hComplete : w.Complete c)
    (hs : c.contract? w.router = some (.router s))
    (hEnds : Ends (redeem w.share caller shares receiver owner) c net c' es) :
    ∃ t t' gross split result es', c.contract? w.share = some (.share t) ∧
      t.worth shares c = .ok gross ∧ t.retire caller owner shares = .ok t' ∧
      Fee.split gross s.withdrawalFee = .ok split ∧ net = result.net ∧
      Ends (Router.payOut ⟨w.router, w.share, [w.router]⟩ s caller receiver owner gross split)
        (c.put w.share (.share t')) result c' es' := by
  obtain ⟨t, ht, hRouter⟩ := hComplete.share
  have hNe : w.router ≠ w.share := ne_of_contracts hs ht (by simp)
  simp only [redeem, ends_entering, ends_view_bind, ends_result_bind, ends_update_bind,
    View.callee_eq_ok, known_eq_ok] at hEnds
  obtain ⟨t₁, ht₁, _, -, gross, hGross, _, -, t₂, t', ht₂, hRetire, router, hTo, expected, -,
    hRest⟩ := hEnds
  obtain rfl : t = t₁ := storage_unique ht ht₁
  obtain rfl : t = t₂ := storage_unique ht ht₂
  obtain rfl : w.router = router := Option.some.inj (hRouter.symm.trans hTo)
  obtain ⟨result, _, _, _, hPaid, hNet, -⟩ := ends_bind.1 hRest
  obtain ⟨rfl, rfl, -⟩ := ends_pure.1 hNet
  rw [Router.handleWithdraw_eq] at hPaid
  simp only [Router.ends_guarded, ends_result_bind] at hPaid
  obtain ⟨s', hs', -, _, -, _, -, _, -, split, hSplit, _, -, hPaid⟩ := hPaid
  have hs₁ := (contract?_put_of_ne c (.share t') hNe).trans hs
  obtain rfl : s = s' := storage_unique hs₁ hs'
  exact ⟨t, t', gross, split, result, _, ht, hGross, hRetire, hSplit, rfl, hPaid⟩

/-- Whatever has been done before, a redemption by an account that succeeds pays what was quoted. The
owner's shares are burned, and the pool that comes first for their worth gives up as many of its own
shares as that makes at its rate, rounded up, and pays what these are worth. The receiver gets the
net amount; the rest stays with the router and is counted as fees collected. Nothing else changes. -/
theorem WiredRun.redemption_settles {w : Wiring} {c : Chain} (hRun : WiredRun w c)
    (hComplete : w.Complete c) (hPools : w.FixedRatePools c) {caller : Digest} {shares : Amount}
    {receiver owner : Address} {out : Outcome}
    (hCall : c.submit (.account caller) w.share (.share (.redeem shares receiver owner)) =
      .ok out) :
    ∃ gross net reported p x paid, ShareToken.convertToAssets w.share shares c = .ok gross ∧
      out.answer = .amount net ∧ ShareToken.previewRedeem w.share shares c = .ok net ∧
      Router.allocations w.router c = .ok reported ∧
      reported.map Pool.Allocation.pool =
        (c.routing w.router).registry.toList.map Pool.Config.pool ∧
      Pool.PaysFirst p gross reported ∧ c.contract? p = some (.fixedRate x) ∧
      paid = (gross * rateScale ⌈/⌉ x.rate) * x.rate / rateScale ∧ gross ≤ paid ∧ net ≤ paid ∧
      (c.collecting w.router (paid - net)).Nets (w.burned (.account caller) owner shares +
        w.released p (gross * rateScale ⌈/⌉ x.rate) paid + w.settled receiver net (paid - net))
          out.chain := by
  obtain ⟨s, q, hStands⟩ := hRun.stands hComplete hPools
  have hs := hStands.router
  obtain ⟨net, es, hAnswer, hEnds⟩ := answer_of_submit rfl hCall
  obtain ⟨t, t', gross, split, result, _, ht, hGross, hRetire, hSplit, rfl, hPaid⟩ :=
    ShareToken.retired_of_ends hComplete hs hEnds
  have hStands₁ := hStands.retired ht hRetire
  obtain ⟨pools, i, config, x, c₁, paid, hSnapshots, hPick, hConfig, hx, hPays, hEnough, hNet,
    hNets, hOut, hSame⟩ := hStands₁.nets_payOut rfl hPaid
  rw [hSame] at hAnswer
  -- The pools are the same before the shares are burned, and so is the choice.
  rw [hPools.snapshots_frame hComplete hs ht (by simp [Contract.kind]) fun _ =>
    contract?_put_of_ne c _] at hSnapshots
  obtain ⟨all, hAll, hFirst⟩ := Router.paysFirst_of_picked hSnapshots hPick hConfig
  have hPool : config.pool ≠ w.share := by
    refine ne_of_contracts hx (contract?_put_self _ ht) (by simp)
  rw [contract?_put_of_ne c _ hPool] at hx
  obtain ⟨t₁, ht₁, hRouter⟩ := hComplete.share
  obtain rfl : t = t₁ := storage_unique ht ht₁
  refine ⟨gross, split.net, all.map Router.Surveyed.allocation, config.pool, x, paid,
    (ShareToken.convertToAssets_eq_ok ht).2 hGross, hAnswer, ?_, ?_, ?_, hFirst, hx, hPays, hEnough,
    hNet, ?_⟩
  · have hFee : Router.previewFee w.router gross c = .ok split :=
      View.bind_eq_ok.2 ⟨s, View.callee_eq_ok.2 hs, hSplit⟩
    refine (ShareToken.previewRedeem_eq_ok ht).2 (View.bind_eq_ok.2 ⟨gross, hGross,
      View.bind_eq_ok.2 ⟨w.router, known_eq_ok.2 hRouter, View.bind_eq_ok.2 ⟨split, hFee, rfl⟩⟩⟩)
  · exact View.bind_eq_ok.2 ⟨s, View.callee_eq_ok.2 hs, View.bind_eq_ok.2 ⟨all, hAll, rfl⟩⟩
  · rw [routing_of hs, ← (Router.survey_spec hAll).1, List.map_map, List.map_map]
    rfl
  · rw [hOut, add_assoc]
    exact ((Wiring.nets_retire ht hRetire).trans hNets).collecting hs _

/-- Of two pools with the same target, one holds 6000 at a rate of 1.5 and the other 4000. An account
may use 600 shares of another one, and redeems 497 of them, for 493 after the fee. The first pool
gives up 332 shares, which are worth 498. -/
theorem WiredRun.redemption_settles_of_two : ∃ c out reported,
    WiredRun Standard.places c ∧ Standard.places.Complete c ∧
      Standard.places.FixedRatePools c ∧
      c.submit (.account 2) Standard.share (.share (.redeem 497 (.account 3) (.account 1))) =
        .ok out ∧
      ShareToken.convertToAssets Standard.share 497 c = .ok 497 ∧ out.answer = .amount 493 ∧
      ShareToken.previewRedeem Standard.share 497 c = .ok 493 ∧
      Router.allocations Standard.router c = .ok reported ∧
      Pool.PaysFirst Standard.pool 497 reported ∧
      (c.collecting Standard.router 5).Nets (Standard.places.burned (.account 2) (.account 1) 497 +
        Standard.places.released Standard.pool 332 498 +
        Standard.places.settled (.account 3) 493 5) out.chain := by
  have hEnd : (Standard.places.follow {} (Standard.paired
      { admin := .account 0, withdrawalFee := 10_000 } 1_500_000_000_000_000_000 6000 4000 ++
      [.call 1 Standard.share (.token (.approve (.account 2) 600))])).any (fun c =>
      Standard.places.completes c && (c.submit (.account 2) Standard.share (.share
        (.redeem 497 (.account 3) (.account 1)))).toOption.any fun out =>
          decide (Standard.places.FixedRatePools c) && (out.answer.amount? == some 493 &&
            (ShareToken.convertToAssets Standard.share 497 c).toOption == some 497 &&
            c.rate Standard.pool == 1_500_000_000_000_000_000 &&
            (Router.allocations Standard.router c).toOption == some
              [⟨Standard.pool, 6000, 600_000, 500_000, .active, true⟩,
                ⟨.ofNumber 6, 4000, 400_000, 500_000, .active, true⟩])) = true := by decide +kernel
  obtain ⟨c, out, hRun, hComplete, hCall, hHolds⟩ := Wiring.exists_submit hEnd
  simp only [Bool.and_eq_true, decide_eq_true_eq, beq_iff_eq] at hHolds
  obtain ⟨hPools, ⟨⟨hAnswer, hWorth⟩, hRate⟩, hReported⟩ := hHolds
  obtain ⟨gross, net, reported, p, x, paid, hGross, hNet, hQuote, hAll, -, hFirst, hx, rfl, -, -,
    hNets⟩ := redemption_settles hRun hComplete hPools hCall
  have hWorth := Result.of_toOption hWorth
  have hReported := Result.of_toOption hReported
  obtain rfl : gross = 497 := Except.ok.inj (hGross.symm.trans hWorth)
  obtain rfl : net = 493 := Answer.amount.inj (hNet.symm.trans (Answer.of_amount? hAnswer))
  obtain rfl := Except.ok.inj (hAll.symm.trans hReported)
  obtain rfl : p = Standard.pool := by
    obtain ⟨i, a, hAt, rfl, -, hBefore⟩ := hFirst
    match i with
    | 0 => rw [← Option.some.inj hAt]
    | 1 =>
      obtain rfl := Option.some.inj hAt
      have hLess := hBefore 0 _ rfl ⟨rfl, by decide, by decide⟩ (by decide)
      exact absurd hLess (by decide)
    | _ + 2 => cases hAt
  rw [rate_of hx] at hRate
  rw [hRate] at hNets
  exact ⟨c, out, _, hRun, hComplete, hPools, hCall, hGross, hNet, hQuote, hAll, hFirst, hNets⟩

end Treasury
