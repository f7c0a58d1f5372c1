import Treasury.Proofs.DepositValue
import Treasury.Proofs.ExitPrice
import Treasury.Proofs.WithdrawalValue

/-! Depositing and redeeming at once. A deposit buys shares at the backing before it and raises all
managed value by no more than it takes, so the shares are never worth more than was deposited when
they are redeemed next. -/
namespace Treasury

open Exec Chain

/-- Shares that were bought at their price are worth no more than was paid for them, as long as the
backing has grown by no more than that. -/
theorem ShareToken.gross_le_of_bought {paid minted backing backing' supply gross : Nat}
    (hPrice : minted * backing ≤ paid * supply) (hGrown : backing' ≤ backing + paid)
    (hWorth : gross * (supply + minted) ≤ minted * backing') (hSome : supply ≠ 0) :
    gross ≤ paid := by
  have hAll : gross * (supply + minted) ≤ paid * (supply + minted) :=
    calc gross * (supply + minted)
        ≤ minted * backing' := hWorth
      _ ≤ minted * (backing + paid) := Nat.mul_le_mul_left _ hGrown
      _ = minted * backing + paid * minted := by rw [Nat.mul_add, Nat.mul_comm paid]
      _ ≤ paid * supply + paid * minted := Nat.add_le_add_right hPrice _
      _ = paid * (supply + minted) := (Nat.mul_add _ _ _).symm
  exact Nat.le_of_mul_le_mul_right hAll (by omega)

/-- Shares are bought at the backing before the call, and cost no less than their part of it. -/
structure Wiring.Buys (w : Wiring) (paid minted backing : Nat) (c c' : Chain) : Prop where
  assets : ShareToken.totalAssets w.share c = .ok backing
  supply : c'.supply w.share = c.supply w.share + minted
  price : minted * backing ≤ paid * c.supply w.share

namespace Wiring

variable {w : Wiring} {c c' : Chain} {user : Address} {q : Custody}

/-- The value behind all shares is all managed value less the shortfall. -/
theorem Fixed.totalAssets_spec (h : w.Fixed c q) {b : Nat}
    (hAssets : ShareToken.totalAssets w.share c = .ok b) :
    b = w.managed c q.supported.toList - (c.routing w.router).shortfall := by
  obtain ⟨t, ht, hRouter⟩ := h.complete.share
  obtain ⟨s, nav, hs, hNav, hRest⟩ :=
    (ShareToken.backing_eq_ok hRouter).1 ((ShareToken.totalAssets_eq_ok ht).1 hAssets)
  obtain ⟨-, hManaged⟩ := h.totalManagedAssets_ok hNav
  rw [routing_of hs, ← hManaged, hRest]

/-- What is taken in raises the backing by no more, since the shortfall stays. -/
theorem Fixed.backing_le (h : w.Fixed c q) {taken loss b b' : Nat}
    (hConserves : w.Conserves q.supported.toList taken 0 loss c c') (hFlow : Flow user c c')
    (hBefore : ShareToken.totalAssets w.share c = .ok b)
    (hAfter : ShareToken.totalAssets w.share c' = .ok b') : b' ≤ b + taken := by
  have hUpper := hConserves.upper
  have hShortfall : (c'.routing w.router).shortfall = (c.routing w.router).shortfall :=
    hFlow.routing (G := Router.State.shortfall) (fun _ _ => rfl) (fun _ => rfl) w.router
  rw [h.totalAssets_spec hBefore, (hConserves.steady.fixed h).totalAssets_spec hAfter, hShortfall]
  omega

/-- A flow leaves the adapters of all registered pools as they are. -/
theorem FixedRatePools.flow (h : w.FixedRatePools c) (hFlow : Flow user c c') :
    w.FixedRatePools c' := by
  have hRegistry : (c'.routing w.router).registry = (c.routing w.router).registry :=
    hFlow.routing (G := Router.State.registry) (fun _ _ => rfl) (fun _ => rfl) w.router
  intro config hConfig
  rw [hRegistry] at hConfig
  rw [hFlow.kind?, h config hConfig]

end Wiring

namespace ShareToken

variable {wiring : Wiring} {w : World} {s : Router.State} {q : Custody}
  {caller receiver owner : Address}

/-- A user's deposit buys shares. -/
theorem after_deposit_buys {back : Router.Callback} {assets : Amount}
    (h : wiring.Stands w.chain s q) (hPayer : w.chain.kind? caller = none)
    (hSupply : w.chain.supply wiring.share ≠ 0) :
    After (ShareToken.deposit back wiring.share caller assets receiver) w fun minted v =>
      ∃ backing, wiring.Buys assets minted backing w.chain v.chain := by
  obtain ⟨token, hToken, hKnown⟩ := h.fixed.complete.share
  have hLedger : w.chain.supply wiring.share = token.ledger.supply := by
    rw [Chain.supply, books?_of_contract? hToken]
    rfl
  simp only [ShareToken.deposit, after_entering, after_bind, after_view, after_result,
    View.callee_eq_ok, ensure_eq_ok, forall_const, known_eq_ok, after_update, after_pure]
  intro t hShare _ shares hShares _ router hRouter
  obtain rfl : token = t := storage_unique hToken hShare
  obtain rfl : wiring.router = router := Option.some.inj (hKnown.symm.trans hRouter)
  obtain ⟨backing, hBacking, hPrice⟩ := sharesFor_le hShares (hLedger ▸ hSupply)
  refine After.mono (Router.after_handleDeposit_takesIn (by exact h) (by rfl) (by exact hPayer)) ?_
  intro _ v hDone t' t'' hOld hMint
  obtain ⟨l, hMinted, ⟨⟩⟩ := Result.bind_eq_ok.1 hMint
  have hSame : v.chain.supply wiring.share = w.chain.supply wiring.share :=
    hDone.1.supply (kind?_of_contract? hToken)
  refine ⟨backing, (totalAssets_eq_ok hToken).2 hBacking, ?_, hLedger ▸ hPrice⟩
  obtain ⟨-, -, hMore⟩ := Token.Ledger.mint_spec hMinted
  rw [← hSame, Chain.supply, books?_put hOld, if_pos rfl, Chain.supply, books?_of_contract? hOld]
  exact hMore

end ShareToken

namespace Wiring.Stands

variable {w : Wiring} {c : Chain} {s : Router.State} {q : Custody} {user : Digest}
  {out : Outcome} {n : Amount}

/-- What a user's deposit for itself leaves behind. -/
theorem after_deposit (h : w.Stands c s q) (hUser : c.kind? (.account user) = none)
    (hSupply : c.supply w.share ≠ 0)
    (hCall : c.submit (.account user) w.share (.share (.deposit n (.account user))) = .ok out) :
    ∃ minted loss backing, out.answer = .amount minted ∧ Flow (.account user) c out.chain ∧
      w.TakesIn s q (.account user) n loss c out.chain ∧
      w.Buys n minted backing c out.chain := by
  have hFlow : After (ShareToken.deposit c.callback w.share (.account user) n (.account user))
      { chain := c } fun _ v => Flow (.account user) c v.chain :=
    ShareToken.after_deposit (Router.callsBack_nested (.account user) c.contracts.length) rfl
  have hTaken := hFlow.and (ShareToken.after_deposit_takesIn h hUser)
  have hBought := hTaken.and (ShareToken.after_deposit_buys h hUser hSupply)
  have hAfter : After ((Command.share (.deposit n (.account user))).run c.callback w.share
      (.account user)) { chain := c } fun answer v => ∃ minted loss backing,
        answer = .amount minted ∧ Flow (.account user) c v.chain ∧
        w.TakesIn s q (.account user) n loss c v.chain ∧ w.Buys n minted backing c v.chain := by
    refine after_map.2 (hBought.mono fun minted v hDone => ?_)
    obtain ⟨⟨hFlow, pool, _, _, -, -, hTaken⟩, backing, hBuys⟩ := hDone
    exact ⟨minted, _, backing, rfl, hFlow, hTaken, hBuys⟩
  exact of_submit hAfter hCall

/-- What a user's redemption for itself leaves behind. -/
theorem after_redeem (h : w.Stands c s q) (hUser : c.kind? (.account user) = none)
    (hCall : c.submit (.account user) w.share
      (.share (.redeem n (.account user) (.account user))) = .ok out) :
    ∃ net gross backing, out.answer = .amount net ∧ net ≤ gross ∧ backing ≠ 0 ∧
      w.Burns gross n backing c out.chain ∧ out.chain.balance w.stable (.account user) =
        c.balance w.stable (.account user) + net := by
  have hAfter : After ((Command.share (.redeem n (.account user) (.account user))).run c.callback
      w.share (.account user)) { chain := c } fun answer v => ∃ net gross backing,
        answer = .amount net ∧ net ≤ gross ∧ backing ≠ 0 ∧ w.Burns gross n backing c v.chain ∧
          v.chain.balance w.stable (.account user) =
            c.balance w.stable (.account user) + net := by
    refine after_map.2 (((ShareToken.after_redeem_burns h.fixed.complete h.router).and
      (ShareToken.after_redeem_pays h (h.payer_ne hUser))).mono fun net v hDone => ?_)
    obtain ⟨⟨gross, backing, split, hBacked, -, hBurned, hSplit, rfl⟩, -, hPaid⟩ := hDone
    have hReceived := hPaid (.account user) hUser
    rw [if_pos rfl] at hReceived
    exact ⟨split.net, gross, backing, rfl, Fee.net_le hSplit, hBacked, hBurned, hReceived⟩
  exact of_submit hAfter hCall

end Wiring.Stands

/-- Whoever deposits while shares are out, and redeems the shares that were issued for it next, gets
no more stable back than was deposited, whatever the backing was. -/
theorem WiredRun.round_trip_never_profits {w : Wiring} {c : Chain} (hRun : WiredRun w c)
    (hComplete : w.Complete c) (hPools : w.FixedRatePools c) (hSupply : c.supply w.share ≠ 0)
    {user : Digest} {assets minted : Amount} {bought paid : Outcome}
    (hDeposit : c.submit (.account user) w.share (.share (.deposit assets (.account user))) =
      .ok bought)
    (hMinted : bought.answer = .amount minted)
    (hRedeem : bought.chain.submit (.account user) w.share
      (.share (.redeem minted (.account user) (.account user))) = .ok paid) :
    ∃ net, paid.answer = .amount net ∧ net ≤ assets ∧
      bought.chain.supply w.share = c.supply w.share + minted ∧
      bought.chain.balance w.stable (.account user) + assets =
        c.balance w.stable (.account user) ∧
      paid.chain.balance w.stable (.account user) =
        bought.chain.balance w.stable (.account user) + net := by
  obtain ⟨s, q, hStands⟩ := hRun.stands hComplete hPools
  have hUser := hRun.account_free user
  obtain ⟨n, loss, backing, hAnswer, hFlow, hTaken, hBuys⟩ :=
    hStands.after_deposit hUser hSupply hDeposit
  obtain rfl : minted = n := by
    rw [hMinted] at hAnswer
    cases hAnswer
    rfl
  -- The run goes on after the deposit, so the redemption can be looked at by itself.
  have hAction : (Action.call user w.share _).run c = .ok bought.chain :=
    Result.bind_eq_ok.2 ⟨bought, hDeposit, rfl⟩
  have hRun' : WiredRun w bought.chain := hRun.step hAction (hRun.kept.effect (.flow hFlow))
  have hComplete' := (hTaken.conserves.steady.fixed hStands.fixed).complete
  obtain ⟨s', q', hStands'⟩ := hRun'.stands hComplete' (hPools.flow hFlow)
  obtain ⟨net, gross, backing', hNet, hLess, hBacked, hBurns, hReceived⟩ :=
    hStands'.after_redeem (hRun'.account_free user) hRedeem
  have hGrown : backing' ≤ backing + assets :=
    hStands.fixed.backing_le hTaken.conserves hFlow hBuys.assets hBurns.assets
  have hWorth : gross * (c.supply w.share + minted) ≤ minted * backing' := by
    rw [← hBuys.supply]
    exact hBurns.worth hBacked
  have hGross : gross ≤ assets :=
    ShareToken.gross_le_of_bought hBuys.price hGrown hWorth hSupply
  exact ⟨net, hNet, Nat.le_trans hLess hGross, hBuys.supply, hTaken.paid, hReceived⟩

/-- At a rate of 1.5 and with a fee of 1 %, 1000 of 3000 are deposited and 300 are written off.
Another 1000 buy 1430 shares, which pay 990 at once. -/
theorem WiredRun.round_trip_never_profits_redeemed : ∃ c minted bought paid,
    WiredRun Standard.places c ∧ Standard.places.Complete c ∧
      Standard.places.FixedRatePools c ∧ c.supply Standard.share = 1000 ∧
      c.submit (.account 1) Standard.share (.share (.deposit 1000 (.account 1))) = .ok bought ∧
      bought.answer = .amount minted ∧
      bought.chain.submit (.account 1) Standard.share
        (.share (.redeem minted (.account 1) (.account 1))) = .ok paid ∧
      ∃ net, paid.answer = .amount net ∧ net ≤ 1000 := by
  have hEnd : (Standard.places.follow {} (Standard.pooled 0 1
      { admin := .account 0, withdrawalFee := 10_000 } 1_500_000_000_000_000_000 3000 ++
      [.call 1 Standard.share (.share (.deposit 1000 (.account 1))),
        .call 0 Standard.router (.router (.recordShortfall 300))])).any (fun c =>
      Standard.places.completes c && (c.submit (.account 1) Standard.share
        (.share (.deposit 1000 (.account 1)))).toOption.any fun bought =>
          decide (Standard.places.FixedRatePools c) && (c.supply Standard.share == 1000 &&
            bought.answer.amount?.any fun minted =>
              (bought.chain.submit (.account 1) Standard.share
                (.share (.redeem minted (.account 1) (.account 1)))).toOption.isSome)) = true := by
    decide +kernel
  obtain ⟨c, bought, hRun, hComplete, hCall, hHolds⟩ := Wiring.exists_submit hEnd
  simp only [Bool.and_eq_true, decide_eq_true_eq, beq_iff_eq] at hHolds
  obtain ⟨hPools, hSupply, hAgain⟩ := hHolds
  obtain ⟨minted, hAnswer, hIsSome⟩ := (Option.any_eq_true _ _).1 hAgain
  obtain ⟨paid, hPaid⟩ := Option.isSome_iff_exists.1 hIsSome
  have hMinted := Answer.of_amount? hAnswer
  have hRedeem := Result.of_toOption hPaid
  have hSome : c.supply Standard.share ≠ 0 := by omega
  obtain ⟨net, hNet, hLess, -⟩ :=
    round_trip_never_profits hRun hComplete hPools hSome hCall hMinted hRedeem
  exact ⟨c, minted, bought, paid, hRun, hComplete, hPools, hSupply, hCall, hMinted, hRedeem,
    net, hNet, hLess⟩

end Treasury
