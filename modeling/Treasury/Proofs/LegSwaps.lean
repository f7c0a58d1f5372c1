import Treasury.Proofs.FixedLegs
import Treasury.Proofs.Reordering

/-! Legs on different fixed-rate pools can be swapped. They share the router's stable, from which
deposits are paid and into which withdrawals go, and nothing else. -/
namespace Treasury

open Exec Chain
open Relation (Comp)

namespace Token.Ledger

variable {l l' : Ledger} {pool keeper taker : Address} {n : Amount}

/-- Shares that are taken back leave the account that they pass through as it was. -/
theorem balanceOf_reclaim (hNe : keeper ≠ taker) (h : l.reclaim pool keeper taker n = .ok l') :
    l'.balanceOf taker = l.balanceOf taker := by
  simp only [reclaim, Result.bind_eq_ok] at h
  obtain ⟨given, hGive, taken, hTake, ⟨⟩⟩ := h
  have hGiven := (transfer_spec hGive).1 taker
  have hTaken := (takeShares_spec hTake).1 taker
  simp only [if_neg hNe.symm, if_true, Nat.add_zero] at hGiven hTaken
  change given.balanceOf taker = _ at hGiven
  change taken.balanceOf taker = _
  change taken.balanceOf taker + n = given.balanceOf taker at hTaken
  rw [hGiven] at hTaken
  exact Nat.add_right_cancel hTaken

/-- Nothing can be handed over as long as the taker's balance is in range. -/
theorem transfer_zero (hNe : taker ≠ keeper) : l.transfer keeper taker 0 = .ok l' ↔
    l.balanceOf taker < Amount.bound ∧ l = l' := by
  rw [transfer_eq_ok hNe, handed_zero, CanHand, Nat.add_zero]
  simp only [Nat.zero_le, true_and]

end Token.Ledger

/-- A payment of nothing changes nothing. -/
theorem Contract.keepBooks_zero {s : Strategy.FixedRate} {giver taker : Address} {y : Contract}
    (hNe : taker ≠ giver) :
    (Contract.fixedRate s).keepBooks (Token.Move.transfer giver taker 0).onStable
      (Token.Move.transfer giver taker 0).onLedger = some (.ok y) ↔
        s.ledger.balanceOf taker < Amount.bound ∧ .fixedRate s = y := by
  rw [keepBooks_fixedRate]
  constructor
  · rintro ⟨l, hMove, rfl⟩
    obtain ⟨hRange, rfl⟩ := (Token.Ledger.transfer_zero hNe).1 hMove
    exact ⟨hRange, rfl⟩
  · rintro ⟨hRange, rfl⟩
    exact ⟨_, (Token.Ledger.transfer_zero hNe).2 ⟨hRange, rfl⟩, rfl⟩

namespace Wiring

variable {w : Wiring} {p p' t t' : Address} {n n' m m' shares shares' : Amount}

/-- Deposits into different pools can be swapped. -/
theorem swaps_enters (hPools : p ≠ p') (hStable : p ≠ w.stable) (hStable' : p' ≠ w.stable)
    (hRouter : p ≠ w.router) (hRouter' : p' ≠ w.router) :
    Swaps (w.Enters p n m) (w.Enters p' n' m') := by
  have hLend : Swaps (Alters w.stable (Contract.Lent w.router p n))
      (Alters w.stable (Contract.Lent w.router p' n')) := by
    refine swaps_of_same ?_
    rintro _ _ _ ⟨hFirst⟩ ⟨hThen⟩
    obtain ⟨u, hThen, hFirst⟩ := Token.Stable.lend_swap hPools hRouter hRouter' hFirst hThen
    exact ⟨.stable u, ⟨hThen⟩, ⟨hFirst⟩⟩
  exact ((hLend.comp_right (swaps_of_ne hStable'.symm)).comp_left
    ((swaps_of_ne hStable).comp_right (swaps_of_ne hPools)))

section Departs

variable (hKeeper : w.custody ≠ w.router)

include hKeeper

/-- A pool can take shares back before or after another one pays: if what is paid are shares of it,
then nothing is paid. -/
theorem swaps_redeemed_pay (hTaker : w.router ≠ p') (hNothing : p = t' → n' = 0) :
    Swaps (Alters p (Contract.Redeemed w p t shares n))
      (Moves · t' (.transfer p' w.router n') ·) := by
  by_cases h : p = t'
  · subst h
    obtain rfl := hNothing rfl
    refine swaps_of_same ?_
    rintro _ _ z ⟨hSome, hOwed, hStable, hToken, hTake⟩ hPay
    obtain ⟨hRange, rfl⟩ := (Contract.keepBooks_zero hTaker).1 hPay
    rw [Token.Ledger.balanceOf_reclaim hKeeper hTake] at hRange
    exact ⟨_, (Contract.keepBooks_zero hTaker).2 ⟨hRange, rfl⟩, hSome, hOwed, hStable, hToken,
      hTake⟩
  · exact swaps_of_ne h

theorem swaps_pay_redeemed (hTaker : w.router ≠ p) (hNothing : p' = t → n = 0) :
    Swaps (Moves · t (.transfer p w.router n) ·)
      (Alters p' (Contract.Redeemed w p' t' shares' n')) := by
  by_cases h : p' = t
  · subst h
    obtain rfl := hNothing rfl
    refine swaps_of_same ?_
    rintro x _ _ hPay ⟨hSome, hOwed, hStable, hToken, hTake⟩
    obtain ⟨s, rfl⟩ : ∃ s, x = .fixedRate s := by
      obtain ⟨-, -, -, -, -, hBare⟩ := Contract.keepBooks_spec hPay
      cases x <;> first | exact ⟨_, rfl⟩ | simp [Contract.bare] at hBare
    obtain ⟨hRange, hSame⟩ := (Contract.keepBooks_zero hTaker).1 hPay
    cases hSame
    refine ⟨_, ⟨hSome, hOwed, hStable, hToken, hTake⟩, (Contract.keepBooks_zero hTaker).2 ⟨?_, rfl⟩⟩
    exact (Token.Ledger.balanceOf_reclaim hKeeper hTake).symm ▸ hRange
  · exact swaps_of_ne (Ne.symm h)

omit hKeeper in
/-- Nothing is paid in a token other than stable. -/
theorem Departs.nothing_of_ne {c c' : Chain} {a : Address} (h : w.Departs p t shares n c c')
    (hNe : a ≠ w.stable) : a = t → n = 0 := by
  rintro rfl
  obtain ⟨_, ⟨_, _, -, ⟨-, -, -, hToken, -⟩, -⟩, -⟩ := h
  exact hToken.resolve_left hNe

/-- Withdrawals from different pools can be swapped. -/
theorem swaps_departs (hPools : p ≠ p') (hRouter : w.router ≠ p) (hRouter' : w.router ≠ p')
    (hNothing : p = t' → n' = 0) (hNothing' : p' = t → n = 0) :
    Swaps (w.Departs p t shares n) (w.Departs p' t' shares' n') :=
  ((swaps_of_ne hPools).comp_right (swaps_redeemed_pay hKeeper hRouter' hNothing)).comp_left
    ((swaps_pay_redeemed hKeeper hRouter hNothing').comp_right (swaps_transfers hRouter hRouter'))

end Departs

end Wiring

/-- What holds after a call holds once it has ended. -/
theorem Exec.Ends.after {α : Type} {m : Exec α} {c c' : Chain} {a : α}
    {es : List (Address × Event)} {Q : α → World → Prop} (h : Ends m c a c' es)
    (hAfter : After m { chain := c } Q) : ∃ v, v.chain = c' ∧ Q a v := by
  obtain ⟨marks, h⟩ := h
  exact ⟨⟨c', es, marks⟩, rfl, hAfter _ _ h⟩

/-- A fold that only asks questions ends where it began, with what is answered there. -/
theorem Exec.Ends.foldlM_view {α β γ : Type} {ask : α → View γ} {combine : β → γ → Result β}
    {as : List α} {b r : β} {c c' : Chain} {es : List (Address × Event)}
    (h : Ends (as.foldlM (fun b a => do combine b (← ask a)) b : Exec β) c r c' es) :
    (as.foldlM (fun b a => do combine b (← ask a)) b : View β) c = .ok r ∧ c = c' := by
  obtain ⟨_, rfl, hAnswer⟩ := h.after (Q := fun r v =>
    (as.foldlM (fun b a => do combine b (← ask a)) b : View β) c = .ok r ∧ c = v.chain)
    ((after_foldlM_view as b).2 fun _ hr => ⟨hr, rfl⟩)
  exact hAnswer

namespace Wiring

variable {w : Wiring} {c c' : Chain} {s : Router.State} {q : Custody}

/-- Shares are quoted at a pool's rate, whatever is on the books. -/
theorem Fixed.previewShares_alike {p : Address} {n : Amount} (h : w.Fixed c q)
    (hCounts : q.supports p = true) (hAlike : Alike c c') :
    Strategy.previewShares p n c' = Strategy.previewShares p n c := by
  obtain ⟨-, x, hx⟩ := h.pools p hCounts
  obtain ⟨l, hx'⟩ := hAlike.fixedRate hx
  rw [Strategy.previewShares_fixedRate hx, Strategy.previewShares_fixedRate hx']

/-- A treasury stands as before when books have changed, as long as its router allows nobody
anything. -/
theorem Stands.alike (h : w.Stands c s q) (hAlike : Alike c c')
    (hReserved : ∀ t spender, c'.kind? t ≠ some .ledger → c'.allowance t w.router spender = 0) :
    w.Stands c' s q where
  fixed := (Steady.of_alike hAlike).fixed h.fixed
  router := hAlike.router h.router
  agree := h.agree.mono fun x _ hServes => hServes.of_same hAlike.kind? hAlike.1
    (pool?_of_outline? (hAlike.map Contract.outline_bare x))
  reserved := hReserved

/-- A treasury stands after a trade of others as it did before. -/
theorem Stands.trade {user : Address} (h : w.Stands c s q) (hTrade : Trade user c c')
    (hUser : w.router ≠ user) : w.Stands c' s q :=
  h.alike hTrade.alike (hTrade.allowance_eq_zero hUser h.reserved)

/-- A treasury stands after a token has been moved, unless its router has lent it. -/
theorem Stands.moves {t : Address} {m : Token.Move} (h : w.Stands c s q) (hMove : c.Moves t m c')
    (hApprove : ∀ owner x n, m = .approve owner x n → owner ≠ w.router) : w.Stands c' s q := by
  refine h.alike hMove.alike fun b spender hKind => ?_
  rw [hMove.alike.kind?] at hKind
  have hLess : c'.allowance b w.router spender ≤ c.allowance b w.router spender :=
    hMove.allowance_le hApprove
  rw [h.reserved b spender hKind] at hLess
  exact Nat.le_zero.1 hLess

end Wiring

theorem Address.exists_ne (a : Address) : ∃ b, a ≠ b := by
  cases a with
  | account d => exact ⟨.contract d, by simp⟩
  | contract d => exact ⟨.account d, by simp⟩

namespace Router

variable {w : Wiring} {c c' : Chain} {s : State} {q : Custody} {f : Frame} {config : Pool.Config}
  {n m : Amount} {es : List (Address × Event)}

section Deposits

variable {back : Callback} {p p' : Purchase} (hSelf : f.self = w.router)

include hSelf

theorem stands_of_purchase {u : Unit} (h : w.Stands c s q)
    (hAdapter : p.config.adapter = p.config.pool) (hCounts : q.supports p.config.pool = true)
    (hEnds : Ends (purchase back f p) c u c' es) : w.Stands c' s q := by
  obtain ⟨user, hUser⟩ := Address.exists_ne w.router
  obtain ⟨_, rfl, hTrade⟩ := hEnds.after (Q := fun _ v => Trade user c v.chain) (by
    simp only [purchase, after_bind, after_result]
    exact (after_depositIntoPool_converts user h.fixed hSelf hCounts (fun _ => hAdapter)
      h.reserved).mono fun _ _ hConverts _ _ => hConverts.trade)
  exact h.trade hTrade hUser

/-- Purchases from different pools can be made in either order. -/
theorem canFollow_purchase [back.Adds] (hAdapter : p.config.adapter = p.config.pool)
    (hCounts : q.supports p.config.pool = true) (hAdapter' : p'.config.adapter = p'.config.pool)
    (hCounts' : q.supports p'.config.pool = true) (hPools : p.config.pool ≠ p'.config.pool) :
    CanFollow (w.Stands · s q) (purchase back f p) (purchase back f p') := by
  intro c u u' c₁ c₂ es es' h hFirst hThen
  have h₁ := stands_of_purchase hSelf h hAdapter hCounts hFirst
  obtain ⟨⟨m, hFirst, hEnough⟩, hEs⟩ := (ends_purchase h hSelf hAdapter hCounts).1 hFirst
  obtain ⟨⟨m', hThen, hEnough'⟩, hEs'⟩ := (ends_purchase h₁ hSelf hAdapter' hCounts').1 hThen
  obtain ⟨c₃, hThen, hFirst⟩ := Wiring.swaps_enters hPools (h.fixed.stable_ne hCounts)
    (h.fixed.stable_ne hCounts') (h.fixed.router_ne hCounts).symm (h.fixed.router_ne hCounts').symm
    c c₁ c₂ hFirst hThen
  have hEnds' : Ends (purchase back f p') c u' c₃ es' :=
    (ends_purchase h hSelf hAdapter' hCounts').2 ⟨⟨m', hThen, hEnough'⟩, hEs'⟩
  have h₃ := stands_of_purchase hSelf h hAdapter' hCounts' hEnds'
  exact ⟨c₃, hEnds', (ends_purchase h₃ hSelf hAdapter hCounts).2 ⟨⟨m, hFirst, hEnough⟩, hEs⟩⟩

end Deposits

section Withdrawals

variable {config' : Pool.Config} {shares shares' : Amount} (hSelf : f.self = w.router)

include hSelf

theorem trade_of_withdrawShares (user : Address) (h : w.Stands c s q)
    (hAdapter : q.supports config.pool = true → config.adapter = config.pool)
    (hEnds : Ends (withdrawShares f config shares) c m c' es) : Trade user c c' := by
  obtain ⟨_, rfl, hConverts, -⟩ := hEnds.after
    (after_withdrawShares_converts user h.fixed hSelf hAdapter)
  exact hConverts.trade

theorem stands_of_withdrawShares (h : w.Stands c s q)
    (hAdapter : q.supports config.pool = true → config.adapter = config.pool)
    (hEnds : Ends (withdrawShares f config shares) c m c' es) : w.Stands c' s q := by
  obtain ⟨user, hUser⟩ := Address.exists_ne w.router
  exact h.trade (trade_of_withdrawShares hSelf user h hAdapter hEnds) hUser

theorem stands_of_withdrawValue (h : w.Stands c s q)
    (hAdapter : q.supports config.pool = true → config.adapter = config.pool)
    (hEnds : Ends (withdrawValue f config n) c m c' es) : w.Stands c' s q := by
  obtain ⟨_, -, -, hEnds, -⟩ := ends_withdrawValue.1 hEnds
  exact stands_of_withdrawShares hSelf h hAdapter hEnds

variable (hAdapter : q.supports config.pool = true → config.adapter = config.pool)
  (hAdapter' : q.supports config'.pool = true → config'.adapter = config'.pool)
  (hPools : config.pool ≠ config'.pool)

include hAdapter hAdapter' hPools

/-- Withdrawals from different pools can be made in either order. -/
theorem canFollow_withdrawShares : CanFollow (w.Stands · s q) (withdrawShares f config shares)
    (withdrawShares f config' shares') := by
  intro c m m' c₁ c₂ es es' h hFirst hThen
  have h₁ := stands_of_withdrawShares hSelf h hAdapter hFirst
  obtain ⟨hCounts, ⟨t, hFirst⟩, hEs⟩ := (ends_withdrawShares h hSelf hAdapter).1 hFirst
  obtain ⟨hCounts', ⟨t', hThen⟩, hEs'⟩ := (ends_withdrawShares h₁ hSelf hAdapter').1 hThen
  have hKeeper : w.custody ≠ w.router := ne_of_contracts h.fixed.custody h.router (by simp)
  obtain ⟨c₃, hThen, hFirst⟩ := Wiring.swaps_departs hKeeper hPools (h.fixed.router_ne hCounts)
    (h.fixed.router_ne hCounts') (hThen.nothing_of_ne (h.fixed.stable_ne hCounts))
    (hFirst.nothing_of_ne (h.fixed.stable_ne hCounts')) c c₁ c₂ hFirst hThen
  have hEnds' : Ends (withdrawShares f config' shares') c m' c₃ es' :=
    (ends_withdrawShares h hSelf hAdapter').2 ⟨hCounts', ⟨t', hThen⟩, hEs'⟩
  have h₃ := stands_of_withdrawShares hSelf h hAdapter' hEnds'
  exact ⟨c₃, hEnds', (ends_withdrawShares h₃ hSelf hAdapter).2 ⟨hCounts, ⟨t, hFirst⟩, hEs⟩⟩

theorem canFollow_withdrawValue {n' : Amount} :
    CanFollow (w.Stands · s q) (withdrawValue f config n) (withdrawValue f config' n') := by
  intro c m m' c₁ c₂ es es' h hFirst hThen
  obtain ⟨shares, hQuote, hSome, hFirst, hEnough⟩ := ends_withdrawValue.1 hFirst
  obtain ⟨shares', hQuote', hSome', hThen, hEnough'⟩ := ends_withdrawValue.1 hThen
  have h₁ := stands_of_withdrawShares hSelf h hAdapter hFirst
  obtain ⟨hCounts, -⟩ := (ends_withdrawShares h hSelf hAdapter).1 hFirst
  obtain ⟨hCounts', -⟩ := (ends_withdrawShares h₁ hSelf hAdapter').1 hThen
  have hAlike := (trade_of_withdrawShares hSelf f.self h hAdapter hFirst).alike
  obtain ⟨c₃, hThen, hFirst⟩ :=
    canFollow_withdrawShares hSelf hAdapter hAdapter' hPools c m m' c₁ c₂ es es' h hFirst hThen
  have hAlike' := (trade_of_withdrawShares hSelf f.self h hAdapter' hThen).alike
  rw [hAdapter hCounts] at hQuote
  rw [hAdapter' hCounts', h.fixed.previewShares_alike hCounts' hAlike] at hQuote'
  refine ⟨c₃, ends_withdrawValue.2 ⟨shares', ?_, hSome', hThen, hEnough'⟩,
    ends_withdrawValue.2 ⟨shares, ?_, hSome, hFirst, hEnough⟩⟩
  · rw [hAdapter' hCounts', hQuote']
  · rw [hAdapter hCounts, h.fixed.previewShares_alike hCounts hAlike', hQuote]

end Withdrawals

end Router

end Treasury
