import Treasury.Proofs.LegOrder
import Treasury.Proofs.Listings
import Treasury.Proofs.Postings
import Treasury.Proofs.RebalanceValue

/-! What an operator is given that brings its own stable to a rebalancing. All that happens is
posted: the stable goes into one pool, and shares of the other go from custody to the operator. What
has arrived is said, and no more is given than is worth it. -/
namespace Treasury

open Exec Chain
open Token (Entry)

theorem Exec.ends_emit_pure {α : Type} {a b : α} {c c' : Chain} {self : Address} {event : Event}
    {es : List (Address × Event)} : Ends (do
      emit self event
      pure a) c b c' es ↔ c = c' ∧ a = b ∧ [(self, event)] = es := by
  rw [ends_bind]
  simp only [ends_emit, ends_pure]
  constructor
  · rintro ⟨_, _, _, _, ⟨rfl, rfl⟩, ⟨rfl, rfl, rfl⟩, rfl⟩
    exact ⟨rfl, rfl, rfl⟩
  · rintro ⟨rfl, rfl, rfl⟩
    exact ⟨(), c, _, [], ⟨rfl, rfl⟩, ⟨rfl, rfl, rfl⟩, rfl⟩

namespace Wiring

/-- What is posted when an operator is given shares of a pool by custody. -/
def releasedTo (w : Wiring) (operator p : Address) (shares : Nat) : Token.Posting :=
  (Entry.balance p operator).gains shares - (Entry.balance p w.custody).gains shares

variable {w : Wiring} {c c' : Chain} {operator p : Address} {shares : Nat}

theorem balance_of_releasedTo (hNets : c.Nets (w.releasedTo operator p shares) c')
    (hOther : operator ≠ w.custody) :
    c.balance p w.custody = c'.balance p w.custody + shares ∧
      c'.balance p operator = c.balance p operator + shares := by
  have hKept := hNets.shows (.balance p w.custody)
  have hGained := hNets.shows (.balance p operator)
  simp only [releasedTo, Pi.sub_apply, Entry.gains_apply, Entry.balance.injEq, true_and, hOther,
    hOther.symm, if_true, if_false] at hKept hGained
  rw [entry_balance, entry_balance] at hKept hGained
  omega

/-- What is said when an operator is given shares of a pool. Nothing is said of no shares. -/
def releaseEvents (w : Wiring) (operator p : Address) (shares : Amount) : List (Address × Event) :=
  if shares = 0 then [] else [(w.custody, .sharesTransferred p shares operator)]

end Wiring

namespace Router

open Wiring (Stands)

variable {w : Wiring} {c c' : Chain} {s : State} {q : Custody} {f : Frame} {back : Callback}
  [back.Adds] {owner giver taker : Address} {amount minResult minted shares : Amount}
  {es : List (Address × Event)}

/-- Giving shares of a pool to an operator, unless there are none to give, and saying what the
rebalancing came to. -/
theorem nets_release {self : Address} {event : Event} {answer : Amount}
    (hEnds : Ends (if shares ≠ 0 then do
        Custody.transferShares w.custody self giver shares owner
        emit self event
        pure minted
      else do
        emit self event
        pure minted) c answer c' es) :
    c.Nets (w.releasedTo owner giver shares) c' ∧ answer = minted ∧
      es = w.releaseEvents owner giver shares ++ [(self, event)] := by
  by_cases hNone : shares = 0
  · rw [if_neg (not_not.2 hNone)] at hEnds
    obtain ⟨rfl, rfl, rfl⟩ := ends_emit_pure.1 hEnds
    rw [hNone, Wiring.releasedTo, Entry.gains_zero, Entry.gains_zero, sub_zero]
    exact ⟨.refl c, rfl, rfl⟩
  · rw [if_pos hNone] at hEnds
    obtain ⟨_, c₁, _, _, hGive, hRest, rfl⟩ := ends_bind.1 hEnds
    obtain ⟨_, -, -, -, -, hMove, rfl⟩ := Custody.ends_transferShares.1 hGive
    obtain ⟨rfl, rfl, rfl⟩ := ends_emit_pure.1 hRest
    refine ⟨hMove.nets_transfer, rfl, ?_⟩
    rw [Wiring.releaseEvents, if_neg hNone]

set_option synthInstance.maxSize 512 in
/-- A rebalancing that is made with an operator's own stable deposits it, and gives shares that are
released for what has arrived. -/
theorem nets_rebalanceExternally (h : w.Stands c s q) (hSelf : f.self = w.router)
    (hWorthwhile : s.dustTolerance ≤ amount)
    (hEnds : Ends (rebalanceExternally back f giver taker amount minResult) c minted c' es) :
    ∃ config deposited released c₁,
      giver ≠ taker ∧ s.registry.get? giver = some config ∧ config.pool = giver ∧
        c.Nets (w.brought f.caller taker amount minted) c₁ ∧
        releasable w.custody config deposited c₁ = .ok released ∧
        c₁.Nets (w.releasedTo f.caller giver released) c' ∧
        es = w.releaseEvents f.caller giver released ++
          [(w.router, .rebalanced giver taker amount deposited minted)] := by
  obtain ⟨hStable, hCustody, -⟩ := h.fixed.complete.links h.router
  simp only [rebalanceExternally, ends_guarded, ends_result_bind, hSelf] at hEnds
  obtain ⟨s', hs', -, _, -, _, -, pair, hPair, _, -, hMade⟩ := hEnds
  obtain rfl : s = s' := storage_unique h.router hs'
  obtain ⟨⟨hGiverPool, hTakerPool⟩, hGiver, hTaker, hStatus⟩ :=
    pairOf_spec h.agree.registry hPair
  rw [if_neg (Nat.not_lt.2 hWorthwhile), ends_pullStable_bind] at hMade
  obtain ⟨s', t, c₁, hs', ht, hPull, hMade⟩ := hMade
  obtain rfl : s = s' := storage_unique h.router (hSelf ▸ hs')
  obtain rfl : w.stable = t := Option.some.inj (hStable.symm.trans ht)
  obtain ⟨shares, c₂, es₁, es₂, hDeposit, hRest, rfl⟩ := ends_bind.1 hMade
  have hStands := h.moves hPull (by intro _ _ _ hSame; cases hSame)
  have hCounts := h.counts hTaker hStatus
  obtain ⟨hEnters, rfl⟩ :=
    (ends_depositIntoPool hStands rfl (h.adapter_eq hTaker hCounts) hCounts).1 hDeposit
  have hBrought := hStands.nets_brought hCounts hPull hEnters
  rw [hTakerPool] at hBrought
  simp only [ends_view_bind, ends_result_bind, known_eq_ok] at hRest
  obtain ⟨deposited, -, _, -, k, hk, released, hReleased, hRest⟩ := hRest
  obtain rfl : w.custody = k := Option.some.inj (hCustody.symm.trans hk)
  obtain ⟨hGiven, rfl, rfl⟩ := nets_release hRest
  rw [List.nil_append]
  rw [hGiverPool] at hGiver
  exact ⟨pair.giver, deposited, released, c₂, ne_of_pairOf hPair, hGiver, hGiverPool, hBrought,
    hReleased, hGiven, rfl⟩

end Router

namespace WiredRun

variable {w : Wiring} {c : Chain}

/-- In a wired run with fixed-rate pools, every registered pool is a fixed-rate adapter, and is its
own adapter. -/
theorem registered_fixedRate (hRun : WiredRun w c) (hPools : w.FixedRatePools c) {s : Router.State}
    (hs : c.contract? w.router = some (.router s)) {p : Address} {config : Pool.Config}
    (hGet : s.registry.get? p = some config) :
    config.adapter = p ∧ ∃ x, c.contract? p = some (.fixedRate x) := by
  have hLists := hRun.run.listed _ _ hs
  have hMem := hLists.sound.mem_of_get? hGet
  rw [Wiring.FixedRatePools, routing_of hs] at hPools
  have hKind := hPools config hMem
  obtain rfl : config.adapter = p := (hLists.registered p config hGet).eq_of_fixedRate hKind
  exact ⟨rfl, fixedRate_of_kind hKind⟩

/-- Whoever rebalances with stable of its own is released what it has earned. An operator's call
that is not below dust deposits the operator's stable, says what has arrived, and moves shares of
the other pool from custody to the operator that are worth no more than that. At a rate of one or
more these are as many as can be: the most that are worth no more, or all that custody has. -/
theorem external_rebalance_releases_earned (hRun : WiredRun w c) (hComplete : w.Complete c)
    (hPools : w.FixedRatePools c) {operator : Digest} {giver taker : Address}
    {amount minResult : Amount} {out : Outcome}
    (hCall : c.submit (.account operator) w.router
      (.router (.rebalanceExternally giver taker amount minResult)) = .ok out)
    (hWorthwhile : (c.routing w.router).dustTolerance ≤ amount) :
    ∃ deposited minted released,
      out.events = w.releaseEvents (.account operator) giver released ++
        [(w.router, .rebalanced giver taker amount deposited minted)] ∧
      c.balance giver w.custody = out.chain.balance giver w.custody + released ∧
      out.chain.balance giver (.account operator) =
        c.balance giver (.account operator) + released ∧
      c.Affords giver deposited released ∧
      (rateScale ≤ c.rate giver → ∃ most, IsGreatest {n | c.Affords giver deposited n} most ∧
        released = min (c.balance giver w.custody) most) := by
  obtain ⟨s, q, hStands⟩ := hRun.stands hComplete hPools
  have hFree := hRun.account_free operator
  have hKeeper := ne_of_contract? hStands.fixed.custody hFree
  have hBack : c.callback.Adds := Router.adds_nested _
  rw [routing_of hStands.router] at hWorthwhile
  obtain ⟨minted, hEnds, -⟩ := ends_map.1 (ends_of_submit hCall)
  obtain ⟨config, deposited, released, c₁, hApart, hGet, hPool, hBrought, hReleased, hGiven,
    hEvents⟩ := Router.nets_rebalanceExternally hStands rfl hWorthwhile hEnds
  obtain ⟨hSelf, x, hx⟩ := hRun.registered_fixedRate hPools hStands.router hGet
  have hStable : giver ≠ w.stable := by
    obtain ⟨u, hu⟩ := hComplete.stable
    exact ne_of_contracts hx hu (by simp)
  -- The deposit leaves the pool that gives as it was, so all about it may be said of the start.
  have hSame : ∀ a, c₁.balance giver a = c.balance giver a := by
    intro a
    have hAt := hBrought.shows (.balance giver a)
    rw [entry_balance, entry_balance, Wiring.brought_elsewhere hStable hApart] at hAt
    omega
  obtain ⟨hKept, hGained⟩ := Wiring.balance_of_releasedTo hGiven hKeeper
  rw [hSame] at hKept hGained
  obtain ⟨l, hx₁⟩ := hBrought.alike.fixedRate hx
  obtain ⟨hExact, hFits⟩ :=
    Router.releasable_fixedRate (hPool ▸ hx₁) (hSelf.trans hPool.symm) hReleased
  rw [hPool, affords_iff hx₁, ← affords_iff hx] at hFits
  rw [hPool, hSame, Nat.min_comm] at hExact
  refine ⟨deposited, minted, released, hEvents, hKept, hGained, ?_, fun hRate => ?_⟩
  · apply affords_fewer hx hFits
    rw [hExact]
    exact Nat.min_le_right _ _
  · exact ⟨_, isGreatest_fitting hx hFits hRate, hExact⟩

/-- One pool has 40 shares at a rate of 1.5. An operator brings 20, for which 14 shares would be
enough, but they are worth 21, so it is given 13. -/
theorem external_rebalance_releases_thirteen : ∃ c out,
    WiredRun Standard.places c ∧ Standard.places.Complete c ∧
      Standard.places.FixedRatePools c ∧
      c.submit (.account 0) Standard.router
        (.router (.rebalanceExternally Standard.pool (.ofNumber 6) 20 0)) = .ok out ∧
      (c.routing Standard.router).dustTolerance ≤ 20 ∧ rateScale ≤ c.rate Standard.pool ∧
      (Standard.router, .rebalanced Standard.pool (.ofNumber 6) 20 20 20) ∈ out.events ∧
      c.balance Standard.pool Standard.custody = 40 ∧
      out.chain.balance Standard.pool Standard.custody = 27 ∧
      out.chain.balance Standard.pool (.account 0) = 13 ∧
      IsGreatest {shares | c.Affords Standard.pool 20 shares} 13 := by
  have hEnd : (Standard.places.follow {} (Standard.paired { admin := .account 0 }
      1_500_000_000_000_000_000 60 30 ++
      [.call 0 Standard.stable (.stable (.mint (.account 0) 20)),
        .call 0 Standard.stable (.token (.approve Standard.router 20))])).any (fun c =>
      Standard.places.completes c && (c.submit (.account 0) Standard.router (.router
        (.rebalanceExternally Standard.pool (.ofNumber 6) 20 0))).toOption.any fun out =>
          decide (Standard.places.FixedRatePools c) &&
            ((c.routing Standard.router).dustTolerance == 5 &&
              (c.rate Standard.pool == 1_500_000_000_000_000_000 &&
                (out.events == [(Standard.custody, .sharesTransferred Standard.pool 13
                    (.account 0)),
                  (Standard.router, .rebalanced Standard.pool (.ofNumber 6) 20 20 20)] &&
                (c.balance Standard.pool Standard.custody == 40 &&
                  c.balance Standard.pool (.account 0) == 0))))) = true := by decide +kernel
  obtain ⟨c, out, hRun, hComplete, hCall, hHolds⟩ := Wiring.exists_submit hEnd
  simp only [Bool.and_eq_true, decide_eq_true_eq, beq_iff_eq] at hHolds
  obtain ⟨hPools, hTolerance, hRate, hSaid, hHeld, hNone⟩ := hHolds
  have hWorthwhile : (c.routing Standard.router).dustTolerance ≤ 20 := by
    rw [hTolerance]
    decide
  have hRate : rateScale ≤ c.rate Standard.pool := by
    rw [hRate]
    decide
  obtain ⟨deposited, minted, released, hEvents, hKept, hGained, -, hMost⟩ :=
    external_rebalance_releases_earned hRun hComplete hPools hCall hWorthwhile
  have hBoth := hEvents.symm.trans hSaid
  obtain ⟨rfl, rfl, rfl⟩ : released = 13 ∧ deposited = 20 ∧ minted = 20 := by
    rw [Wiring.releaseEvents] at hBoth
    split at hBoth
    · cases hBoth
    · cases hBoth
      exact ⟨rfl, rfl, rfl⟩
  obtain ⟨most, hGreatest, hLeast⟩ := hMost hRate
  have hHeld' : c.balance Standard.pool Standard.places.custody = 40 := hHeld
  rw [hHeld'] at hKept hLeast
  rw [hNone] at hGained
  have hOnly : ∀ n : Nat, 13 = min 40 n → n = 13 := by omega
  obtain rfl := hOnly most hLeast
  refine ⟨c, out, hRun, hComplete, hPools, hCall, hWorthwhile, hRate, ?_, hHeld, ?_, hGained,
    hGreatest⟩
  · rw [hSaid]
    exact List.mem_cons_of_mem _ List.mem_cons_self
  · change 40 = out.chain.balance Standard.pool Standard.custody + 13 at hKept
    omega

end WiredRun

end Treasury
