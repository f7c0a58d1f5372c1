import Treasury.Proofs.LegOrder
import Treasury.Proofs.ValueIdentity
import Treasury.Proofs.Weights

/-! What one pool can pay. The limit that the router advertises is what its best eligible pool is
worth, and the router finds a pool for an amount just when the amount is within the limit. Of open
fixed-rate pools whose value can be found out, snapshots can always be taken. -/
namespace Treasury

open Exec Chain

theorem List.le_foldl_max {as : List Nat} {n start : Nat} :
    n ≤ as.foldl max start ↔ n ≤ start ∨ ∃ a ∈ as, n ≤ a := by
  induction as generalizing start with
  | nil => simp
  | cons a rest ih =>
    simp only [List.foldl_cons, ih, le_max_iff, or_assoc, List.mem_cons, exists_eq_or_imp]

namespace Pool

namespace Ranking

variable {pools : List Snapshot} {n : Amount} {i : Nat}

/-- A pool is picked for an amount that is eligible and worth as much. -/
theorem withdrawalPool_spec (h : withdrawalPool pools n = .ok i) :
    ∃ found, pools[i]? = some found ∧ found.eligible = true ∧ n ≤ found.available :=
  first_spec (withdrawalPool_eq_ok.1 h)

/-- If no eligible pool is worth as much, the amount is refused. -/
theorem withdrawalPool_eq (pools : List Snapshot) (n : Amount) :
    (∃ i, withdrawalPool pools n = .ok i) ∨
      withdrawalPool pools n = refuse .liquidityExhausted := by
  unfold withdrawalPool
  split
  · exact .inl ⟨_, rfl⟩
  · exact .inr rfl

end Ranking

/-- The most that one of some pools is worth. -/
def limit (pools : List Snapshot) : Amount :=
  ((pools.filter fun pool => pool.eligible).map Snapshot.available).foldl max 0

/-- An amount is within the limit if some eligible pool is worth as much. -/
theorem le_limit {pools : List Snapshot} {n : Amount} (hSome : n ≠ 0) :
    n ≤ limit pools ↔ ∃ found ∈ pools, found.eligible = true ∧ n ≤ found.available := by
  simp only [limit, List.le_foldl_max, Nat.le_zero, hSome, false_or, List.mem_map, List.mem_filter]
  constructor
  · rintro ⟨_, ⟨found, ⟨hMem, hEligible⟩, rfl⟩, hEnough⟩
    exact ⟨found, hMem, hEligible, hEnough⟩
  · rintro ⟨found, hMem, hEligible, hEnough⟩
    exact ⟨_, ⟨found, ⟨hMem, hEligible⟩, rfl⟩, hEnough⟩

/-- A pool is picked for an amount within the limit, and an amount above it is refused. -/
theorem Ranking.withdrawalPool_of_limit (pools : List Snapshot) {n : Amount} (hSome : n ≠ 0) :
    (n ≤ limit pools → ∃ i, withdrawalPool pools n = .ok i) ∧
      (limit pools < n → withdrawalPool pools n = refuse .liquidityExhausted) := by
  constructor
  · intro hWithin
    obtain ⟨found, hMem, hEligible, hEnough⟩ := (le_limit hSome).1 hWithin
    apply (withdrawalPool_eq pools n).resolve_right
    intro hRefused
    exact withdrawalPool_eq_refuse.1 hRefused found hMem hEligible hEnough
  · intro hAbove
    apply (withdrawalPool_eq pools n).resolve_left
    rintro ⟨i, hPick⟩
    obtain ⟨found, hAt, hEligible, hEnough⟩ := withdrawalPool_spec hPick
    exact Nat.not_le.2 hAbove
      ((le_limit hSome).2 ⟨found, List.mem_of_getElem? hAt, hEligible, hEnough⟩)

end Pool

/-- The limit that the router advertises. -/
theorem Router.maxSinglePoolWithdrawal_eq {c : Chain} {r : Address} {s : State}
    {pools : List Pool.Snapshot} (hs : c.contract? r = some (.router s))
    (hPools : snapshots s .withdrawal c = .ok pools) :
    maxSinglePoolWithdrawal r c = .ok (Pool.limit pools) :=
  View.bind_eq_ok.2 ⟨s, View.callee_eq_ok.2 hs, View.bind_eq_ok.2 ⟨pools, hPools, rfl⟩⟩

namespace Wiring

variable {w : Wiring} {c : Chain} {s : Router.State} {q : Custody} {config : Pool.Config}
  {x : Strategy.FixedRate}

theorem counted_eq_sum (w : Wiring) (c : Chain) (pools : List Address) :
    w.counted c pools = (pools.map (w.worth c)).sum := by
  rw [counted, List.sum, List.foldr_map]

/-- What a pool offers for withdrawals: the worth of what the custody contract holds of it, unless
that is nothing. -/
def offer (w : Wiring) (c : Chain) (p : Address) : Option Amount :=
  if w.worth c p ≠ 0 then some (w.worth c p) else none

theorem offer_getD (w : Wiring) (c : Chain) (p : Address) : (w.offer c p).getD 0 = w.worth c p := by
  unfold offer
  split
  · rfl
  · next h => exact (not_not.1 h).symm

namespace Stands

/-- The router finds what an open fixed-rate pool offers. -/
theorem probe_withdrawal (h : w.Stands c s q) (hGet : s.registry.get? config.pool = some config)
    (hCounts : q.supports config.pool = true) (hx : c.contract? config.pool = some (.fixedRate x))
    (hHealthy : x.paused = false)
    (hRange : c.balance config.pool w.custody * c.rate config.pool < Amount.bound) :
    Router.probe s .withdrawal config c = .ok (w.offer c config.pool) := by
  obtain ⟨-, hKeeper, -⟩ := h.fixed.complete.links h.router
  obtain ⟨hBound, -⟩ := h.fixed.pools _ hCounts
  have hHeld : c.balance config.pool w.custody = x.ledger.balanceOf w.custody := by
    rw [balance, books?_of_contract? hx]
    rfl
  have hWorth : Rate.assetsForShares (x.ledger.balanceOf w.custody) x.rate =
      .ok (w.worth c config.pool) := by
    rw [hHeld, rate_of hx] at hRange
    rw [worth, hHeld, rate_of hx]
    exact Amount.mulDiv_eq_ok.2 ⟨hRange, by decide, rfl⟩
  have hValue : Router.probeValue s config c = .ok (some (w.worth c config.pool)) := by
    rw [Router.probeValue_fixedRate hKeeper h.fixed.custody hx (h.adapter_eq hGet hCounts) hBound,
      hHealthy, hWorth]
    rfl
  rw [Router.probe, View.bind_of_ok hValue]
  change Except.ok (if decide (w.worth c config.pool ≠ 0) = true then _ else _) = _
  simp only [decide_eq_true_eq, offer]

/-- Snapshots can be taken of open fixed-rate pools whose value can be found out. On the scale of
weights, no pool is worth more than its shares at their rate. -/
theorem snapshots_ok (h : w.Stands c s q) (hOpen : ∀ config ∈ s.registry.toList,
      q.supports config.pool = true ∧
        ∃ x, c.contract? config.pool = some (.fixedRate x) ∧ x.paused = false)
    (hCountable : w.Countable c q.supported.toList) :
    ∃ pools, Router.snapshots s .withdrawal c = .ok pools := by
  have hRange : ∀ config ∈ s.registry.toList,
      c.balance config.pool w.custody * c.rate config.pool < Amount.bound := fun config hMem =>
    hCountable.1 _ (h.fixed.supported.mem_toList.2 (hOpen config hMem).1)
  have hValues : s.registry.toList.mapM (Router.probe s .withdrawal) c =
      .ok (s.registry.toList.map fun config => w.offer c config.pool) := by
    refine View.mapM_eq_ok.2 (List.forall₂_map_right_iff.2 ?_)
    refine List.forall₂_same.2 fun config hMem => ?_
    obtain ⟨hCounts, x, hx, hHealthy⟩ := hOpen config hMem
    exact h.probe_withdrawal (h.agree.registry.get?_of_mem hMem) hCounts hx hHealthy
      (hRange config hMem)
  have hAll : (s.registry.toList.map Pool.Config.pool).filter q.supports =
      s.registry.toList.map Pool.Config.pool := by
    refine List.filter_eq_self.2 fun p hp => ?_
    obtain ⟨config, hMem, rfl⟩ := List.mem_map.1 hp
    exact (hOpen config hMem).1
  have hSum : ((s.registry.toList.map Pool.Config.pool).map (w.worth c)).sum < Amount.bound := by
    have hPerm := (h.agree.supported_perm.map (w.worth c)).sum_nat
    rw [hAll, ← counted_eq_sum] at hPerm
    rw [← hPerm]
    exact Nat.lt_of_le_of_lt (Nat.le_add_right _ _) hCountable.2
  have hScaled : ∀ value ∈ (s.registry.toList.map Pool.Config.pool).map (w.worth c),
      value * allocationScale < Amount.bound := by
    intro value hValue
    obtain ⟨p, hp, rfl⟩ := List.mem_map.1 hValue
    obtain ⟨config, hMem, rfl⟩ := List.mem_map.1 hp
    exact Nat.lt_of_le_of_lt (Nat.div_mul_le_self _ rateScale) (hRange config hMem)
  obtain ⟨weights, hWeights⟩ : ∃ weights, Pool.Weight.current
      ((s.registry.toList.map Pool.Config.pool).map (w.worth c)) = .ok weights :=
    ⟨_, Pool.Weight.current_eq_ok.2 ⟨hSum, hScaled, rfl⟩⟩
  have hSurvey : ∃ found, Router.survey s (Router.probe s .withdrawal) c = .ok found := by
    refine ⟨_, View.bind_eq_ok.2 ⟨_, hValues, View.bind_eq_ok.2 ⟨weights, ?_, rfl⟩⟩⟩
    rw [View.lift_apply, List.map_map, ← hWeights, List.map_map]
    exact congrArg _ (List.map_congr_left fun config _ => w.offer_getD c config.pool)
  obtain ⟨found, hFound⟩ := hSurvey
  exact ⟨_, View.bind_eq_ok.2 ⟨found, hFound, rfl⟩⟩

end Stands

end Wiring

end Treasury
