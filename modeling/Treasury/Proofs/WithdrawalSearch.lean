import Treasury.Proofs.PoolLimits
import Treasury.Proofs.RankedPools

/-! The search for a pool that pays a withdrawal. It looks through the pools by surplus, and so
leaves none out: it fails just when no eligible pool is worth the amount, which is when the amount
is above the limit that the router advertises. -/
namespace Treasury

open Exec Chain

/-- The pool that pays an amount is the earliest one with the largest surplus of the eligible pools
that are worth it. -/
theorem Pool.Ranking.withdrawalPool_eq_ok_iff {pools : List Snapshot} {n : Amount} {i : Nat} :
    withdrawalPool pools n = .ok i ↔
      IsLeast (foremost Snapshot.surplus (fun s => n ≤ s.available) pools) i :=
  withdrawalPool_eq_ok.trans first_eq_some

namespace Router

open Pool.Ranking

/-- The search fails just when no eligible pool is worth the amount, and else finds the earliest one
with the largest surplus of those that are. Among the pools as a router sees them it finds one just
for the amounts within the advertised limit. -/
theorem withdrawals_found_within_limit (pools : List Pool.Snapshot) (n : Amount) :
    (withdrawalPool pools n = refuse .liquidityExhausted ↔
        ∀ s ∈ pools, s.eligible = true → s.available < n) ∧
      ((∃ s ∈ pools, s.eligible = true ∧ n ≤ s.available) →
        ∃ i, withdrawalPool pools n = .ok i ∧
          IsLeast (foremost Pool.Snapshot.surplus (fun s => n ≤ s.available) pools) i) ∧
      ∀ (c : Chain) (r : Address) (s : State), c.contract? r = some (.router s) →
        snapshots s .withdrawal c = .ok pools →
          ∃ most, maxSinglePoolWithdrawal r c = .ok most ∧
            (n ≠ 0 → ((∃ i, withdrawalPool pools n = .ok i) ↔ n ≤ most)) := by
  refine ⟨?_, ?_, ?_⟩
  · simp only [withdrawalPool_eq_refuse, not_le]
  · rintro ⟨s, hMem, hEligible, hEnough⟩
    have hFound : ∃ i, withdrawalPool pools n = .ok i := by
      apply (withdrawalPool_eq pools n).resolve_right
      intro hRefused
      exact withdrawalPool_eq_refuse.1 hRefused s hMem hEligible hEnough
    obtain ⟨i, hPick⟩ := hFound
    exact ⟨i, hPick, withdrawalPool_eq_ok_iff.1 hPick⟩
  · intro c r s hs hPools
    refine ⟨Pool.limit pools, maxSinglePoolWithdrawal_eq hs hPools, fun hSome => ?_⟩
    obtain ⟨hPicks, hRefuses⟩ := withdrawalPool_of_limit pools hSome
    refine ⟨?_, hPicks⟩
    rintro ⟨i, hPick⟩
    apply Nat.le_of_not_lt
    intro hAbove
    rw [hRefuses hAbove] at hPick
    cases hPick

end Router

/-- Two pools as a router sees them. The second one has the larger surplus, but is worth less. -/
def Standard.uneven : List Pool.Snapshot :=
  [⟨pool, 900_000, 600_000, 6_000, true⟩, ⟨.ofNumber 6, 100_000, 400_000, 4_000, true⟩]

/-- The second pool pays what it can, the first one pays more, and nothing above what that is worth
can be paid. -/
theorem Router.withdrawals_found_within_limit_of_two : ∃ (c : Chain) (s : State),
    c.contract? Standard.router = some (.router s) ∧
      snapshots s .withdrawal c = .ok Standard.uneven ∧
      maxSinglePoolWithdrawal Standard.router c = .ok 6_000 ∧
      IsLeast (Pool.Ranking.foremost Pool.Snapshot.surplus (fun s => 4_000 ≤ s.available)
        Standard.uneven) 1 ∧
      (∃ i, Pool.Ranking.withdrawalPool Standard.uneven 6_000 = .ok i) ∧
      ¬∃ i, Pool.Ranking.withdrawalPool Standard.uneven 6_001 = .ok i := by
  have hEnd : (Standard.places.follow {} (Standard.paired { admin := .account 0 } rateScale 6_000
      4_000 ++
      [.call 0 Standard.router (.router (.updatePoolTarget (.ofNumber 6) 100_000)),
        .call 0 Standard.router (.router (.updatePoolTarget Standard.pool 900_000))])).any (fun c =>
      Standard.places.completes c &&
        ((snapshots (c.routing Standard.router) .withdrawal c).toOption ==
          some Standard.uneven &&
        (maxSinglePoolWithdrawal Standard.router c).toOption == some 6_000)) = true := by
    decide +kernel
  obtain ⟨c, -, hComplete, hHolds⟩ := Wiring.exists_reached hEnd
  simp only [Bool.and_eq_true, beq_iff_eq] at hHolds
  obtain ⟨hSnapshots, hLimit⟩ := hHolds
  obtain ⟨s, hs, -⟩ := hComplete.router
  have hRouting : c.routing Standard.router = s := routing_of hs
  rw [hRouting] at hSnapshots
  have hPools := Result.of_toOption hSnapshots
  have hMost := Result.of_toOption hLimit
  have hFinds : ∀ n, n ≠ 0 →
      ((∃ i, Pool.Ranking.withdrawalPool Standard.uneven n = .ok i) ↔ n ≤ 6_000) := by
    intro n hSome
    obtain ⟨most, hIs, hWithin⟩ :=
      (withdrawals_found_within_limit Standard.uneven n).2.2 c _ s hs hPools
    obtain rfl : 6_000 = most := Except.ok.inj (hMost.symm.trans hIs)
    exact hWithin hSome
  have hPick : Pool.Ranking.withdrawalPool Standard.uneven 4_000 = .ok 1 := by rfl
  have hEnough : ∃ s ∈ Standard.uneven, s.eligible = true ∧ 4_000 ≤ s.available := by decide
  obtain ⟨i, hFound, hLeast⟩ := (withdrawals_found_within_limit Standard.uneven 4_000).2.1 hEnough
  obtain rfl : 1 = i := Except.ok.inj (hPick.symm.trans hFound)
  exact ⟨c, s, hs, hPools, hMost, hLeast, (hFinds 6_000 (by decide)).2 (by decide),
    mt (hFinds 6_001 (by decide)).1 (by decide)⟩

end Treasury
