import Treasury.Proofs.PoolLimits

/-! Which pool a withdrawal is paid from. The router weighs its pools anew for the choice, and leaves
out those that are worth nothing; these count for nothing anyway, so the weights are the reported
ones. Of the reported pools that are well and can pay, the one with the largest surplus is picked. -/
namespace Treasury

open Exec Chain

namespace Pool

namespace Allocation

/-- What a reported pool has above its target. -/
def surplus (a : Allocation) : Int := (a.current : Int) - a.target

/-- The pool is reported to be well, and to be worth an amount and something at all. -/
def CanPay (a : Allocation) (n : Amount) : Prop := a.healthy = true ∧ n ≤ a.value ∧ a.value ≠ 0

end Allocation

/-- One of some reported pools pays an amount first: it can pay it, and every other pool that can has
less above its target, or has as much and stands later. -/
def PaysFirst (p : Address) (n : Amount) (reported : List Allocation) : Prop :=
  ∃ (i : Nat) (a : Allocation), reported[i]? = some a ∧ a.pool = p ∧ a.CanPay n ∧
    ∀ (j : Nat) (b : Allocation), reported[j]? = some b → b.CanPay n → j ≠ i →
      b.surplus < a.surplus ∨ b.surplus = a.surplus ∧ i < j

end Pool

namespace Router

/-- A pool that is worth nothing cannot be relied on for a withdrawal. -/
def worthwhile (value : Option Amount) : Option Amount :=
  value.bind fun n => if n ≠ 0 then some n else none

/-- A pool as a survey for withdrawals finds it. -/
def Surveyed.forWithdrawal (p : Surveyed) : Surveyed := { p with value := worthwhile p.value }

theorem getD_worthwhile (value : Option Amount) : (worthwhile value).getD 0 = value.getD 0 := by
  cases value with
  | none => rfl
  | some n =>
    rw [worthwhile, Option.bind_some]
    split
    · rfl
    · next hNone => exact (not_not.1 hNone).symm

theorem isSome_worthwhile (value : Option Amount) :
    (worthwhile value).isSome = true ↔ value.isSome = true ∧ value.getD 0 ≠ 0 := by
  cases value with
  | none => simp [worthwhile]
  | some n => by_cases h : n = 0 <;> simp [worthwhile, h]

variable {s : State} {c : Chain} {config : Pool.Config} {found : List Surveyed}

theorem probe_withdrawal_eq_ok {value : Option Amount} :
    probe s .withdrawal config c = .ok value ↔
      ∃ all, probeValue s config c = .ok all ∧ worthwhile all = value := by
  rw [probe, View.bind_eq_ok]
  refine exists_congr fun all => and_congr_right fun _ => ?_
  cases all with
  | none => exact ⟨Except.ok.inj, congrArg Except.ok⟩
  | some n =>
    change (pure (if decide (n ≠ 0) = true then some n else none) : View _) c = _ ↔ _
    rw [View.pure_apply, Except.ok.injEq, worthwhile, Option.bind_some]
    simp only [decide_eq_true_eq]

/-- What is found for withdrawals is what is reported, less the pools that are worth nothing. -/
theorem values_of_withdrawal {configs : List Pool.Config} {values : List (Option Amount)}
    (h : configs.mapM (probe s .withdrawal) c = .ok values) :
    ∃ all, configs.mapM (probeValue s) c = .ok all ∧ values = all.map worthwhile := by
  simp only [View.mapM_eq_ok, probe_withdrawal_eq_ok] at h ⊢
  induction h with
  | nil => exact ⟨[], .nil, rfl⟩
  | cons hFirst _ ih =>
    obtain ⟨value, hValue, rfl⟩ := hFirst
    obtain ⟨all, hAll, rfl⟩ := ih
    exact ⟨value :: all, .cons hValue hAll, rfl⟩

/-- The survey for withdrawals gives each pool the weight that is reported. -/
theorem survey_withdrawal (h : survey s (probe s .withdrawal) c = .ok found) :
    ∃ all, survey s (probeValue s) c = .ok all ∧ found = all.map Surveyed.forWithdrawal := by
  simp only [survey, View.bind_eq_ok, View.pure_apply, View.lift_apply, Except.ok.injEq] at h
  obtain ⟨_, hValues, weights, hWeights, rfl⟩ := h
  obtain ⟨all, hAll, rfl⟩ := values_of_withdrawal hValues
  have hCounts : (all.map worthwhile).map (fun value => value.getD 0) =
      all.map fun value => value.getD 0 := by
    rw [List.map_map]
    exact List.map_congr_left fun value _ => getD_worthwhile value
  rw [hCounts] at hWeights
  refine ⟨_, View.bind_eq_ok.2 ⟨all, hAll, View.bind_eq_ok.2 ⟨weights, hWeights, rfl⟩⟩, ?_⟩
  rw [List.zip_map_left, List.zip_map_right, List.map_map, List.map_map]
  rfl

section Picked

variable {pools : List Pool.Snapshot} {n : Amount} {i : Nat} {all : List Surveyed}

/-- A reported pool is looked at as one that can pay if it is reported to be able to. -/
theorem canPay_iff {p : Surveyed} : p.allocation.CanPay n ↔
    (p.forWithdrawal.snapshot .withdrawal).eligible = true ∧
      n ≤ (p.forWithdrawal.snapshot .withdrawal).available := by
  simp only [Pool.Allocation.CanPay, Surveyed.allocation, Surveyed.snapshot, Surveyed.forWithdrawal,
    Direction.admits, Pool.Status.servesWithdrawals, Bool.true_and, getD_worthwhile,
    isSome_worthwhile]
  tauto

/-- The pool that is picked for an amount is reported to pay it first. -/
theorem paysFirst_of_picked (hPools : snapshots s .withdrawal c = .ok pools)
    (hPick : Pool.Ranking.withdrawalPool pools n = .ok i)
    (hConfig : s.registry.toList[i]? = some config) :
    ∃ all, survey s (probeValue s) c = .ok all ∧
      Pool.PaysFirst config.pool n (all.map Surveyed.allocation) := by
  obtain ⟨found, hFound, hSnapshots⟩ := View.bind_eq_ok.1 hPools
  obtain rfl := Except.ok.inj hSnapshots
  obtain ⟨all, hAll, rfl⟩ := survey_withdrawal hFound
  have hAt : ∀ {j : Nat} {p : Surveyed}, all[j]? = some p →
      ((all.map Surveyed.forWithdrawal).map (Surveyed.snapshot .withdrawal))[j]? =
        some (p.forWithdrawal.snapshot .withdrawal) := by
    intro j p hp
    rw [List.getElem?_map, List.getElem?_map, hp]
    rfl
  have hConfigs : all[i]?.map Surveyed.config = some config := by
    rw [← List.getElem?_map, (survey_spec hAll).1, hConfig]
  obtain ⟨p, hp, rfl⟩ := Option.map_eq_some_iff.1 hConfigs
  obtain ⟨_, hSame, hEligible, hEnough⟩ := Pool.Ranking.withdrawalPool_spec hPick
  obtain rfl := Option.some.inj ((hAt hp).symm.trans hSame)
  refine ⟨all, hAll, i, p.allocation, ?_, rfl, canPay_iff.2 ⟨hEligible, hEnough⟩, ?_⟩
  · rw [List.getElem?_map, hp, Option.map_some]
  intro j b hb hPays hOther
  rw [List.getElem?_map, Option.map_eq_some_iff] at hb
  obtain ⟨y, hy, rfl⟩ := hb
  obtain ⟨hEligible', hEnough'⟩ := canPay_iff.1 hPays
  exact Pool.Ranking.withdrawalPool_precedes hPick (hAt hp) (hAt hy) hEligible' hEnough' hOther

end Picked

end Router

end Treasury
