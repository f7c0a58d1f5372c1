import Treasury.Proofs.AgreementRun
import Treasury.Proofs.Weights

/-! The identity of value. All managed value and the reported allocations are found out along two
lists that two contracts keep. A pool that the router has registered and that does not count as
value is suspended; as long as no such pool is reported to be worth anything, both lists lead to the
same value. -/
namespace Treasury

open Exec Chain

namespace Amount

/-- The sum of some amounts, as a number without a bound. -/
def whole (amounts : List Amount) : Nat := amounts.foldr (fun n total => n + total) 0

theorem whole_cons (n : Amount) (rest : List Amount) : whole (n :: rest) = n + whole rest := rfl

theorem whole_perm {as bs : List Amount} (h : as.Perm bs) : whole as = whole bs := by
  induction h with
  | nil => rfl
  | cons n _ ih => rw [whole_cons, whole_cons, ih]
  | swap n m rest =>
    simp only [whole_cons]
    exact Nat.add_left_comm _ _ _
  | trans _ _ ihFirst ihThen => exact ihFirst.trans ihThen

/-- A sum is that of the amounts that pass a test and of those that do not. -/
theorem whole_partition {α : Type} (test : α → Bool) (value : α → Amount) (as : List α) :
    whole (as.map value) =
      whole ((as.filter test).map value) + whole ((as.filter fun a => !test a).map value) := by
  induction as with
  | nil => rfl
  | cons a rest ih =>
    cases hTest : test a <;> simp only [List.map_cons, List.filter_cons, hTest, whole_cons, ih,
      Bool.not_true, Bool.not_false, if_true, if_false, Bool.false_eq_true]
    · exact Nat.add_left_comm _ _ _
    · exact (Nat.add_assoc _ _ _).symm

theorem whole_eq_zero {amounts : List Amount} : whole amounts = 0 ↔ ∀ n ∈ amounts, n = 0 := by
  induction amounts with
  | nil => simp [whole]
  | cons n rest ih => rw [whole_cons, Nat.add_eq_zero_iff, ih, List.forall_mem_cons]

end Amount

namespace Custody

variable {q : Custody} {k : Address} {c : Chain}

/-- What the held shares of a pool are worth. A pool that cannot be valued counts as worth
nothing. -/
def appraisal (q : Custody) (k : Address) (c : Chain) (p : Address) : Amount :=
  (held q k p c).toOption.getD 0

theorem appraisal_of_held {p : Address} {n : Amount} (h : held q k p c = .ok n) :
    q.appraisal k c p = n := by
  rw [appraisal, h]
  rfl

/-- Values are added up if each is known and the sum is in range. -/
theorem fold_held_eq_ok (pools : List Address) {before total : Amount}
    (hBefore : before < Amount.bound) :
    (pools.foldlM (fun total p => do Amount.add total (← held q k p)) before : View Amount) c =
        .ok total ↔
      (∀ p ∈ pools, ∃ n, held q k p c = .ok n) ∧ total < Amount.bound ∧
        before + Amount.whole (pools.map (q.appraisal k c)) = total := by
  induction pools generalizing before with
  | nil =>
    constructor
    · rintro ⟨⟩
      exact ⟨by simp, hBefore, rfl⟩
    · rintro ⟨-, -, rfl⟩
      rfl
  | cons p rest ih =>
    rw [List.foldlM_cons, View.bind_eq_ok, List.forall_mem_cons, List.map_cons, Amount.whole_cons]
    constructor
    · rintro ⟨next, hNext, hRest⟩
      obtain ⟨value, hValue, hAdd⟩ := View.bind_eq_ok.1 hNext
      obtain ⟨hRange, rfl⟩ := Amount.add_eq_ok.1 hAdd
      obtain ⟨hAll, hTotal, hSum⟩ := (ih hRange).1 hRest
      rw [appraisal_of_held hValue, ← Nat.add_assoc]
      exact ⟨⟨⟨value, hValue⟩, hAll⟩, hTotal, hSum⟩
    · rintro ⟨⟨⟨value, hValue⟩, hAll⟩, hTotal, hSum⟩
      rw [appraisal_of_held hValue, ← Nat.add_assoc] at hSum
      have hRange : before + value < Amount.bound :=
        Nat.lt_of_le_of_lt (hSum ▸ Nat.le_add_right _ _) hTotal
      refine ⟨before + value, View.bind_eq_ok.2 ⟨value, hValue, ?_⟩, ?_⟩
      · exact Amount.add_eq_ok.2 ⟨hRange, rfl⟩
      · exact (ih hRange).2 ⟨hAll, hTotal, hSum⟩

/-- All value in custody is that of the supported pools. It is known if each of theirs is. -/
theorem totalValue_eq_ok (hq : c.contract? k = some (.custody q)) {total : Amount} :
    totalValue k c = .ok total ↔
      (∀ p ∈ q.supported.toList, ∃ n, held q k p c = .ok n) ∧ total < Amount.bound ∧
        Amount.whole (q.supported.toList.map (q.appraisal k c)) = total := by
  rw [totalValue, View.bind_eq_ok]
  constructor
  · rintro ⟨q', hq', hFold⟩
    obtain rfl : q = q' := storage_unique hq (View.callee_eq_ok.1 hq')
    rw [fold_held_eq_ok _ (by decide), Nat.zero_add] at hFold
    exact hFold
  · intro h
    refine ⟨q, View.callee_eq_ok.2 hq, ?_⟩
    rw [fold_held_eq_ok _ (by decide), Nat.zero_add]
    exact h

end Custody

namespace Router

variable {s : State} {q : Custody} {k r : Address} {c : Chain}

/-- A pool that is found well is worth what the custody contract finds that it holds of it. -/
theorem held_of_probeValue {config : Pool.Config} {n : Amount} (hk : s.custody = some k)
    (hq : c.contract? k = some (.custody q)) (h : probeValue s config c = .ok (some n)) :
    Custody.held q k config.pool c = .ok n := by
  simp only [probeValue, View.bind_eq_ok, View.lift_apply, known_eq_ok, hk, Option.some.injEq,
    exists_eq_left', Custody.boundAdapter, View.callee_eq_ok] at h
  obtain ⟨bound, ⟨q', hq', hBound⟩, h⟩ := h
  obtain rfl : q = q' := storage_unique hq hq'
  obtain rfl : q.adapter? config.pool = bound := Except.ok.inj hBound
  by_cases hAdapter : q.adapter? config.pool = some config.adapter
  · rw [if_neg (not_not_intro hAdapter), View.bind_eq_ok] at h
    obtain ⟨healthy, -, h⟩ := h
    split at h
    · cases h
    · obtain ⟨reported, -, h⟩ := View.bind_eq_ok.1 h
      split at h
      · cases h
      · obtain ⟨balance, hBalance, h⟩ := View.bind_eq_ok.1 h
        obtain ⟨_, -, hBalance⟩ := View.bind_eq_ok.1 hBalance
        refine View.bind_eq_ok.2 ⟨balance, hBalance, ?_⟩
        split at h
        · next hZero =>
          rw [if_pos hZero]
          cases h
          rfl
        · next hSome =>
          rw [if_neg hSome, Custody.valueOf, hAdapter]
          obtain ⟨value, hValue, hSame⟩ := Result.map_eq_ok.1 h
          cases hSame
          exact hValue
  · rw [if_pos hAdapter] at h
    cases h

/-- A survey lists all pools in order, each with what its probe found. -/
theorem survey_spec {probe : Pool.Config → View (Option Amount)} {found : List Surveyed}
    (h : survey s probe c = .ok found) :
    found.map Surveyed.config = s.registry.toList ∧
      ∀ p ∈ found, probe p.config c = .ok p.value := by
  simp only [survey, View.bind_eq_ok, View.pure_apply, View.lift_apply, Except.ok.injEq] at h
  obtain ⟨values, hValues, weights, hWeights, rfl⟩ := h
  replace hWeights := Pool.Weight.length_of_current hWeights
  rw [List.length_map] at hWeights
  generalize s.registry.toList = configs at hValues
  -- The lists of configs, values and weights are equally long, so they are gone through together.
  induction configs generalizing values weights with
  | nil => exact ⟨rfl, by simp⟩
  | cons config rest ih =>
    simp only [List.mapM_cons, View.bind_eq_ok, View.pure_apply, Except.ok.injEq] at hValues
    obtain ⟨value, hValue, tail, hTail, rfl⟩ := hValues
    cases weights with
    | nil => cases hWeights
    | cons weight weights =>
      obtain ⟨hConfigs, hProbes⟩ := ih tail weights (Nat.succ.inj hWeights) hTail
      simp only [List.zip_cons_cons, List.map_cons, List.forall_mem_cons]
      exact ⟨by rw [hConfigs], hValue, hProbes⟩

end Router

/-- Pools that all could be valued are reported to be worth what the custody contract finds. -/
theorem Router.allocations_spec {s : State} {q : Custody} {k r : Address} {c : Chain}
    {found : List Pool.Allocation} (hs : c.contract? r = some (.router s)) (hk : s.custody = some k)
    (hq : c.contract? k = some (.custody q)) (h : allocations r c = .ok found)
    (hHealthy : ∀ a ∈ found, a.healthy = true) :
    found.map Pool.Allocation.pool = s.registry.toList.map Pool.Config.pool ∧
      ∀ a ∈ found, a.value = q.appraisal k c a.pool ∧
        ∃ config ∈ s.registry.toList, config.pool = a.pool ∧ config.status = a.status := by
  simp only [allocations, View.bind_eq_ok, View.callee_eq_ok, View.pure_apply,
    Except.ok.injEq] at h
  obtain ⟨s', hs', surveyed, hSurvey, rfl⟩ := h
  obtain rfl : s = s' := storage_unique hs hs'
  obtain ⟨hConfigs, hProbes⟩ := survey_spec hSurvey
  refine ⟨by rw [← hConfigs, List.map_map, List.map_map]; rfl, fun a ha => ?_⟩
  obtain ⟨p, hp, rfl⟩ := List.mem_map.1 ha
  refine ⟨?_, p.config, hConfigs ▸ List.mem_map_of_mem hp, rfl, rfl⟩
  obtain ⟨value, hValue⟩ := Option.isSome_iff_exists.1 (hHealthy _ ha)
  have hProbe := hProbes p hp
  rw [hValue] at hProbe
  rw [Surveyed.allocation, hValue, Option.getD_some]
  exact (Custody.appraisal_of_held (held_of_probeValue hk hq hProbe)).symm

/-- The pools that count as value are the reported ones that do. -/
theorem Agree.supported_perm {c : Chain} {s : Router.State} {q : Custody} (h : Agree c s q) :
    q.supported.toList.Perm ((s.registry.toList.map Pool.Config.pool).filter q.supports) := by
  rw [List.perm_ext_iff_of_nodup h.supported.nodup_toList (h.registry.nodup_pools.filter _)]
  intro p
  rw [h.supported.mem_toList, List.mem_filter]
  constructor
  · intro hp
    obtain ⟨config, hConfig, -⟩ := h.counted p hp
    refine ⟨List.mem_map.2 ⟨config, h.registry.mem_of_get? hConfig, ?_⟩, hp⟩
    exact h.registry.keyed p config hConfig
  · exact And.right

/-- The reported value of the pools and the stable that the router holds exceed all managed value by
what pools are reported to be worth that do not count as value. Those pools are suspended. -/
theorem WiredRun.reported_value_exceeds_managed {w : Wiring} {c : Chain} (hRun : WiredRun w c)
    {found : List Pool.Allocation} {nav : Amount}
    (hFound : Router.allocations w.router c = .ok found)
    (hNav : Router.totalManagedAssets w.router c = .ok nav)
    (hHealthy : ∀ a ∈ found, a.healthy = true) :
    ∃ idle, Router.idleBalance w.router c = .ok idle ∧
      Amount.whole (found.map Pool.Allocation.value) + idle = nav +
        Amount.whole ((found.filter fun a => !(c.keeping w.custody).supports a.pool).map
          Pool.Allocation.value) ∧
      (nav = Amount.whole (found.map Pool.Allocation.value) + idle ↔
        ∀ a ∈ found, (c.keeping w.custody).supports a.pool = false → a.value = 0) ∧
      ∀ a ∈ found, (c.keeping w.custody).supports a.pool = false → a.status = .suspended := by
  obtain ⟨s, hs, k, hk, value, hValue, idle, hIdle, hAdd⟩ := by
    simpa only [Router.totalManagedAssets, View.bind_eq_ok, View.callee_eq_ok, View.lift_apply,
      known_eq_ok] using hNav
  obtain ⟨-, rfl⟩ := Amount.add_eq_ok.1 hAdd
  obtain rfl : k = w.custody := by
    obtain ⟨-, -, hCustody, -⟩ := hRun.kept.router hs
    exact Option.some.inj (hk.symm.trans hCustody)
  obtain ⟨q, hq⟩ : ∃ q, c.contract? w.custody = some (.custody q) := by
    simp only [Custody.totalValue, View.bind_eq_ok, View.callee_eq_ok] at hValue
    obtain ⟨q, hq, -⟩ := hValue
    exact ⟨q, hq⟩
  have hAgree := hRun.agrees (hRun.address_of_contract (by simp [kind?_of_contract? hs]))
  rw [Wiring.Agrees, routing_of hs, keeping_of hq] at hAgree
  rw [keeping_of hq]
  obtain ⟨hPools, hValues⟩ := Router.allocations_spec hs hk hq hFound hHealthy
  -- What is reported is what custody finds, so the two lists of pools can be compared.
  have hCounted : value =
      Amount.whole ((found.filter fun a => q.supports a.pool).map Pool.Allocation.value) := by
    obtain ⟨-, -, rfl⟩ := (Custody.totalValue_eq_ok hq).1 hValue
    rw [Amount.whole_perm (hAgree.supported_perm.map _), ← hPools,
      List.filter_map, List.map_map]
    congr 1
    exact List.map_congr_left fun a ha => ((hValues a (List.mem_filter.1 ha).1).1).symm
  have hSplit := Amount.whole_partition (fun a => q.supports a.pool) Pool.Allocation.value found
  refine ⟨idle, hIdle, ?_, ?_, fun a ha hOut => ?_⟩
  · rw [hSplit, hCounted]
    exact Nat.add_right_comm _ _ _
  · have hZero : (∀ a ∈ found, q.supports a.pool = false → a.value = 0) ↔
        Amount.whole ((found.filter fun a => !q.supports a.pool).map (·.value)) = 0 := by
      simp only [Amount.whole_eq_zero, List.forall_mem_map, List.mem_filter, Bool.not_eq_true',
        and_imp]
    rw [hZero, hSplit, hCounted, Nat.add_right_cancel_iff, Nat.left_eq_add]
  · obtain ⟨-, config, hMem, hPool, hStatus⟩ := hValues a ha
    have hGet := hAgree.registry.get?_of_mem hMem
    rw [← hStatus]
    refine Classical.byContradiction fun hLive => ?_
    rw [← hPool, hAgree.live _ _ hGet hLive] at hOut
    cases hOut

/-- After a deposit of 100 the pool is reported to be worth all that is managed. -/
theorem WiredRun.reported_value_exceeds_managed_deposited : ∃ c found idle,
    WiredRun Standard.places c ∧ Router.allocations Standard.router c = .ok found ∧
      Router.totalManagedAssets Standard.router c = .ok 100 ∧
      (∀ a ∈ found, a.healthy = true) ∧ Router.idleBalance Standard.router c = .ok idle ∧
      100 = Amount.whole (found.map Pool.Allocation.value) + idle := by
  have hEnd : (Standard.places.follow {} (Standard.pooled 0 1 { admin := .account 0 } rateScale
      100 ++ [.call 1 Standard.share (.share (.deposit 100 (.account 1)))])).any (fun c =>
      Standard.places.completes c && (Router.allocations Standard.router c).toOption.any
        fun found => (Router.totalManagedAssets Standard.router c).toOption == some 100 &&
          found.all fun a => a.healthy && (c.keeping Standard.custody).supports a.pool) = true := by
    decide +kernel
  obtain ⟨c, hRun, -, hHolds⟩ := Wiring.exists_reached hEnd
  obtain ⟨found, hFound, hHolds⟩ := (Option.any_eq_true _ _).1 hHolds
  simp only [Bool.and_eq_true, beq_iff_eq, List.all_eq_true] at hHolds
  obtain ⟨hNav, hAll⟩ := hHolds
  have hFound := Result.of_toOption hFound
  have hNav := Result.of_toOption hNav
  have hHealthy : ∀ a ∈ found, a.healthy = true := fun a ha => (hAll a ha).1
  obtain ⟨idle, hIdle, -, hSame, -⟩ := reported_value_exceeds_managed hRun hFound hNav hHealthy
  refine ⟨c, found, idle, hRun, hFound, hNav, hHealthy, hIdle, hSame.2 fun a ha hOut => ?_⟩
  exact absurd (hOut.symm.trans (hAll a ha).2) Bool.false_ne_true

/-- A pool is suspended, given up and bound again, and its adapter takes a deposit of 100 from
outside. The pool is reported to be well and worth 100, while nothing at all is managed. -/
theorem WiredRun.reported_value_without_managed : ∃ c found,
    WiredRun Standard.places c ∧ Standard.places.Complete c ∧
      Router.allocations Standard.router c = .ok found ∧
      Router.totalManagedAssets Standard.router c = .ok 0 ∧
      Router.idleBalance Standard.router c = .ok 0 ∧ (∀ a ∈ found, a.healthy = true) ∧
      ¬ 0 = Amount.whole (found.map Pool.Allocation.value) + 0 := by
  have hEnd : (Standard.places.follow {} (Standard.pooled 0 1 { admin := .account 0 } rateScale
      100 ++
      [.call 0 Standard.router (.router (.setPoolStatus Standard.pool .suspended)),
        .call 0 Standard.router (.router (.removeAdapter Standard.pool)),
        .call 0 Standard.router (.router (.registerAdapter Standard.pool Standard.pool)),
        .call 1 Standard.stable (.token (.approve Standard.pool 100)),
        .call 1 Standard.pool (.strategy (.deposit 100))])).any (fun c =>
      Standard.places.completes c && (Router.allocations Standard.router c).toOption.any
        fun found => (Router.totalManagedAssets Standard.router c).toOption == some 0 &&
          ((Router.idleBalance Standard.router c).toOption == some 0 &&
            (found.all (fun a => a.healthy) &&
              Amount.whole (found.map Pool.Allocation.value) == 100))) = true := by
    decide +kernel
  obtain ⟨c, hRun, hComplete, hHolds⟩ := Wiring.exists_reached hEnd
  obtain ⟨found, hFound, hHolds⟩ := (Option.any_eq_true _ _).1 hHolds
  simp only [Bool.and_eq_true, beq_iff_eq, List.all_eq_true] at hHolds
  obtain ⟨hNav, hIdle, hHealthy, hValue⟩ := hHolds
  refine ⟨c, found, hRun, hComplete, Result.of_toOption hFound, Result.of_toOption hNav,
    Result.of_toOption hIdle, hHealthy, ?_⟩
  rw [hValue]
  decide

end Treasury
