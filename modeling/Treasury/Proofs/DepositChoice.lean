import Mathlib.Data.List.Nodup
import Treasury.Proofs.Governed
import Treasury.Proofs.Listings
import Treasury.Proofs.Rankings
import Treasury.Proofs.Snapshots
import Treasury.Proofs.ValueIdentity

/-! Which pool the next deposit goes to. The router weighs its pools anew for the choice, and a pool
whose adapter quotes no shares for a small deposit then counts as worth nothing, though reports show
what it is worth. Among the pools that may be chosen, the one that is picked misses most to its
target by these weights; they are the reported ones as long as all value is in pools with quotes. -/
namespace Treasury

open Exec Chain

/-- One of some reported pools comes first by some weights: every other pool that may be chosen
misses less to its target, or misses as much and stands later. -/
def Pool.ComesFirst (p : Address) (eligible : List Address) (reported : List Pool.Allocation)
    (weights : List Nat) : Prop :=
  ∃ (i n : Nat) (a : Allocation), reported[i]? = some a ∧ a.pool = p ∧ weights[i]? = some n ∧
    ∀ (j : Nat) (b : Allocation), reported[j]? = some b → b.pool ∈ eligible → b.pool ≠ p →
      ∃ m : Nat, weights[j]? = some m ∧ (b.target : Int) - m ≤ a.target - n ∧
        ((b.target : Int) - m = a.target - n → i < j)

namespace Router

/-- A pool that a survey found, and what it found the pool to be worth. -/
def Surveyed.finding (p : Surveyed) : Pool.Config × Option Amount := (p.config, p.value)

/-- Whether the adapter of a registered pool quotes shares of the pool for a small deposit. -/
def quotes (s : State) (c : Chain) (p : Address) : Bool :=
  (s.registry.get? p).any fun config => (passes s config 0 .deposit c).toOption.getD false

/-- What is left of a finding if a pool without a quote cannot be relied on. -/
def heeded (s : State) (c : Chain) (p : Surveyed) : Pool.Config × Option Amount :=
  (p.config, if quotes s c p.config.pool then p.value else none)

/-- What a reported pool counts for when a pool is chosen for a deposit. -/
def weighed (s : State) (c : Chain) (a : Pool.Allocation) : Amount :=
  if quotes s c a.pool then a.value else 0

/-- Whether a reported pool may be chosen for a deposit. -/
def choosable (s : State) (c : Chain) (a : Pool.Allocation) : Bool :=
  a.status.acceptsDeposits && a.healthy && quotes s c a.pool

variable {s : State} {c : Chain} {config : Pool.Config} {value : Option Amount}
  {found all : List Surveyed}

theorem weighed_eq_value {a : Pool.Allocation} (h : a.value ≠ 0 → quotes s c a.pool = true) :
    weighed s c a = a.value := by
  unfold weighed
  split
  · rfl
  · next hNone => exact (not_not.1 fun hSome => hNone (h hSome)).symm

/-- For a deposit, a pool is found to be worth what it is worth if it has a quote, and cannot be
relied on otherwise. -/
theorem probe_deposit (hGet : s.registry.get? config.pool = some config)
    (hValue : probeValue s config c = .ok value) {counted : Option Amount}
    (hProbe : probe s .deposit config c = .ok counted) :
    counted = if quotes s c config.pool then value else none := by
  rw [probe, View.bind_of_ok hValue] at hProbe
  cases value with
  | none =>
    cases hProbe
    exact (ite_self _).symm
  | some n =>
    obtain ⟨passed, hPassed, hCounted⟩ := View.bind_eq_ok.1 hProbe
    have hQuotes : quotes s c config.pool = passed := by
      have hPassed' : passes s config 0 .deposit c = .ok passed := hPassed
      rw [quotes, hGet, Option.any_some, hPassed']
      rfl
    rw [hQuotes]
    exact (Except.ok.inj hCounted).symm

/-- The weights that a survey finds are those of the values that it finds. -/
theorem survey_weights {probe : Pool.Config → View (Option Amount)}
    (h : survey s probe c = .ok found) :
    Pool.Weight.current (found.map fun p => p.value.getD 0) =
      .ok (found.map Surveyed.weight) := by
  simp only [survey, View.bind_eq_ok, View.pure_apply, View.lift_apply, Except.ok.injEq] at h
  obtain ⟨values, hValues, weights, hWeights, rfl⟩ := h
  have hConfigs := (View.mapM_eq_ok.1 hValues).length_eq
  have hLength := Pool.Weight.length_of_current hWeights
  rw [List.length_map] at hLength
  -- The three lists are equally long, so nothing is lost when they are put together.
  have hPairs : (s.registry.toList.zip (values.zip weights)).map Prod.snd = values.zip weights := by
    apply List.map_snd_zip
    rw [List.length_zip]
    omega
  have hFirst : (values.zip weights).map Prod.fst = values := List.map_fst_zip (by omega)
  have hSecond : (values.zip weights).map Prod.snd = weights := List.map_snd_zip (by omega)
  rw [← hPairs, List.map_map] at hFirst hSecond
  rw [List.map_map, List.map_map]
  change Pool.Weight.current ((s.registry.toList.zip (values.zip weights)).map
    ((fun value => value.getD 0) ∘ (Prod.fst ∘ Prod.snd))) =
      .ok ((s.registry.toList.zip (values.zip weights)).map (Prod.snd ∘ Prod.snd))
  rw [← List.map_map, hFirst, hSecond, hWeights]

/-- The survey for a deposit and the one for a report, of the pools that a router has. -/
structure Choice (s : State) (c : Chain) (found all : List Surveyed) : Prop where
  found : survey s (probe s .deposit) c = .ok found
  all : survey s (probeValue s) c = .ok all
  sound : s.registry.Sound

namespace Choice

variable (h : Choice s c found all)

include h

/-- Both surveys look at the same pools, and the one for a deposit leaves out those without a
quote. -/
theorem findings : found.map Surveyed.finding = all.map (heeded s c) := by
  obtain ⟨hConfigs, hProbes⟩ := survey_spec h.found
  obtain ⟨hConfigs', hValues⟩ := survey_spec h.all
  apply List.ext_getElem?
  intro i
  have hSame : found[i]?.map Surveyed.config = all[i]?.map Surveyed.config := by
    rw [← List.getElem?_map, ← List.getElem?_map, hConfigs, hConfigs']
  rw [List.getElem?_map, List.getElem?_map]
  cases hp : found[i]? with
  | none =>
    rw [hp, Option.map_none, eq_comm, Option.map_eq_none_iff] at hSame
    rw [hSame]
    rfl
  | some p =>
    rw [hp, Option.map_some, eq_comm, Option.map_eq_some_iff] at hSame
    obtain ⟨q, hq, hConfig⟩ := hSame
    have hMem := List.mem_of_getElem? hq
    have hGet : s.registry.get? q.config.pool = some q.config :=
      h.sound.get?_of_mem (hConfigs' ▸ List.mem_map_of_mem hMem)
    have hProbe := hProbes p (List.mem_of_getElem? hp)
    rw [← hConfig] at hProbe
    rw [hq, Option.map_some, Option.map_some, Surveyed.finding, heeded, ← hConfig,
      probe_deposit hGet (hValues q hMem) hProbe]

/-- A pool stands at the same place in both surveys. -/
theorem finding_at (i : Nat) : found[i]?.map Surveyed.finding = all[i]?.map (heeded s c) := by
  rw [← List.getElem?_map, ← List.getElem?_map, h.findings]

/-- The pools are reported in their order. -/
theorem pools_eq : (all.map Surveyed.allocation).map Pool.Allocation.pool =
    s.registry.toList.map Pool.Config.pool := by
  rw [← (survey_spec h.all).1, List.map_map, List.map_map]
  rfl

/-- No pool is reported twice. -/
theorem distinct : ((all.map Surveyed.allocation).map Pool.Allocation.pool).Nodup :=
  h.pools_eq ▸ h.sound.nodup_pools

/-- The pools that may be chosen are the reported ones that take deposits, are well and have a
quote. -/
theorem eligiblePools_eq : eligiblePools (found.map (Surveyed.snapshot .deposit)) =
    ((all.map Surveyed.allocation).filter (choosable s c)).map Pool.Allocation.pool := by
  have hFindings : eligiblePools (found.map (Surveyed.snapshot .deposit)) =
      ((found.map Surveyed.finding).filter fun q =>
        Direction.deposit.admits q.1.status && q.2.isSome).map fun q => q.1.pool := by
    rw [eligiblePools, List.filter_map, List.map_map, List.filter_map, List.map_map]
    rfl
  rw [hFindings, h.findings, List.filter_map, List.map_map, List.filter_map, List.map_map]
  apply congrArg (List.map fun p : Surveyed => p.config.pool)
  apply List.filter_congr
  intro p _
  simp only [Function.comp_apply, heeded, choosable, Surveyed.allocation, Direction.admits]
  cases quotes s c p.config.pool <;> simp

/-- A reported pool that is among those that may be chosen may itself be chosen. -/
theorem choosable_of_mem {a : Pool.Allocation} (ha : a ∈ all.map Surveyed.allocation)
    (hMay : a.pool ∈ eligiblePools (found.map (Surveyed.snapshot .deposit))) :
    choosable s c a = true := by
  rw [h.eligiblePools_eq, List.mem_map] at hMay
  obtain ⟨b, hb, hPool⟩ := hMay
  obtain ⟨hb, hChoosable⟩ := List.mem_filter.1 hb
  have hSame : b = a := List.inj_on_of_nodup_map h.distinct hb ha hPool
  exact hSame ▸ hChoosable

/-- For the choice, each reported pool counts for its value if it has a quote. -/
theorem weights : Pool.Weight.current ((all.map Surveyed.allocation).map (weighed s c)) =
    .ok (found.map Surveyed.weight) := by
  have hValues : found.map (fun p => p.value.getD 0) =
      (found.map Surveyed.finding).map fun q => q.2.getD 0 := by
    rw [List.map_map]
    rfl
  rw [← survey_weights h.found, hValues, h.findings, List.map_map, List.map_map]
  apply congrArg Pool.Weight.current
  apply List.map_congr_left
  intro p _
  simp only [Function.comp_apply, heeded, weighed, Surveyed.allocation]
  rw [apply_ite fun v : Option Amount => v.getD 0]
  rfl

/-- If all reported value has a quote, the weights of the choice are the reported ones. -/
theorem weights_reported (hQuoted : ∀ a ∈ all.map Surveyed.allocation, a.value ≠ 0 →
      quotes s c a.pool = true) :
    (all.map Surveyed.allocation).map Pool.Allocation.current = found.map Surveyed.weight := by
  have hCounts : (all.map Surveyed.allocation).map (weighed s c) =
      all.map fun p => p.value.getD 0 := by
    rw [List.map_map]
    apply List.map_congr_left
    intro p hp
    exact weighed_eq_value (hQuoted _ (List.mem_map_of_mem hp))
  have hWeights := h.weights
  rw [hCounts, survey_weights h.all] at hWeights
  rw [List.map_map]
  exact Except.ok.inj hWeights

/-- The pool that is chosen comes first by the weights of the choice. -/
theorem comesFirst {i : Nat} {chosen : Pool.Snapshot}
    (hPick : Pool.Ranking.depositPool (found.map (Surveyed.snapshot .deposit)) = some i)
    (hChosen : (found.map (Surveyed.snapshot .deposit))[i]? = some chosen) :
    Pool.ComesFirst chosen.pool (eligiblePools (found.map (Surveyed.snapshot .deposit)))
      (all.map Surveyed.allocation) (found.map Surveyed.weight) := by
  obtain ⟨x, hx, rfl⟩ := Option.map_eq_some_iff.1 (List.getElem?_map ▸ hChosen)
  have hFinding := h.finding_at i
  rw [hx, Option.map_some, eq_comm, Option.map_eq_some_iff] at hFinding
  obtain ⟨p, hp, hHeeded⟩ := hFinding
  have hConfig : p.config = x.config := congrArg Prod.fst hHeeded
  refine ⟨i, x.weight, p.allocation, ?_, congrArg Pool.Config.pool hConfig, ?_, ?_⟩
  · rw [List.getElem?_map, hp, Option.map_some]
  · rw [List.getElem?_map, hx, Option.map_some]
  intro j b hb hMay hOther
  have hChoosable := h.choosable_of_mem (List.mem_of_getElem? hb) hMay
  rw [List.getElem?_map, Option.map_eq_some_iff] at hb
  obtain ⟨q, hq, rfl⟩ := hb
  have hFinding := h.finding_at j
  rw [hq, Option.map_some, Option.map_eq_some_iff] at hFinding
  obtain ⟨y, hy, hHeeded'⟩ := hFinding
  obtain ⟨hConfig', hValue'⟩ := Prod.mk.inj hHeeded'
  have hElsewhere : j ≠ i := by
    rintro rfl
    obtain rfl := Option.some.inj (hq.symm.trans hp)
    exact hOther (congrArg Pool.Config.pool hConfig)
  have hEligible : (y.snapshot .deposit).eligible = true := by
    simp only [choosable, Surveyed.allocation, Bool.and_eq_true] at hChoosable
    obtain ⟨⟨hStatus, hWell⟩, hQuotes⟩ := hChoosable
    simp only [Surveyed.snapshot, Direction.admits, hConfig', hValue', hQuotes, if_true, hStatus,
      hWell, Bool.and_self]
  have hOther' : (found.map (Surveyed.snapshot .deposit))[j]? = some (y.snapshot .deposit) := by
    rw [List.getElem?_map, hy, Option.map_some]
  have hAhead := Pool.Ranking.depositPool_precedes hPick hChosen hOther' hEligible hElsewhere
  refine ⟨y.weight, by rw [List.getElem?_map, hy, Option.map_some], ?_⟩
  simp only [Pool.Ranking.Precedes, Pool.Snapshot.deficit, Surveyed.snapshot, hConfig'] at hAhead
  simp only [Surveyed.allocation, hConfig]
  omega

end Choice

end Router

/-- The next deposit goes to a pool that may be chosen. Of all that may be, it misses most to its
target, and of those that miss as much it stands first, by the weights that the pools have when only
value with a quote counts. If all reported value is in pools with quotes, these weights are the
reported ones. -/
theorem Reachable.next_deposit_comes_first {c : Chain} (hRun : Reachable c) {r p : Address}
    {reported : List Pool.Allocation} (hNext : Router.nextDepositPool r c = .ok (some p))
    (hReported : Router.allocations r c = .ok reported) :
    ∃ eligible weights, Router.depositEligiblePools r c = .ok eligible ∧ p ∈ eligible ∧
      reported.map Pool.Allocation.pool =
        (c.routing r).registry.toList.map Pool.Config.pool ∧
      eligible = (reported.filter (Router.choosable (c.routing r) c)).map Pool.Allocation.pool ∧
      Pool.Weight.current (reported.map (Router.weighed (c.routing r) c)) = .ok weights ∧
      Pool.ComesFirst p eligible reported weights ∧
      ((∀ a ∈ reported, a.value ≠ 0 → Router.quotes (c.routing r) c a.pool = true) →
        Pool.ComesFirst p eligible reported (reported.map Pool.Allocation.current)) := by
  simp only [Router.allocations, View.bind_eq_ok, View.callee_eq_ok, View.pure_apply,
    Except.ok.injEq] at hReported
  obtain ⟨s, hs, all, hAll, rfl⟩ := hReported
  simp only [Router.nextDepositPool, Router.snapshots, View.bind_eq_ok, View.callee_eq_ok,
    View.pure_apply, Except.ok.injEq] at hNext
  obtain ⟨s', hs', _, ⟨found, hFound, rfl⟩, hPicked⟩ := hNext
  obtain rfl : s = s' := storage_unique hs hs'
  obtain ⟨i, hPick, hPool⟩ := Option.bind_eq_some_iff.1 hPicked
  obtain ⟨chosen, hChosen, rfl⟩ := Option.map_eq_some_iff.1 hPool
  rw [routing_of hs]
  have hChoice : Router.Choice s c found all := ⟨hFound, hAll, (hRun.listed r _ hs).sound⟩
  have hFirst := hChoice.comesFirst hPick hChosen
  refine ⟨_, _, ?_, ?_, hChoice.pools_eq, hChoice.eligiblePools_eq, hChoice.weights, hFirst, ?_⟩
  · have hSnapshots : Router.snapshots s .deposit c =
        .ok (found.map (Router.Surveyed.snapshot .deposit)) :=
      View.bind_eq_ok.2 ⟨found, hFound, rfl⟩
    exact View.bind_eq_ok.2 ⟨s, View.callee_eq_ok.2 hs, View.bind_eq_ok.2 ⟨_, hSnapshots, rfl⟩⟩
  · obtain ⟨_, hAt, hEligible⟩ := Pool.Ranking.depositPool_eligible hPick
    obtain rfl := Option.some.inj (hChosen.symm.trans hAt)
    exact List.mem_map_of_mem (List.mem_filter.2 ⟨List.mem_of_getElem? hChosen, hEligible⟩)
  · intro hQuoted
    rw [hChoice.weights_reported hQuoted]
    exact hFirst

/-- Deploy a pool at the next address and give it a target. -/
def Standard.adding (n target : Nat) : List Action :=
  [.deploy 0 (.fixedRate (.account 0) stable custody rateScale),
    .call 0 router (.router (.registerAdapter (.ofNumber n) (.ofNumber n))),
    .call 0 router (.router (.addPool (.ofNumber n) target))]

/-- Three pools hold 100, 50 and 850, and should hold two, one and two parts of five. -/
def Standard.trio : List Action :=
  opening 0 { admin := .account 0 } ++ adding 5 400_000 ++ adding 6 200_000 ++ adding 7 400_000 ++
    [.call 0 stable (.stable (.mint (.account 1) 1_000)),
      .call 1 stable (.token (.approve router 1_000)),
      .call 0 router (.router (.grantRole Roles.solver (.account 1))),
      .call 1 router (.router (.solverDepositByAssets
        [⟨.ofNumber 5, 100⟩, ⟨.ofNumber 6, 50⟩, ⟨.ofNumber 7, 850⟩] 0 (.account 1)))]

/-- All three pools have a quote, so the first one comes first by the reported weights. -/
theorem Reachable.next_deposit_comes_first_quoted : ∃ c reported eligible,
    Reachable c ∧ Router.nextDepositPool Standard.router c = .ok (some (.ofNumber 5)) ∧
      Router.allocations Standard.router c = .ok reported ∧
      Router.depositEligiblePools Standard.router c = .ok eligible ∧
      reported.map Pool.Allocation.current = [100_000, 50_000, 850_000] ∧
      Pool.ComesFirst (.ofNumber 5) eligible reported [100_000, 50_000, 850_000] := by
  have hEnd : (Standard.places.follow {} Standard.trio).any (fun c =>
      Standard.places.completes c && (Router.allocations Standard.router c).toOption.any
        fun reported => (Router.nextDepositPool Standard.router c).toOption ==
            some (some (.ofNumber 5)) &&
          (reported.map Pool.Allocation.current == [100_000, 50_000, 850_000] &&
            reported.all fun a =>
              Router.quotes (c.routing Standard.router) c a.pool)) = true := by
    decide +kernel
  obtain ⟨c, hRun, -, hHolds⟩ := Wiring.exists_reached hEnd
  obtain ⟨reported, hReported, hHolds⟩ := (Option.any_eq_true _ _).1 hHolds
  simp only [Bool.and_eq_true, beq_iff_eq, List.all_eq_true] at hHolds
  obtain ⟨hNext, hCurrent, hQuoted⟩ := hHolds
  have hReports := Result.of_toOption hReported
  have hPick := Result.of_toOption hNext
  obtain ⟨eligible, weights, hEligible, -, -, -, -, -, hFirst⟩ :=
    next_deposit_comes_first hRun.reachable hPick hReports
  rw [hCurrent] at hFirst
  exact ⟨c, reported, eligible, hRun.reachable, hPick, hReports, hEligible, hCurrent,
    hFirst fun a ha _ => hQuoted a ha⟩

/-- After a rise of its rate the third pool has no quote for a small deposit, and does not count for
the choice. The second pool is picked, though by the reported weights the first one misses more. -/
theorem WiredRun.next_deposit_by_unreported_weights : ∃ c reported,
    WiredRun Standard.places c ∧ Standard.places.Complete c ∧
      Router.nextDepositPool Standard.router c = .ok (some (.ofNumber 6)) ∧
      Router.depositEligiblePools Standard.router c = .ok [.ofNumber 5, .ofNumber 6] ∧
      Router.allocations Standard.router c = .ok reported ∧
      reported.map (fun a => (a.pool, a.target, a.current)) = [(.ofNumber 5, 400_000, 11_560),
        (.ofNumber 6, 200_000, 5_780), (.ofNumber 7, 400_000, 982_658)] ∧
      ¬ Pool.ComesFirst (.ofNumber 6) [.ofNumber 5, .ofNumber 6] reported
        (reported.map Pool.Allocation.current) := by
  have hEnd : (Standard.places.follow {} (Standard.trio ++
      [.call 0 (.ofNumber 7) (.strategy (.setRate (10 * rateScale)))])).any (fun c =>
      Standard.places.completes c && (Router.allocations Standard.router c).toOption.any
        fun reported => (Router.nextDepositPool Standard.router c).toOption ==
            some (some (.ofNumber 6)) &&
          ((Router.depositEligiblePools Standard.router c).toOption ==
            some [.ofNumber 5, .ofNumber 6] &&
          decide (reported.map (fun a => (a.pool, a.target, a.current)) =
            [(.ofNumber 5, 400_000, 11_560), (.ofNumber 6, 200_000, 5_780),
              (.ofNumber 7, 400_000, 982_658)]))) = true := by
    decide +kernel
  obtain ⟨c, hRun, hComplete, hHolds⟩ := Wiring.exists_reached hEnd
  obtain ⟨reported, hReported, hHolds⟩ := (Option.any_eq_true _ _).1 hHolds
  simp only [Bool.and_eq_true, beq_iff_eq, decide_eq_true_eq] at hHolds
  obtain ⟨hNext, hEligible, hRows⟩ := hHolds
  refine ⟨c, reported, hRun, hComplete, Result.of_toOption hNext, Result.of_toOption hEligible,
    Result.of_toOption hReported, hRows, ?_⟩
  rintro ⟨i, n, a, ha, hPool, hn, hFirst⟩
  have hSecond := List.mem_map_of_mem (f := fun a => (a.pool, a.target, a.current))
    (List.mem_of_getElem? ha)
  have hBefore : Address.ofNumber 6 ≠ .ofNumber 5 := by decide
  have hAfter : Address.ofNumber 6 ≠ .ofNumber 7 := by decide
  simp only [hRows, hPool, List.mem_cons, Prod.mk.injEq, hBefore, hAfter, false_and, true_and,
    List.not_mem_nil, or_false, false_or] at hSecond
  have hRow := congrArg (fun rows => rows[0]?) hRows
  rw [List.getElem?_map] at hRow
  obtain ⟨b, hb, hRow⟩ := Option.map_eq_some_iff.1 hRow
  simp only [Prod.mk.injEq] at hRow
  obtain ⟨m, hm, hLess, -⟩ := hFirst 0 b hb (hRow.1 ▸ List.mem_cons_self) (hRow.1 ▸ hBefore.symm)
  rw [List.getElem?_map, ha, Option.map_some, Option.some.injEq] at hn
  rw [List.getElem?_map, hb, Option.map_some, Option.some.injEq] at hm
  omega

end Treasury
