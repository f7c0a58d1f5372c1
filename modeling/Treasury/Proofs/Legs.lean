import Mathlib.Algebra.GroupWithZero.Nat
import Treasury.Proofs.Conservation
import Treasury.Proofs.Rankings

/-! The legs of calls. A call names pools, or the router picks one; each is a registered pool that
may be used, and what is done with one after the other is accounted for together. -/
namespace Treasury

open Exec Chain

/-- What the legs of a call name together. -/
def Pool.Leg.total (legs : List Pool.Leg) : Nat :=
  legs.foldr (fun leg total => leg.amount + total) 0

/-- A sum that is found out is in range, and so are all sums on the way. -/
theorem Amount.sum_eq_ok {as : List Nat} {n : Nat} :
    Amount.sum as = .ok n ↔ as.sum < Amount.bound ∧ as.sum = n := by
  suffices hFrom : ∀ start : Nat, start < Amount.bound → (as.foldlM Amount.add start = .ok n ↔
      start + as.sum < Amount.bound ∧ start + as.sum = n) by
    have hZero := hFrom 0 (by decide)
    rw [Nat.zero_add] at hZero
    exact hZero
  induction as with
  | nil =>
    intro start hStart
    rw [List.foldlM_nil, List.sum_nil, Nat.add_zero]
    exact ⟨fun h => ⟨hStart, Except.ok.inj h⟩, fun h => congrArg _ h.2⟩
  | cons a rest ih =>
    intro start hStart
    rw [List.foldlM_cons, Result.bind_eq_ok, List.sum_cons, ← Nat.add_assoc]
    constructor
    · rintro ⟨_, hAdd, hRest⟩
      obtain ⟨hRange, rfl⟩ := Amount.add_eq_ok.1 hAdd
      exact (ih _ hRange).1 hRest
    · rintro ⟨hRange, hSum⟩
      have hFirst : start + a < Amount.bound := Nat.lt_of_le_of_lt (Nat.le_add_right _ _) hRange
      exact ⟨_, Amount.add_eq_ok.2 ⟨hFirst, rfl⟩, (ih _ hFirst).2 ⟨hRange, hSum⟩⟩

theorem Pool.Leg.sum_eq_ok {legs : List Pool.Leg} {n : Amount} :
    Amount.sum (legs.map Pool.Leg.amount) = .ok n ↔
      total legs < Amount.bound ∧ total legs = n := by
  have hTotal : total legs = (legs.map Pool.Leg.amount).sum := by
    rw [total, List.sum, List.foldr_map]
  rw [hTotal]
  exact Amount.sum_eq_ok

namespace Router

variable {s : State} {direction : Direction} {c : Chain} {pools : List Pool.Snapshot}
  {config : Pool.Config} {i : Nat} {found : Pool.Snapshot}

/-- Snapshots are taken of the registered pools in order, and only a pool whose status admits the
direction is eligible. -/
theorem admits_of_snapshots (h : snapshots s direction c = .ok pools)
    (hFound : pools[i]? = some found) (hEligible : found.eligible = true)
    (hConfig : s.registry.toList[i]? = some config) :
    direction.admits config.status = true := by
  simp only [snapshots, survey, View.bind_eq_ok, View.pure_apply, View.lift_apply,
    Except.ok.injEq] at h
  obtain ⟨_, ⟨values, -, weights, -, rfl⟩, rfl⟩ := h
  simp only [List.getElem?_map, Option.map_map, Option.map_eq_some_iff] at hFound
  obtain ⟨⟨config', value, weight⟩, hZip, rfl⟩ := hFound
  obtain ⟨hAt, -⟩ := List.getElem?_zip_eq_some.1 hZip
  obtain rfl : config = config' := Option.some.inj (hConfig.symm.trans hAt)
  simp only [Function.comp_apply, Surveyed.snapshot, Bool.and_eq_true] at hEligible
  exact hEligible.1

end Router

namespace Router

variable {registry : Pool.Registry} {direction : Direction} {config : Pool.Config}

/-- Legs are resolved in order, each to the config of the pool that it names. -/
theorem resolve_spec (hSound : registry.Sound) {legs : List Pool.Leg} {seen : List Address}
    {parts : List Part} (h : resolve registry direction seen legs = .ok parts) :
    (parts.map fun part => (⟨part.config.pool, part.amount⟩ : Pool.Leg)) = legs ∧
      ∀ part ∈ parts, registry.get? part.config.pool = some part.config ∧
        direction.require part.config.status = .ok () := by
  induction legs generalizing seen parts with
  | nil =>
    cases h
    exact ⟨rfl, by simp⟩
  | cons leg rest ih =>
    simp only [resolve, Result.bind_eq_ok, ensure_eq_ok, Pool.Registry.require_eq_ok] at h
    obtain ⟨_, _, _, _, config, hConfig, _, hStatus, tail, hTail, ⟨⟩⟩ := h
    have hPool : config.pool = leg.pool := hSound.keyed _ _ hConfig
    obtain ⟨hMap, hAll⟩ := ih hTail
    refine ⟨by rw [List.map_cons, hMap, hPool], List.forall_mem_cons.2 ⟨⟨?_, hStatus⟩, hAll⟩⟩
    rw [hPool, hConfig]

theorem resolveAll_spec (hSound : registry.Sound) {legs : List Pool.Leg} {parts : List Part}
    (h : resolveAll registry direction legs = .ok parts) :
    (parts.map fun part => (⟨part.config.pool, part.amount⟩ : Pool.Leg)) = legs ∧
      ∀ part ∈ parts, registry.get? part.config.pool = some part.config ∧
        direction.require part.config.status = .ok () := by
  simp only [resolveAll, Result.bind_eq_ok] at h
  obtain ⟨_, _, h⟩ := h
  exact resolve_spec hSound h

end Router

namespace Wiring

/-- A treasury with fixed-rate pools between calls: router and custody contract agree, and the
router allows nobody anything. -/
structure Stands (w : Wiring) (c : Chain) (s : Router.State) (q : Custody) : Prop where
  fixed : w.Fixed c q
  router : c.contract? w.router = some (.router s)
  agree : Agree c s q
  reserved : ∀ t spender, c.kind? t ≠ some .ledger → c.allowance t w.router spender = 0

variable {w : Wiring} {c : Chain} {s : Router.State} {q : Custody} {config : Pool.Config}

/-- The adapter of a registered pool that counts as value is the pool itself. -/
theorem Stands.adapter_eq (h : w.Stands c s q)
    (hGet : s.registry.get? config.pool = some config) (hCounts : q.supports config.pool = true) :
    config.adapter = config.pool := by
  obtain ⟨found, hFound, hBound⟩ := h.agree.counted _ hCounts
  obtain rfl : config = found := Option.some.inj (hGet.symm.trans hFound)
  rw [(h.fixed.pools _ hCounts).1] at hBound
  exact (Option.some.inj hBound).symm

/-- A pool that takes deposits counts as value. -/
theorem Stands.counts (h : w.Stands c s q) (hGet : s.registry.get? config.pool = some config)
    (hStatus : config.status.acceptsDeposits = true) : q.supports config.pool = true := by
  apply h.agree.live _ _ hGet
  intro hSuspended
  rw [hSuspended] at hStatus
  cases hStatus

end Wiring

theorem WiredRun.stands {w : Wiring} {c : Chain} (h : WiredRun w c) (hComplete : w.Complete c)
    (hPools : w.FixedRatePools c) : ∃ s q, w.Stands c s q := by
  obtain ⟨q, hFixed⟩ := h.fixed hComplete hPools
  obtain ⟨s, hs, -⟩ := hComplete.router
  obtain ⟨place, hPlace⟩ := h.router_place hComplete
  have hAgree := h.agrees ⟨place, hPlace⟩
  rw [Wiring.Agrees, routing_of hs, keeping_of hFixed.custody] at hAgree
  refine ⟨s, q, hFixed, hs, hAgree, fun t spender hKind => ?_⟩
  rw [hPlace]
  exact h.allowance_eq_zero hKind

namespace Router

open Wiring (Fixed)

variable {wiring : Wiring} {user : Address} {w : World} {f : Frame} {back : Callback} {q : Custody}

/-- Withdrawals from one pool after the other lose at most one unit each to rounding. -/
theorem after_withdrawals_converts {withdraw : Part → Exec Amount} {parts : List Part}
    (h : wiring.Fixed w.chain q)
    (hWithdraw : ∀ part ∈ parts, ∀ u, wiring.Fixed u.chain q → After (withdraw part) u fun _ v =>
      wiring.Converts user q.supported.toList 1 u.chain v.chain ∧
        wiring.Draws q.supported.toList u.chain v.chain) (start : Amount) :
    After (parts.foldlM (fun received part => do Amount.add received (← withdraw part)) start) w
      fun _ v => wiring.Converts user q.supported.toList parts.length w.chain v.chain ∧
        wiring.Draws q.supported.toList w.chain v.chain := by
  induction parts generalizing w start with
  | nil => exact after_pure.2 ⟨.refl _ _ _ _, .refl _ _ _⟩
  | cons part rest ih =>
    simp only [List.foldlM_cons, after_bind, after_result]
    refine (hWithdraw part List.mem_cons_self w h).mono ?_
    rintro paid u ⟨hFirst, hDraws⟩ received -
    have hFixed : wiring.Fixed u.chain q := hFirst.conserves.steady.fixed h
    refine (ih hFixed (fun part hp => hWithdraw part (List.mem_cons_of_mem _ hp)) received).mono ?_
    rintro _ v ⟨hRest, hDraws'⟩
    rw [List.length_cons, Nat.add_comm]
    exact ⟨hFirst.trans hRest, hDraws.trans hDraws'⟩

/-- Deposits into one pool after the other lose to rounding no more than a share of each pool is
worth. -/
theorem after_purchases_converts {purchases : List Purchase} {user : Address}
    (h : wiring.Fixed w.chain q) (hSelf : f.self = wiring.router) (hUser : wiring.router ≠ user)
    (hKnown : ∀ p ∈ purchases, q.supports p.config.pool = true ∧ p.config.adapter = p.config.pool)
    (hNone : ∀ t spender, w.chain.kind? t ≠ some .ledger →
      w.chain.allowance t wiring.router spender = 0) :
    After (purchases.forM (purchase back f)) w fun _ v =>
      wiring.Converts user q.supported.toList
        (w.chain.units (purchases.map fun p => p.config.pool)) w.chain v.chain := by
  induction purchases generalizing w with
  | nil => exact after_pure.2 (.refl _ _ _ _)
  | cons p rest ih =>
    change After (purchase back f p >>= fun _ => rest.forM (purchase back f)) w _
    simp only [after_bind, purchase, after_result, ensure_eq_ok, forall_const]
    obtain ⟨hCounts, hAdapter⟩ := hKnown p List.mem_cons_self
    refine (after_depositIntoPool_converts user h hSelf hCounts (fun _ => hAdapter) hNone).mono ?_
    intro minted u hFirst _
    have hAlike := hFirst.trade.alike
    have hNone' := hFirst.trade.allowance_eq_zero hUser hNone
    refine (ih (hFirst.conserves.steady.fixed h)
      (fun p hp => hKnown p (List.mem_cons_of_mem _ hp)) hNone').mono ?_
    intro _ v hRest
    have hUnits : u.chain.units (rest.map fun p => p.config.pool) =
        w.chain.units (rest.map fun p => p.config.pool) := units_congr hAlike.rate _
    rw [hUnits] at hRest
    exact hFirst.trans hRest

end Router

end Treasury
