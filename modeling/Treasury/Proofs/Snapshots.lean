import Mathlib.Data.List.Forall2
import Treasury.Proofs.FixedLegs

/-! What the router finds when it looks at fixed-rate pools. A probe looks at the custody contract
and at the pool, and at nothing else; so moves of the stable token and of the treasury's own shares
change no snapshot. -/
namespace Treasury

open Exec Chain

namespace View

variable {α β : Type} {c c' : Chain}

theorem mapM_congr {ask : α → View β} {as : List α} (h : ∀ a ∈ as, ask a c' = ask a c) :
    as.mapM ask c' = as.mapM ask c := by
  induction as with
  | nil => rfl
  | cons a rest ih =>
    rw [List.mapM_cons]
    refine bind_congr (h a List.mem_cons_self) fun b _ => bind_congr ?_ fun bs _ => rfl
    exact ih fun b hb => h b (List.mem_cons_of_mem _ hb)

theorem mapM_eq_ok {ask : α → View β} {as : List α} {bs : List β} :
    as.mapM ask c = .ok bs ↔ List.Forall₂ (fun a b => ask a c = .ok b) as bs := by
  induction as generalizing bs with
  | nil =>
    rw [List.mapM_nil, List.forall₂_nil_left_iff, pure_apply, Except.ok.injEq, eq_comm]
  | cons a rest ih =>
    simp only [List.mapM_cons, bind_eq_ok, pure_apply, Except.ok.injEq, ih,
      List.forall₂_cons_left_iff]
    constructor
    · rintro ⟨b, hb, bs, hbs, rfl⟩
      exact ⟨b, bs, hb, hbs, rfl⟩
    · rintro ⟨b, bs, hb, hbs, rfl⟩
      exact ⟨b, hb, bs, hbs, rfl⟩

end View

namespace Router

variable {s : State} {q : Custody} {k : Address} {c c' : Chain} {config : Pool.Config}
  {x : Strategy.FixedRate} {direction : Direction}

theorem snapshots_congr
    (h : ∀ config ∈ s.registry.toList, probe s direction config c' = probe s direction config c) :
    snapshots s direction c' = snapshots s direction c := by
  have hSurvey : survey s (probe s direction) c' = survey s (probe s direction) c :=
    View.bind_congr (View.mapM_congr h) fun _ _ => rfl
  exact View.bind_congr hSurvey fun _ _ => rfl

/-- A snapshot is taken of the registered pool at its position. -/
theorem snapshots_spec {pools : List Pool.Snapshot} {i : Nat} {found : Pool.Snapshot}
    (h : snapshots s direction c = .ok pools) (hFound : pools[i]? = some found) :
    ∃ config value weight, s.registry.toList[i]? = some config ∧
      probe s direction config c = .ok value ∧
      found = Surveyed.snapshot direction ⟨config, value, weight⟩ := by
  simp only [snapshots, survey, View.bind_eq_ok, View.pure_apply, View.lift_apply,
    Except.ok.injEq, View.mapM_eq_ok] at h
  obtain ⟨_, ⟨values, hValues, weights, -, rfl⟩, rfl⟩ := h
  simp only [List.getElem?_map, Option.map_map, Option.map_eq_some_iff] at hFound
  obtain ⟨⟨config, value, weight⟩, hZip, rfl⟩ := hFound
  obtain ⟨hConfig, hPair⟩ := List.getElem?_zip_eq_some.1 hZip
  obtain ⟨hValue, -⟩ := List.getElem?_zip_eq_some.1 hPair
  obtain ⟨hi, hConfig'⟩ := List.getElem?_eq_some_iff.1 hConfig
  obtain ⟨hj, hValue'⟩ := List.getElem?_eq_some_iff.1 hValue
  have hProbe : probe s direction s.registry.toList[i] c = .ok values[i] :=
    (List.forall₂_iff_get.1 hValues).2 i hi hj
  rw [hConfig', hValue'] at hProbe
  exact ⟨config, value, weight, hConfig, hProbe, rfl⟩

section Probe

variable (hk : s.custody = some k) (hq : c.contract? k = some (.custody q))

include hk hq

/-- A fixed-rate pool that is well is worth what the custody contract holds of it. -/
theorem probeValue_fixedRate (hx : c.contract? config.pool = some (.fixedRate x))
    (hAdapter : config.adapter = config.pool) (hBound : q.adapter? config.pool = some config.pool) :
    probeValue s config c = if x.paused then .ok none
      else some <$> Rate.assetsForShares (x.ledger.balanceOf k) x.rate := by
  have hKnown : (liftM (known s.custody) : View Address) c = .ok k := by
    rw [View.lift_apply, hk]
    rfl
  have hContract := View.contract_eq_ok.2 hx
  have hHealthy : Strategy.isHealthy config.pool c = .ok !x.paused := by
    rw [Strategy.isHealthy, View.bind_of_ok hContract]
    rfl
  have hReported : Strategy.poolId config.pool c = .ok config.pool := by
    rw [Strategy.poolId, View.bind_of_ok hContract]
    rfl
  rw [probeValue, View.bind_of_ok hKnown, View.bind_of_ok (Custody.boundAdapter_eq hq _), hAdapter,
    if_neg (not_not_intro hBound), View.bind_of_ok hHealthy]
  cases x.paused with
  | true => rfl
  | false =>
    have hWell : ¬(!false) = false := by decide
    rw [if_neg hWell, View.bind_of_ok hReported, if_neg (not_not_intro rfl),
      View.bind_of_ok (Custody.poolBalance_eq hq hx), if_neg Bool.false_ne_true]
    by_cases hNone : x.ledger.balanceOf k = 0
    · have hWorth : Rate.assetsForShares 0 x.rate = .ok 0 := by
        rw [Rate.assetsForShares, Amount.mulDiv_eq_ok, Nat.zero_mul]
        exact ⟨by decide, by decide, Nat.zero_div _⟩
      rw [hNone, hWorth, if_pos rfl]
      rfl
    · rw [if_neg hNone]
      change some <$> Strategy.valueOf config.pool config.pool (x.ledger.balanceOf k) c = _
      rw [Strategy.valueOf, View.bind_of_ok hContract]
      change some <$> (ensure (config.pool = config.pool) .invalidPool >>= fun _ => _) = _
      rw [ensure, if_pos rfl]
      rfl

/-- The custody contract and the adapter decide how a pool with a fixed-rate adapter is found. -/
theorem probe_congr (hCustody : c'.contract? k = c.contract? k)
    (hx : c.contract? config.adapter = some (.fixedRate x))
    (hAdapter : c'.contract? config.adapter = c.contract? config.adapter) :
    probe s direction config c' = probe s direction config c := by
  have hAsk : ∀ {α : Type} {f : Contract → View α}, f (.fixedRate x) c' = f (.fixedRate x) c →
      (View.contract config.adapter >>= f) c' = (View.contract config.adapter >>= f) c := by
    intro α f hSame
    rw [View.bind_of_ok (View.contract_eq_ok.2 (hAdapter.trans hx)),
      View.bind_of_ok (View.contract_eq_ok.2 hx), hSame]
  have hValue : probeValue s config c' = probeValue s config c := by
    refine View.bind_congr rfl fun k' hk' => ?_
    rw [View.lift_apply, hk] at hk'
    cases hk'
    refine View.bind_congr ?_ fun bound _ => ?_
    · rw [Custody.boundAdapter_eq hq, Custody.boundAdapter_eq (hCustody.trans hq)]
    split
    · rfl
    refine View.bind_congr (hAsk rfl) fun healthy _ => ?_
    split
    · rfl
    refine View.bind_congr (hAsk rfl) fun reported hReported => ?_
    split
    · rfl
    next hPool =>
    obtain rfl : config.adapter = reported := by
      rw [Strategy.poolId, View.bind_of_ok (View.contract_eq_ok.2 hx)] at hReported
      exact Except.ok.inj hReported
    rw [← not_not.1 hPool]
    refine View.bind_congr ?_ fun balance _ => ?_
    · rw [Custody.poolBalance_eq hq hx,
        Custody.poolBalance_eq (hCustody.trans hq) (hAdapter.trans hx)]
    split
    · rfl
    · have hWorth : Strategy.valueOf config.adapter config.adapter balance c' =
          Strategy.valueOf config.adapter config.adapter balance c := hAsk rfl
      exact congrArg (some <$> ·) hWorth
  refine View.bind_congr hValue fun value _ => ?_
  cases value with
  | none => rfl
  | some value =>
    refine View.bind_congr ?_ fun _ _ => rfl
    cases direction with
    | withdrawal => rfl
    | deposit =>
      have hQuote : Strategy.previewDeposit config.adapter (max s.dustTolerance 1) c' =
          Strategy.previewDeposit config.adapter (max s.dustTolerance 1) c := hAsk rfl
      exact View.bind_congr hQuote fun _ _ => rfl

end Probe

end Router

/-- As long as the custody contract and the fixed-rate pools stay what they are, so do the
snapshots. -/
theorem Wiring.FixedRatePools.snapshots_congr {w : Wiring} {c c' : Chain} {s : Router.State}
    {direction : Router.Direction} (hPools : w.FixedRatePools c) (hComplete : w.Complete c)
    (hs : c.contract? w.router = some (.router s))
    (hCustody : c'.contract? w.custody = c.contract? w.custody)
    (hFixed : ∀ p, c.kind? p = some .fixedRate → c'.contract? p = c.contract? p) :
    Router.snapshots s direction c' = Router.snapshots s direction c := by
  obtain ⟨-, hKeeper, -⟩ := hComplete.links hs
  obtain ⟨q, hq, -⟩ := hComplete.custody
  refine Router.snapshots_congr fun config hConfig => ?_
  have hKind : c.kind? config.adapter = some .fixedRate := by
    refine hPools config ?_
    rw [routing_of hs]
    exact hConfig
  obtain ⟨x, hx⟩ := fixedRate_of_kind hKind
  exact Router.probe_congr hKeeper hq hCustody hx (hFixed _ hKind)

/-- If one contract changes that is neither a custody contract nor a fixed-rate pool, the snapshots
stay what they are. -/
theorem Wiring.FixedRatePools.snapshots_frame {w : Wiring} {c c' : Chain} {s : Router.State}
    {direction : Router.Direction} (hPools : w.FixedRatePools c) (hComplete : w.Complete c)
    (hs : c.contract? w.router = some (.router s)) {a : Address} {x : Contract}
    (hx : c.contract? a = some x) (hKind : x.kind ≠ .custody ∧ x.kind ≠ .fixedRate)
    (hFrame : ∀ b, b ≠ a → c'.contract? b = c.contract? b) :
    Router.snapshots s direction c' = Router.snapshots s direction c := by
  obtain ⟨q, hq, -⟩ := hComplete.custody
  refine hPools.snapshots_congr hComplete hs (hFrame _ ?_) fun p hp => hFrame _ ?_
  · refine ne_of_contracts hq hx ?_
    rintro rfl
    exact hKind.1 rfl
  · rintro rfl
    rw [kind?_of_contract? hx, Option.some.injEq] at hp
    exact hKind.2 hp

end Treasury
