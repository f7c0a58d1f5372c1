import Treasury.Proofs.AgreementRun

/-! What a router registers and what its custody contract counts. The two keep lists of their own,
which are changed by different calls. They match all along a run in which the custody contract has
been pointed at that router only. -/
namespace Treasury

open Exec Chain

namespace Bond

/-- A chain on which a router and its custody contract are pointed at nobody else, and every adapter
has been set up when it was deployed. -/
structure Wired (b : Bond) (c : Chain) : Prop extends b.Kept c where
  adapters : ∀ x ∈ c.blank, c.kind? x ≠ some .fixedRate ∧ c.kind? x ≠ some .synthetic ∧
    c.kind? x ≠ some .wrapped

variable {b : Bond} {c : Chain} {s : Router.State} {q : Custody}

/-- A router's registry and its custody contract match. What counts as value is registered with the
adapter that it is bound to, and whatever is registered and not suspended counts as value; a
registered pool is bound to the adapter of its config or to none, each adapter serves the pool that
it is bound to, and the list of what counts is complete and has nothing twice. -/
theorem registry_matches_custody (hRun : Run Address.IsAccount b.Wired c)
    (hs : c.contract? b.router = some (.router s))
    (hq : c.contract? b.custody = some (.custody q)) :
    (∀ pool, Custody.isSupported b.custody pool c = .ok true →
      ∃ config, s.registry.get? pool = some config ∧
        Custody.boundAdapter b.custody pool c = .ok (some config.adapter)) ∧
    (∀ pool config, s.registry.get? pool = some config →
      config.status = .active ∨ config.status = .impaired →
        Custody.isSupported b.custody pool c = .ok true) ∧
    (∀ pool config adapter, s.registry.get? pool = some config →
      Custody.boundAdapter b.custody pool c = .ok (some adapter) → adapter = config.adapter) ∧
    (∀ pool adapter, Custody.boundAdapter b.custody pool c = .ok (some adapter) →
      Strategy.poolId adapter c = .ok pool) ∧
    ∃ pools, (∀ user, c.ask user b.custody .supportedPools = .ok (.listOf .address pools)) ∧
      pools.Nodup ∧ ∀ pool, pool ∈ pools ↔ Custody.isSupported b.custody pool c = .ok true := by
  have hAgree := Bond.agree hRun (fun c hWired => hWired.toKept) hs hq
  simp only [Custody.isSupported_eq hq, Custody.boundAdapter_eq hq, Except.ok.injEq]
  refine ⟨hAgree.counted, fun pool config hGet hLive => ?_, fun pool config x hGet hx => ?_,
    fun pool x hx => ?_, q.supported.toList, fun user => ?_, hAgree.supported.nodup_toList,
    fun pool => hAgree.supported.mem_toList⟩
  · refine hAgree.live pool config hGet fun hSuspended => ?_
    rcases hLive with hActive | hImpaired
    · simp [hSuspended] at hActive
    · simp [hSuspended] at hImpaired
  · exact hAgree.bound pool config x hGet hx
  · rcases hAgree.served pool x hx with hPool | ⟨hIn, hWrapped, -⟩
    · exact Strategy.poolId_eq_ok.2 hPool
    · exact absurd hWrapped (hRun.kept.adapters x hIn).2.2
  · rw [Chain.ask, Query.ask, Query.field, View.bind_apply, View.callee_eq_ok.2 hq]
    rfl

end Bond

/-- In a wired run in which nothing is left blank, router and custody contract are wired. -/
theorem WiredRun.bonded {w : Wiring} {c : Chain} (h : WiredRun w c) (hBlank : c.blank = []) :
    Run Address.IsAccount w.bond.Wired c := by
  have hWired : ∀ {c}, WiredRun w c → c.blank = [] → w.bond.Wired c := fun hRun hNone =>
    ⟨hRun.kept.bond, by simp [hNone]⟩
  induction h with
  | start => exact .start (hWired .start rfl)
  | step hRun hAction hKept ih =>
    obtain ⟨d, hLeads⟩ := Action.leads hAction
    -- What is blank stays so, so nothing was blank before.
    have hBefore := List.eq_nil_iff_forall_not_mem.2 fun a ha =>
      List.not_mem_nil (hBlank ▸ hLeads.advances.blank ha)
    exact .step (ih hBefore) ⟨d, rfl⟩ hLeads (hWired (.step hRun hAction hKept) hBlank)

/-- In a standard treasury with one pool, the pool is registered and counts as value. -/
theorem Bond.registry_matches_custody_pooled : ∃ c s q config,
    Run Address.IsAccount Standard.places.bond.Wired c ∧
      c.contract? Standard.router = some (.router s) ∧
      c.contract? Standard.custody = some (.custody q) ∧
      Custody.isSupported Standard.custody Standard.pool c = .ok true ∧
      s.registry.get? Standard.pool = some config ∧
      Custody.boundAdapter Standard.custody Standard.pool c = .ok (some config.adapter) ∧
      Strategy.poolId config.adapter c = .ok Standard.pool := by
  have hEnd : (Standard.places.follow {} (Standard.pooled 0 1 { admin := .account 0 } rateScale
      100)).any (fun c => Standard.places.completes c && (c.blank.isEmpty &&
        (Custody.isSupported Standard.custody Standard.pool c).toOption == some true)) = true := by
    decide +kernel
  obtain ⟨c, hRun, hComplete, hHolds⟩ := Wiring.exists_reached hEnd
  simp only [Bool.and_eq_true, List.isEmpty_iff, beq_iff_eq] at hHolds
  obtain ⟨s, hs, -⟩ := hComplete.router
  obtain ⟨q, hq, -⟩ := hComplete.custody
  have hBonded := hRun.bonded hHolds.1
  have hSupported := Result.of_toOption hHolds.2
  obtain ⟨hCounted, -, -, hServed, -⟩ := Bond.registry_matches_custody hBonded hs hq
  obtain ⟨config, hGet, hBound⟩ := hCounted _ hSupported
  exact ⟨c, s, q, config, hBonded, hs, hq, hSupported, hGet, hBound, hServed _ _ hBound⟩

end Treasury
