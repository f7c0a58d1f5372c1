import Treasury.Proofs.Fails
import Treasury.Proofs.Intake
import Treasury.Proofs.LegSwaps
import Treasury.Proofs.Snapshots

/-! Legs in another order. The pools that a solver names are looked up in any order alike, what is
computed of them are sums, and what is done with one can be swapped with what is done with another.
So a solver's call comes to the same in whatever order its legs stand. -/
namespace Treasury

open Exec Chain

theorem Amount.sum_perm {as bs : List Amount} {n : Amount} (hPerm : as.Perm bs)
    (h : Amount.sum as = .ok n) : Amount.sum bs = .ok n := by
  rw [sum_eq_ok] at h ⊢
  rw [← hPerm.sum_nat]
  exact h

/-- Two amounts can be added in either order. -/
theorem Amount.add_swap {start x y first total : Amount} (h : Amount.add start x = .ok first)
    (h' : Amount.add first y = .ok total) :
    ∃ first', Amount.add start y = .ok first' ∧ Amount.add first' x = .ok total := by
  obtain ⟨-, rfl⟩ := Amount.add_eq_ok.1 h
  obtain ⟨hRange, rfl⟩ := Amount.add_eq_ok.1 h'
  rw [Nat.add_right_comm] at hRange ⊢
  exact ⟨_, Amount.add_eq_ok.2 ⟨Nat.lt_of_le_of_lt (Nat.le_add_right _ _) hRange, rfl⟩,
    Amount.add_eq_ok.2 ⟨hRange, rfl⟩⟩

namespace Router

/-- What a leg is resolved to: its amount, with the config of a pool that may be used. -/
structure Names (registry : Pool.Registry) (direction : Direction) (leg : Pool.Leg) (part : Part) :
    Prop where
  amount : part.amount = leg.amount
  config : registry.require leg.pool = .ok part.config
  status : direction.require part.config.status = .ok ()

variable {registry : Pool.Registry} {direction : Direction} {legs legs' : List Pool.Leg}
  {parts : List Part}

theorem resolve_eq_ok {seen : List Address} : resolve registry direction seen legs = .ok parts ↔
    (∀ leg ∈ legs, leg.amount ≠ 0 ∧ leg.pool ∉ seen) ∧ (legs.map Pool.Leg.pool).Nodup ∧
      List.Forall₂ (Names registry direction) legs parts := by
  induction legs generalizing seen parts with
  | nil =>
    constructor
    · rintro ⟨⟩
      exact ⟨by simp, by simp, .nil⟩
    · rintro ⟨-, -, ⟨⟩⟩
      rfl
  | cons leg rest ih =>
    rw [List.forall_mem_cons]
    simp only [resolve, Result.bind_eq_ok, ensure_eq_ok, ih, List.map_cons, List.nodup_cons,
      List.mem_cons, not_or, List.mem_map]
    constructor
    · rintro ⟨_, hSome, _, hNew, config, hConfig, _, hStatus, tail, ⟨hRest, hApart, hTail⟩, ⟨⟩⟩
      refine ⟨⟨⟨hSome, hNew⟩, fun each hEach => ⟨(hRest each hEach).1, (hRest each hEach).2.2⟩⟩,
        ⟨?_, hApart⟩, .cons ⟨rfl, hConfig, hStatus⟩ hTail⟩
      rintro ⟨each, hEach, hSame⟩
      exact (hRest each hEach).2.1 hSame
    · rintro ⟨⟨⟨hSome, hNew⟩, hRest⟩, ⟨hFirst, hApart⟩, hNames⟩
      obtain ⟨part, tail, ⟨hAmount, hConfig, hStatus⟩, hTail, rfl⟩ :=
        List.forall₂_cons_left_iff.1 hNames
      refine ⟨(), hSome, (), hNew, part.config, hConfig, (), hStatus, tail,
        ⟨fun each hEach => ⟨(hRest each hEach).1, ?_, (hRest each hEach).2⟩, hApart, hTail⟩, ?_⟩
      · exact fun hSame => hFirst ⟨each, hEach, hSame⟩
      · rw [← hAmount]
        rfl

theorem resolveAll_perm (hPerm : legs.Perm legs')
    (h : resolveAll registry direction legs = .ok parts) :
    ∃ parts', parts.Perm parts' ∧ resolveAll registry direction legs' = .ok parts' := by
  simp only [resolveAll, Result.bind_eq_ok, ensure_eq_ok, resolve_eq_ok] at h ⊢
  obtain ⟨_, hSome, hEach, hApart, hNames⟩ := h
  obtain ⟨parts', hNames', hPerm'⟩ := List.perm_comp_forall₂ hPerm.symm hNames
  exact ⟨parts', hPerm'.symm, (), fun hNone => hSome (hNone ▸ hPerm).eq_nil,
    fun leg hLeg => hEach leg (hPerm.mem_iff.2 hLeg), (hPerm.map _).nodup hApart, hNames'⟩

/-- Legs that are resolved have different pools. -/
theorem resolveAll_apart (hSound : registry.Sound)
    (h : resolveAll registry direction legs = .ok parts) :
    parts.Pairwise fun a b => a.config.pool ≠ b.config.pool := by
  obtain ⟨hSame, -⟩ := resolveAll_spec hSound h
  simp only [resolveAll, Result.bind_eq_ok, ensure_eq_ok, resolve_eq_ok] at h
  obtain ⟨_, _, -, hApart, -⟩ := h
  rw [← hSame, List.map_map] at hApart
  exact List.pairwise_map.1 hApart

open Wiring (Stands)

variable {w : Wiring} {c c' : Chain} {s : State} {q : Custody} {f : Frame} {back : Callback}
  [back.Adds] {purchases purchases' : List Purchase} {least most : Amount}
  {receiver owner : Address}

theorem ends_pullStable {n : Amount} {u : Unit} {es : List (Address × Event)} :
    Ends (pullStable f owner n) c u c' es ↔ ∃ s t, c.contract? f.self = some (.router s) ∧
      s.stable = some t ∧ c.Moves t (.transferFrom f.self owner f.self n) c' ∧ [] = es := by
  simp only [pullStable, ends_view_bind, ends_result_bind, Token.ends_transferFrom, View.load_eq_ok,
    known_eq_ok]
  constructor
  · rintro ⟨s, hs, t, ht, hMove, hEs⟩
    exact ⟨s, t, hs, ht, hMove, hEs⟩
  · rintro ⟨s, t, hs, ht, hMove, hEs⟩
    exact ⟨s, hs, t, ht, hMove, hEs⟩

theorem ends_pullStable_bind {α : Type} {g : Unit → Exec α} [hg : Additive (g ())] {n : Amount}
    {b : α} {es : List (Address × Event)} :
    Ends (pullStable f owner n >>= g) c b c' es ↔ ∃ s t c₁, c.contract? f.self = some (.router s) ∧
      s.stable = some t ∧ c.Moves t (.transferFrom f.self owner f.self n) c₁ ∧
      Ends (g ()) c₁ b c' es := by
  simp only [pullStable, bind_assoc, ends_view_bind, ends_result_bind, Token.ends_transferFrom_bind,
    View.load_eq_ok, known_eq_ok]
  constructor
  · rintro ⟨s, hs, t, ht, c₁, hMove, hRest⟩
    exact ⟨s, t, c₁, hs, ht, hMove, hRest⟩
  · rintro ⟨s, t, c₁, hs, ht, hMove, hRest⟩
    exact ⟨s, hs, t, ht, c₁, hMove, hRest⟩

theorem reorders_solverDeposit (h : w.Stands c s q) (hSelf : f.self = w.router)
    (hPerm : purchases.Perm purchases')
    (hKnown : ∀ p ∈ purchases, q.supports p.config.pool = true ∧ p.config.adapter = p.config.pool)
    (hApart : purchases.Pairwise fun a b => a.config.pool ≠ b.config.pool) :
    Reorders (solverDeposit back f s purchases least receiver)
      (solverDeposit back f s purchases' least receiver) c := by
  unfold solverDeposit
  rw [← hPerm.length_eq]
  refine .results_bind fun total hTotal => ⟨total, Amount.sum_perm (hPerm.map _) hTotal, ?_⟩
  refine .result_bind fun _ _ => .view_bind fun _ _ => .result_bind fun token _ =>
    .view_bind fun shares _ => .result_bind fun _ _ => .result_bind fun _ _ =>
    .bind_right fun _ c₁ _ hPull => ?_
  have h₁ : w.Stands c₁ s q := by
    obtain ⟨_, t, -, -, hMove, -⟩ := ends_pullStable.1 hPull
    exact h.moves hMove (by simp)
  refine Reorders.bind ?_ fun _ c₂ _ _ => .refl _ c₂
  refine reorders_forM (I := (w.Stands · s q)) hPerm (fun p hp c u c' es hStands => ?_) ?_ ?_
    hApart h₁
  · exact stands_of_purchase hSelf hStands (hKnown p hp).2 (hKnown p hp).1
  · intro a ha b hb hPools
    exact canFollow_purchase hSelf (hKnown a ha).2 (hKnown a ha).1 (hKnown b hb).2 (hKnown b hb).1
      hPools
  · exact fun a b => Ne.symm

/-- The purchases of a call that names pool shares are made of its parts in their order. -/
theorem purchasesOfShares_perm {parts parts' : List Part} (hPerm : parts.Perm parts')
    (h : purchasesOfShares parts c = .ok purchases) :
    ∃ purchases', purchases.Perm purchases' ∧ purchasesOfShares parts' c = .ok purchases' := by
  rw [purchasesOfShares, View.mapM_eq_ok] at h
  obtain ⟨purchases', hAll, hPerm'⟩ := List.perm_comp_forall₂ hPerm.symm h
  exact ⟨purchases', hPerm'.symm, View.mapM_eq_ok.2 hAll⟩

section Deposits

variable (h : w.Stands c s q) (hSelf : f.self = w.router) (hLegs : legs.Perm legs')

include h

/-- What a call that takes legs for deposits buys of, counts as value. -/
theorem Stands.of_purchases {purchases : List Purchase}
    (hParts : resolveAll s.registry .deposit legs = .ok parts)
    (hConfigs : purchases.map Purchase.config = parts.map Part.config) :
    (∀ p ∈ purchases, q.supports p.config.pool = true ∧ p.config.adapter = p.config.pool) ∧
      purchases.Pairwise fun a b => a.config.pool ≠ b.config.pool := by
  obtain ⟨-, hKnown⟩ := resolveAll_spec h.agree.registry hParts
  constructor
  · intro p hp
    have hMem : p.config ∈ parts.map Part.config := hConfigs ▸ List.mem_map_of_mem hp
    obtain ⟨part, hPart, hSame⟩ := List.mem_map.1 hMem
    obtain ⟨hGet, hStatus⟩ := hKnown part hPart
    rw [← hSame]
    have hCounts := h.counts hGet (ensure_eq_ok.1 hStatus)
    exact ⟨hCounts, h.adapter_eq hGet hCounts⟩
  · have hApart : (parts.map Part.config).Pairwise fun a b => a.pool ≠ b.pool :=
      List.pairwise_map.2 (resolveAll_apart h.agree.registry hParts)
    rwa [← hConfigs, List.pairwise_map] at hApart

include hSelf hLegs

theorem reorders_solverDepositByAssets :
    Reorders (solverDepositByAssets back f legs least receiver)
      (solverDepositByAssets back f legs' least receiver) c := by
  unfold solverDepositByAssets
  refine .guarded fun s' hs' => .result_bind fun _ _ => .result_bind fun _ _ =>
    .results_bind fun parts hParts => ?_
  obtain ⟨parts', hPerm, hParts'⟩ := resolveAll_perm hLegs hParts
  obtain rfl : s = s' := storage_unique h.router (hSelf ▸ hs')
  have hConfigs : (purchasesOfAssets parts).map Purchase.config = parts.map Part.config := by
    rw [purchasesOfAssets, List.map_map]
    rfl
  obtain ⟨hKnown, hApart⟩ := Stands.of_purchases h hParts hConfigs
  exact ⟨parts', hParts', reorders_solverDeposit h hSelf (hPerm.map _) hKnown hApart⟩

theorem reorders_solverDepositByShares :
    Reorders (solverDepositByShares back f legs least receiver)
      (solverDepositByShares back f legs' least receiver) c := by
  unfold solverDepositByShares
  refine .guarded fun s' hs' => .result_bind fun _ _ => .result_bind fun _ _ =>
    .results_bind fun parts hParts => ?_
  obtain ⟨parts', hPerm, hParts'⟩ := resolveAll_perm hLegs hParts
  obtain rfl : s = s' := storage_unique h.router (hSelf ▸ hs')
  refine ⟨parts', hParts', .views_bind fun purchases hPurchases => ?_⟩
  obtain ⟨purchases', hPerm', hPurchases'⟩ := purchasesOfShares_perm hPerm hPurchases
  obtain ⟨hKnown, hApart⟩ := Stands.of_purchases h hParts (purchasesOfShares_spec hPurchases)
  exact ⟨purchases', hPurchases', reorders_solverDeposit h hSelf hPerm' hKnown hApart⟩

end Deposits

section Withdrawals

/-- Withdrawals from different pools can be made in any order, and what is received is the same. -/
theorem reorders_withdrawals {withdraw : Part → Exec Amount} [∀ part, Additive (withdraw part)]
    {parts parts' : List Part} (h : w.Stands c s q) (hPerm : parts.Perm parts')
    (hKept : ∀ part ∈ parts, ∀ c m c' es, w.Stands c s q → Ends (withdraw part) c m c' es →
      w.Stands c' s q)
    (hFollow : ∀ a ∈ parts, ∀ b ∈ parts, a.config.pool ≠ b.config.pool →
      CanFollow (w.Stands · s q) (withdraw a) (withdraw b))
    (hApart : parts.Pairwise fun a b => a.config.pool ≠ b.config.pool) :
    Reorders (parts.foldlM (fun received part => do Amount.add received (← withdraw part)) 0)
      (parts'.foldlM (fun received part => do Amount.add received (← withdraw part)) 0) c :=
  reorders_foldlM (g := Amount.add) hPerm (fun _ _ _ _ _ => Amount.add_swap) hKept hFollow
    (fun _ _ => Ne.symm) hApart 0 h

variable (h : w.Stands c s q) (hSelf : f.self = w.router) (hLegs : legs.Perm legs')

include h hSelf hLegs

set_option synthInstance.maxSize 512 in
theorem reorders_solverWithdrawByAssets :
    Reorders (solverWithdrawByAssets f legs most receiver owner)
      (solverWithdrawByAssets f legs' most receiver owner) c := by
  unfold solverWithdrawByAssets
  rw [← hLegs.length_eq]
  refine .guarded fun s' hs' => .result_bind fun _ _ => .result_bind fun _ _ =>
    .results_bind fun parts hParts => ?_
  obtain ⟨parts', hPerm, hParts'⟩ := resolveAll_perm hLegs hParts
  obtain rfl : s = s' := storage_unique h.router (hSelf ▸ hs')
  obtain ⟨-, hKnown⟩ := resolveAll_spec h.agree.registry hParts
  have hAdapter : ∀ part ∈ parts, q.supports part.config.pool = true →
      part.config.adapter = part.config.pool := fun part hp => h.adapter_eq (hKnown part hp).1
  refine ⟨parts', hParts', .results_bind fun gross hGross =>
    ⟨gross, Amount.sum_perm (hPerm.map _) hGross,
      .result_bind fun token _ => .view_bind fun shares _ =>
    .result_bind fun _ _ => Reorders.bind ?_ fun received c₁ _ _ => .refl _ c₁⟩⟩
  refine reorders_withdrawals h hPerm (fun part hp c m c' es hStands => ?_)
    (fun a ha b hb hPools => ?_) (resolveAll_apart h.agree.registry hParts)
  · exact stands_of_withdrawValue hSelf hStands (hAdapter part hp)
  · exact canFollow_withdrawValue hSelf (hAdapter a ha) (hAdapter b hb) hPools

set_option synthInstance.maxSize 512 in
theorem reorders_solverWithdrawByShares :
    Reorders (solverWithdrawByShares f legs most receiver owner)
      (solverWithdrawByShares f legs' most receiver owner) c := by
  unfold solverWithdrawByShares
  rw [← hLegs.length_eq]
  refine .guarded fun s' hs' => .result_bind fun _ _ => .result_bind fun _ _ =>
    .results_bind fun parts hParts => ?_
  obtain ⟨parts', hPerm, hParts'⟩ := resolveAll_perm hLegs hParts
  obtain rfl : s = s' := storage_unique h.router (hSelf ▸ hs')
  obtain ⟨-, hKnown⟩ := resolveAll_spec h.agree.registry hParts
  have hAdapter : ∀ part ∈ parts, q.supports part.config.pool = true →
      part.config.adapter = part.config.pool := fun part hp => h.adapter_eq (hKnown part hp).1
  refine ⟨parts', hParts', Reorders.bind ?_ fun gross c₁ es hGross => ?_⟩
  · exact reorders_foldlM (I := fun _ => True) (g := Amount.add) hPerm
      (fun _ _ _ _ _ => Amount.add_swap) (fun _ _ _ _ _ _ _ _ => trivial)
      (fun _ _ _ _ _ => canFollow_views _ _ _) (fun _ _ => Ne.symm)
      (resolveAll_apart h.agree.registry hParts) 0 trivial
  obtain ⟨-, rfl⟩ := hGross.foldlM_view
  refine .result_bind fun _ _ => .result_bind fun split _ => .result_bind fun token _ =>
    .view_bind fun shares _ => .result_bind fun _ _ => .view_bind fun net _ =>
    .result_bind fun _ _ => Reorders.bind ?_ fun received c₁ _ _ => .refl _ c₁
  refine reorders_withdrawals h hPerm (fun part hp c m c' es hStands => ?_)
    (fun a ha b hb hPools => ?_) (resolveAll_apart h.agree.registry hParts)
  · exact stands_of_withdrawShares hSelf hStands (hAdapter part hp)
  · exact canFollow_withdrawShares hSelf (hAdapter a ha) (hAdapter b hb) hPools

end Withdrawals

end Router

instance Chain.adds_callback (c : Chain) : c.callback.Adds :=
  Router.adds_nested c.contracts.length

/-- Two calls of a solver that name the same legs, maybe in another order. -/
inductive Router.Command.Reordered : Command → Command → Prop where
  | depositByAssets {legs legs' : List Pool.Leg} (h : legs.Perm legs') (least : Amount)
      (receiver : Address) :
      Reordered (.solverDepositByAssets legs least receiver)
        (.solverDepositByAssets legs' least receiver)
  | depositByShares {legs legs' : List Pool.Leg} (h : legs.Perm legs') (least : Amount)
      (receiver : Address) :
      Reordered (.solverDepositByShares legs least receiver)
        (.solverDepositByShares legs' least receiver)
  | withdrawByAssets {legs legs' : List Pool.Leg} (h : legs.Perm legs') (most : Amount)
      (receiver owner : Address) :
      Reordered (.solverWithdrawByAssets legs most receiver owner)
        (.solverWithdrawByAssets legs' most receiver owner)
  | withdrawByShares {legs legs' : List Pool.Leg} (h : legs.Perm legs') (most : Amount)
      (receiver owner : Address) :
      Reordered (.solverWithdrawByShares legs most receiver owner)
        (.solverWithdrawByShares legs' most receiver owner)

/-- Two calls come to the same: they give the same answer, leave the same chain and make the same
announcements in any order, or both are refused. -/
def Outcome.Same : Result Outcome → Result Outcome → Prop
  | .ok out, .ok out' =>
    out'.answer = out.answer ∧ out'.chain = out.chain ∧ out'.events.Perm out.events
  | .error _, .error _ => True
  | _, _ => False

namespace Router.Command

variable {w : Wiring} {c : Chain} {s : Router.State} {q : Custody} {back : Callback} [back.Adds]
  {f : Frame} {command command' : Command}

theorem Reordered.symm (h : command.Reordered command') : command'.Reordered command := by
  cases h with
  | depositByAssets h => exact .depositByAssets h.symm _ _
  | depositByShares h => exact .depositByShares h.symm _ _
  | withdrawByAssets h => exact .withdrawByAssets h.symm _ _ _
  | withdrawByShares h => exact .withdrawByShares h.symm _ _ _

theorem Reordered.reorders (hReordered : command.Reordered command') (h : w.Stands c s q)
    (hSelf : f.self = w.router) : Reorders (run back f command) (run back f command') c := by
  cases hReordered with
  | depositByAssets hLegs => exact (reorders_solverDepositByAssets h hSelf hLegs).map _
  | depositByShares hLegs => exact (reorders_solverDepositByShares h hSelf hLegs).map _
  | withdrawByAssets hLegs => exact (reorders_solverWithdrawByAssets h hSelf hLegs).map _
  | withdrawByShares hLegs =>
    exact (reorders_solverWithdrawByShares h hSelf hLegs).bind fun _ c₁ _ _ => .refl _ c₁

end Router.Command

/-- With fixed-rate pools, a solver's call comes to the same in whatever order its legs stand. -/
theorem WiredRun.leg_order_irrelevant {w : Wiring} {c : Chain} (hRun : WiredRun w c)
    (hComplete : w.Complete c) (hPools : w.FixedRatePools c) {caller : Digest}
    {command command' : Router.Command} (hReordered : command.Reordered command') :
    Outcome.Same (c.submit (.account caller) w.router (.router command))
      (c.submit (.account caller) w.router (.router command')) := by
  obtain ⟨s, q, hStands⟩ := hRun.stands hComplete hPools
  have hOne : ∀ {command command' : Router.Command} {out : Outcome},
      command.Reordered command' →
      c.submit (.account caller) w.router (.router command) = .ok out →
      ∃ out', c.submit (.account caller) w.router (.router command') = .ok out' ∧
        out'.answer = out.answer ∧ out'.chain = out.chain ∧ out'.events.Perm out.events := by
    intro command command' out hReordered hCall
    obtain ⟨es', hPerm, hEnds⟩ := hReordered.reorders (f := ⟨w.router, .account caller, []⟩) hStands
      rfl _ _ _ (ends_of_submit hCall)
    have hEnds' : Ends (Command.run c.callback w.router (.account caller) (.router command')) c
        out.answer out.chain es' := hEnds
    obtain ⟨marks, hCall'⟩ := submit_of_ends hEnds'
    exact ⟨_, hCall', rfl, rfl, hPerm⟩
  cases hCall : c.submit (.account caller) w.router (.router command) with
  | ok out =>
    obtain ⟨out', hCall', hSame⟩ := hOne hReordered hCall
    rw [hCall']
    exact hSame
  | error e =>
    cases hCall' : c.submit (.account caller) w.router (.router command') with
    | ok out' =>
      obtain ⟨out, hOk, -⟩ := hOne hReordered.symm hCall'
      rw [hCall] at hOk
      cases hOk
    | error e' => exact trivial

/-- Of 60 in a pool at a rate of 1.5 and 40 in one at a rate of 1, a solver withdraws 15 and 20, and
the legs are turned round. -/
theorem WiredRun.leg_order_irrelevant_turned : ∃ c out out',
    WiredRun Standard.places c ∧ Standard.places.Complete c ∧
      Standard.places.FixedRatePools c ∧
      c.submit (.account 1) Standard.router (.router (.solverWithdrawByAssets
        [⟨Standard.pool, 15⟩, ⟨.ofNumber 6, 20⟩] 100 (.account 2) (.account 1))) = .ok out ∧
      c.submit (.account 1) Standard.router (.router (.solverWithdrawByAssets
        [⟨.ofNumber 6, 20⟩, ⟨Standard.pool, 15⟩] 100 (.account 2) (.account 1))) = .ok out' ∧
      out.answer = .amount 35 ∧ out'.answer = .amount 35 ∧ out'.chain = out.chain ∧
      out'.events.Perm out.events := by
  have hEnd : (Standard.places.follow {} (Standard.pooled 0 1
      { admin := .account 0 } 1_500_000_000_000_000_000 100 ++
      [.call 0 Standard.router (.router (.updatePoolTarget Standard.pool 500_000)),
        .deploy 0 (.fixedRate (.account 0) Standard.stable Standard.custody rateScale),
        .call 0 Standard.router (.router (.registerAdapter (.ofNumber 6) (.ofNumber 6))),
        .call 0 Standard.router (.router (.addPool (.ofNumber 6) 500_000)),
        .call 0 Standard.router (.router (.grantRole Roles.solver (.account 1))),
        .call 1 Standard.router (.router (.solverDepositByAssets
          [⟨Standard.pool, 60⟩, ⟨.ofNumber 6, 40⟩] 0 (.account 1)))])).any (fun c =>
      Standard.places.completes c && (c.submit (.account 1) Standard.router (.router
        (.solverWithdrawByAssets [⟨Standard.pool, 15⟩, ⟨.ofNumber 6, 20⟩] 100 (.account 2)
          (.account 1)))).toOption.any fun out => decide (Standard.places.FixedRatePools c) &&
            out.answer.amount? == some 35) = true := by decide +kernel
  obtain ⟨c, out, hRun, hComplete, hCall, hHolds⟩ := Wiring.exists_submit hEnd
  simp only [Bool.and_eq_true, decide_eq_true_eq, beq_iff_eq] at hHolds
  obtain ⟨hPools, hAnswer⟩ := hHolds
  have hNet := Answer.of_amount? hAnswer
  have hTurned : Router.Command.Reordered
      (.solverWithdrawByAssets [⟨Standard.pool, 15⟩, ⟨.ofNumber 6, 20⟩] 100 (.account 2)
        (.account 1))
      (.solverWithdrawByAssets [⟨.ofNumber 6, 20⟩, ⟨Standard.pool, 15⟩] 100 (.account 2)
        (.account 1)) := .withdrawByAssets (.swap _ _ _) _ _ _
  have hSame : Outcome.Same (c.submit (.account 1) Standard.router _)
      (c.submit (.account 1) Standard.router _) :=
    leg_order_irrelevant hRun hComplete hPools hTurned
  rw [hCall] at hSame
  cases hCall' : c.submit (.account 1) Standard.router (.router (.solverWithdrawByAssets
      [⟨.ofNumber 6, 20⟩, ⟨Standard.pool, 15⟩] 100 (.account 2) (.account 1))) with
  | ok out' =>
    rw [hCall'] at hSame
    exact ⟨c, out, out', hRun, hComplete, hPools, hCall, hCall', hNet, hSame.1.trans hNet, hSame.2⟩
  | error e =>
    rw [hCall'] at hSame
    exact hSame.elim

end Treasury
