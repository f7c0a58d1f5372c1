import Treasury.Proofs.Additive
import Treasury.Proofs.Fails
import Treasury.Proofs.Governed
import Treasury.Proofs.TargetTables

/-! Replacing all targets at once. Whatever anybody does, the registry of a router is in good order,
so it is a list of configs; a table of targets is let through if it names each of them, and then each
gets its target and stays where it is, in whatever order the table names them. -/
namespace Treasury

open Exec Chain
open Pool (Target Config)
open Router (Replaces Retargeted)

variable {c c' : Chain} {a caller : Address} {s : Router.State} {targets : List Target}
  {f : Router.Frame} {u : Unit} {es : List (Address × Event)} {answer : Answer}

theorem Router.ends_replacePoolTargets :
    Ends (replacePoolTargets f targets) c u c' es ↔
      ∃ s, c.contract? f.self = some (.router s) ∧ f.self ∉ f.locked ∧
        s.roles.has Roles.admin f.caller = true ∧ targets.length = s.registry.size ∧
        ∃ configs, retarget s.registry [] targets = .ok configs ∧
          Target.total targets = weightScale ∧
          ∃ registry, configs.foldlM Pool.Registry.update s.registry = .ok registry ∧
            c.put f.self (.router { s with registry }) = c' ∧
            [(f.self, .targetsReplaced targets.length)] = es := by
  simp only [replacePoolTargets, ends_guarded, requireAdmin, Roles.requireAdmin, Roles.requireRole,
    ends_result_bind, ensure_eq_ok, exists_const, store, ends_put_bind, ends_emit]

/-- A call that replaces all targets, made to a router whose registry is in good order. -/
theorem Command.ends_replacePoolTargets {back : Router.Callback}
    (hs : c.contract? a = some (.router s)) (hSound : s.registry.Sound) :
    Ends ((router (.replacePoolTargets targets)).run back a caller) c answer c' es ↔
      s.roles.has Roles.admin caller = true ∧ Replaces s.registry.toList targets ∧
        ∃ registry, (targets.map (Router.aimed s.registry)).foldlM Pool.Registry.update
            s.registry = .ok registry ∧
          .unit = answer ∧ c.put a (.router { s with registry }) = c' ∧
          [(a, .targetsReplaced targets.length)] = es := by
  simp only [run, Router.run, ends_bind, ends_pure]
  constructor
  · rintro ⟨_, c₁, es₁, es₂, hEnds, ⟨hAnswer, rfl, rfl⟩, rfl⟩
    obtain ⟨t, ht, -, hAdmin, hLength, configs, hConfigs, hWhole, registry, hFold, rfl, rfl⟩ :=
      Router.ends_replacePoolTargets.1 hEnds
    cases ht.symm.trans hs
    obtain ⟨hReplaces, rfl⟩ :=
      Router.replaces_of_retarget hSound.lists hLength hConfigs hWhole
    exact ⟨hAdmin, hReplaces, registry, hFold, hAnswer, rfl, (List.append_nil _).symm⟩
  · rintro ⟨hAdmin, hReplaces, registry, hFold, hAnswer, rfl, rfl⟩
    obtain ⟨hLength, hConfigs⟩ := hReplaces.retarget hSound.lists
    have hWhole : Target.total targets = weightScale :=
      (Router.total_eq_sum targets).trans hReplaces.whole
    refine ⟨(), _, _, [], Router.ends_replacePoolTargets.2 ⟨s, hs, List.not_mem_nil, hAdmin,
      hLength, _, hConfigs, hWhole, registry, hFold, rfl, rfl⟩, ⟨hAnswer, rfl, rfl⟩,
      List.append_nil _⟩

/-- A table that replaces all targets is let through if an admin brings it. -/
theorem Chain.submit_replaces {registry : Pool.Registry} (hs : c.contract? a = some (.router s))
    (hSound : s.registry.Sound) (hAdmin : s.roles.has Roles.admin caller = true)
    (hReplaces : Replaces s.registry.toList targets)
    (hFold : (targets.map (Router.aimed s.registry)).foldlM Pool.Registry.update s.registry =
      .ok registry) :
    ∃ marks, c.submit caller a (.router (.replacePoolTargets targets)) =
      .ok ⟨.unit, c.put a (.router { s with registry }),
        [(a, .targetsReplaced targets.length)], marks⟩ := by
  apply submit_of_ends
  exact (Command.ends_replacePoolTargets hs hSound).2
    ⟨hAdmin, hReplaces, registry, hFold, rfl, rfl, rfl⟩

/-- All targets of a router that was set up when it was deployed can be replaced at once, by an
admin and by nobody else, by a table that names each registered pool once, gives a target to active
pools only and makes up the whole, and by no other table. Then each pool has its target and is
otherwise what and where it was, in whatever order the table names them; and a call that is refused
changes nothing. -/
theorem Reachable.targets_replaced_iff (hRun : Reachable c)
    (hs : c.contract? a = some (.router s)) (hBuilt : a ∉ c.blank) (caller : Address)
    (targets : List Target) :
    ((∃ out, c.submit caller a (.router (.replacePoolTargets targets)) = .ok out) ↔
      s.roles.has Roles.admin caller = true ∧
      (targets.map Target.pool).Perm (s.registry.toList.map Config.pool) ∧
      (∀ t ∈ targets, ∀ config ∈ s.registry.toList, config.pool = t.pool →
        config.status ≠ .active → t.target = 0) ∧
      (targets.map Target.target).sum = 1_000_000) ∧
    (∀ e, c.submit caller a (.router (.replacePoolTargets targets)) = .error e →
      c.after caller a (.router (.replacePoolTargets targets)) = c) ∧
    ∀ out, c.submit caller a (.router (.replacePoolTargets targets)) = .ok out →
      ∃ registry, out.chain = c.put a (.router { s with registry }) ∧
        List.Forall₂ (Retargeted targets) s.registry.toList registry.toList ∧
        ∀ targets', targets'.Perm targets →
          ∃ out', c.submit caller a (.router (.replacePoolTargets targets')) = .ok out' ∧
            out'.answer = out.answer ∧ out'.chain = out.chain ∧ out'.events = out.events := by
  have hSound := (hRun.governed hs hBuilt).sound
  refine ⟨⟨?_, ?_⟩, fun e => after_of_error, ?_⟩
  · rintro ⟨out, hCall⟩
    obtain ⟨hAdmin, hReplaces, -⟩ :=
      (Command.ends_replacePoolTargets hs hSound).1 (ends_of_submit hCall)
    exact ⟨hAdmin, hReplaces.covers, hReplaces.fits, hReplaces.whole⟩
  · rintro ⟨hAdmin, hCovers, hFits, hWhole⟩
    have hReplaces : Replaces s.registry.toList targets := ⟨hCovers, hFits, hWhole⟩
    obtain ⟨registry, hFold, -⟩ := hReplaces.retargeted hSound.lists
    obtain ⟨marks, hCall⟩ := submit_replaces hs hSound hAdmin hReplaces hFold
    exact ⟨_, hCall⟩
  · intro out hCall
    obtain ⟨hAdmin, hReplaces, registry, hFold, hAnswer, hChain, hEvents⟩ :=
      (Command.ends_replacePoolTargets hs hSound).1 (ends_of_submit hCall)
    obtain ⟨_, hFold', hRetargeted⟩ := hReplaces.retargeted hSound.lists
    cases hFold'.symm.trans hFold
    refine ⟨registry, hChain.symm, hRetargeted, fun targets' hPerm => ?_⟩
    -- The table in the other order leads to the same registry.
    have hSame := (hReplaces.foldlM_perm hSound.lists hPerm).trans hFold
    obtain ⟨marks, hCall'⟩ :=
      submit_replaces hs hSound hAdmin (hReplaces.perm hPerm) hSame
    refine ⟨_, hCall', hAnswer, hChain, ?_⟩
    rw [← hEvents, hPerm.length_eq]

/-- The admin of a treasury with two pools replaces their targets, in either order, and nobody else
does. -/
theorem Reachable.targets_replaced_iff_of_two : ∃ c s out out' e, Reachable c ∧
    c.contract? Standard.router = some (.router s) ∧ Standard.router ∉ c.blank ∧
    c.submit (.account 0) Standard.router (.router (.replacePoolTargets
      [⟨.ofNumber 6, 400_000⟩, ⟨Standard.pool, 600_000⟩])) = .ok out ∧
    c.submit (.account 0) Standard.router (.router (.replacePoolTargets
      [⟨Standard.pool, 600_000⟩, ⟨.ofNumber 6, 400_000⟩])) = .ok out' ∧
    out'.chain = out.chain ∧
    c.submit (.account 1) Standard.router (.router (.replacePoolTargets
      [⟨.ofNumber 6, 400_000⟩, ⟨Standard.pool, 600_000⟩])) = .error e := by
  have hEnd : (Standard.places.follow {} (Standard.pooled 0 1 { admin := .account 0 } rateScale
      100 ++ [.deploy 0 (.fixedRate (.account 0) Standard.stable Standard.custody rateScale),
        .call 0 Standard.router (.router (.registerAdapter (.ofNumber 6) (.ofNumber 6))),
        .call 0 Standard.router (.router (.addPool (.ofNumber 6) 0))])).any (fun c =>
      Standard.places.completes c && (c.submit (.account 0) Standard.router
        (.router (.replacePoolTargets [⟨.ofNumber 6, 400_000⟩, ⟨Standard.pool, 600_000⟩]))
          ).toOption.any fun _ =>
            !(c.routing Standard.router).roles.has Roles.admin (.account 1)) = true := by
    decide +kernel
  obtain ⟨c, out, hRun, hComplete, hCall, hHolds⟩ := Wiring.exists_submit hEnd
  obtain ⟨s, hs, -⟩ : ∃ s, c.contract? Standard.router = some (.router s) ∧ _ := hComplete.router
  have hReachable := hRun.reachable
  have hBuilt : Standard.router ∉ c.blank := hRun.kept.constructed _ (by decide)
  obtain ⟨-, -, hDone⟩ := targets_replaced_iff hReachable hs hBuilt (.account 0)
    [⟨.ofNumber 6, 400_000⟩, ⟨Standard.pool, 600_000⟩]
  obtain ⟨registry, -, -, hOrders⟩ := hDone out hCall
  obtain ⟨out', hCall', -, hChain, -⟩ := hOrders _ (.swap _ _ _)
  obtain ⟨hIff, -⟩ := targets_replaced_iff hReachable hs hBuilt (.account 1)
    [⟨.ofNumber 6, 400_000⟩, ⟨Standard.pool, 600_000⟩]
  cases hOther : c.submit (.account 1) Standard.router (.router (.replacePoolTargets
      [⟨.ofNumber 6, 400_000⟩, ⟨Standard.pool, 600_000⟩])) with
  | ok out'' =>
    rw [routing_of hs, (hIff.1 ⟨out'', hOther⟩).1] at hHolds
    cases hHolds
  | error e => exact ⟨c, s, out, out', e, hReachable, hs, hBuilt, hCall, hCall', hChain, hOther⟩

end Treasury
