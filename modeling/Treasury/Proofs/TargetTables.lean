import Mathlib.Algebra.GroupWithZero.Nat
import Mathlib.Data.List.Perm.Subperm
import Treasury.Proofs.Decisions
import Treasury.Proofs.RegistryList

/-! Tables of targets. A table is as long as the registry, names no pool twice and none that is not
registered, so it names each registered pool once. The configs are replaced one by one and none is
replaced twice, so it does not matter in which order. -/
namespace Treasury.Router

open Pool

/-- The config of a target's pool with that target. -/
def aimed (r : Registry) (t : Target) : Config :=
  { (r.get? t.pool).getD default with target := t.target }

/-- The pool of a target is registered, and may have it. -/
def Fits (r : Registry) (t : Target) : Prop :=
  ∃ config, r.get? t.pool = some config ∧ (t.target = 0 ∨ config.status = .active)

variable {r r' mid : Registry} {l : List Config} {targets targets' : List Target}
  {configs configs' : List Config} {seen : List Address}

theorem retarget_eq_ok : retarget r seen targets = .ok configs ↔
    (targets.map Target.pool).Nodup ∧ (∀ t ∈ targets, t.pool ∉ seen ∧ Fits r t) ∧
      configs = targets.map (aimed r) := by
  induction targets generalizing seen configs with
  | nil =>
    simp only [retarget, List.map_nil, List.nodup_nil, List.not_mem_nil, false_implies,
      implies_true, true_and]
    exact ⟨fun h => (Except.ok.inj h).symm, fun h => congrArg Except.ok h.symm⟩
  | cons t rest ih =>
    simp only [retarget, Result.bind_eq_ok, ensure_eq_ok, Registry.require_eq_ok,
      Status.acceptsDeposits_eq_true, ih, List.map_cons, List.nodup_cons, List.mem_map,
      List.mem_cons, forall_eq_or_imp, not_or]
    constructor
    · rintro ⟨_, hNew, config, hGet, _, hFits, tail, ⟨hDistinct, hRest, rfl⟩, ⟨⟩⟩
      refine ⟨⟨?_, hDistinct⟩, ⟨⟨hNew, config, hGet, hFits⟩, fun u hu =>
        ⟨(hRest u hu).1.2, (hRest u hu).2⟩⟩, ?_⟩
      · rintro ⟨u, hu, hSame⟩
        exact (hRest u hu).1.1 hSame
      · rw [aimed, hGet, Option.getD_some]
    · rintro ⟨⟨hOnce, hDistinct⟩, ⟨⟨hNew, config, hGet, hFits⟩, hRest⟩, rfl⟩
      refine ⟨(), hNew, config, hGet, (), hFits, _, ⟨hDistinct, fun u hu =>
        ⟨⟨fun hSame => hOnce ⟨u, hu, hSame⟩, (hRest u hu).1⟩, (hRest u hu).2⟩, rfl⟩, ?_⟩
      rw [aimed, hGet, Option.getD_some]
      rfl

/-- Configs of different registered pools can be replaced one after the other. Then each is at the
position of its pool, and at the other positions is what has been there before. -/
theorem foldlM_update_ok (hSound : r.Sound) (hDistinct : (configs.map Config.pool).Nodup)
    (hIn : ∀ config ∈ configs, r.contains config.pool = true) :
    ∃ r', configs.foldlM Registry.update r = .ok r' ∧ r'.roster = r.roster ∧
      (∀ config ∈ configs, ∀ i, r.index? config.pool = some i →
        r'.entries.read i = some config) ∧
      ∀ i, (∀ config ∈ configs, r.index? config.pool ≠ some i) →
        r'.entries.read i = r.entries.read i := by
  induction configs generalizing r with
  | nil => exact ⟨r, rfl, rfl, by simp, fun _ _ => rfl⟩
  | cons first rest ih =>
    rw [List.map_cons, List.nodup_cons] at hDistinct
    obtain ⟨i, hi⟩ := hSound.exists_index? (hIn first List.mem_cons_self)
    let next : Registry := { r with entries := r.entries.write i (some first) }
    have hUpdate : r.update first = .ok next := Registry.update_eq_ok.2 ⟨i, hi, rfl⟩
    -- The positions of the pools are those of `r`.
    obtain ⟨r', hFold, hRoster, hRead, hOther⟩ := ih (r := next) (hSound.update hUpdate)
      hDistinct.2 fun config hConfig => hIn config (List.mem_cons_of_mem _ hConfig)
    refine ⟨r', ?_, hRoster.trans (hSound.roster_update hUpdate), fun config hConfig j hj => ?_,
      fun j hj => ?_⟩
    · rw [List.foldlM_cons]
      exact Result.bind_eq_ok.2 ⟨next, hUpdate, hFold⟩
    · rcases List.mem_cons.1 hConfig with rfl | hRest
      · obtain rfl : i = j := Option.some.inj (hi.symm.trans hj)
        have hOnce : ∀ other ∈ rest, next.index? other.pool ≠ some i := fun other hOther hSame =>
          hDistinct.1 (hSound.index?_inj hSame hi ▸ List.mem_map_of_mem hOther)
        rw [hOther i hOnce]
        exact Table.read_write_self _ _ _
      · exact hRead config hRest j hj
    · have hNe : j ≠ i := by
        rintro rfl
        exact hj first List.mem_cons_self hi
      rw [hOther j fun config hRest => hj config (List.mem_cons_of_mem _ hRest)]
      exact Table.read_write_of_ne _ _ hNe

/-- The order in which the configs of different pools are replaced does not matter. -/
theorem foldlM_update_perm (hSound : r.Sound) (hDistinct : (configs.map Config.pool).Nodup)
    (hIn : ∀ config ∈ configs, r.contains config.pool = true) (hPerm : configs'.Perm configs) :
    configs'.foldlM Registry.update r = configs.foldlM Registry.update r := by
  have hSame : (configs'.map Config.pool).Perm (configs.map Config.pool) := hPerm.map _
  obtain ⟨s, hFold, hRoster, hRead, hOther⟩ := foldlM_update_ok hSound hDistinct hIn
  obtain ⟨s', hFold', hRoster', hRead', hOther'⟩ := foldlM_update_ok hSound
    (hSame.nodup_iff.2 hDistinct) fun config hConfig => hIn config (hPerm.mem_iff.1 hConfig)
  have hEntries : s'.entries = s.entries := by
    ext1 i
    by_cases hPlaced : ∃ config ∈ configs, r.index? config.pool = some i
    · obtain ⟨config, hConfig, hi⟩ := hPlaced
      rw [hRead config hConfig i hi, hRead' config (hPerm.mem_iff.2 hConfig) i hi]
    · have hNone : ∀ config ∈ configs, r.index? config.pool ≠ some i := fun config hConfig hi =>
        hPlaced ⟨config, hConfig, hi⟩
      rw [hOther i hNone, hOther' i fun config hConfig => hNone config (hPerm.mem_iff.1 hConfig)]
  rw [hFold, hFold', Registry.eq_of_roster (hRoster'.trans hRoster.symm) hEntries]

/-- A table that is as long as the registry, names no pool twice and none that is not registered,
names each registered pool. -/
theorem covers_iff (h : r.Lists l) :
    (targets.length = r.size ∧ (targets.map Target.pool).Nodup ∧
      ∀ t ∈ targets, t.pool ∈ l.map Config.pool) ↔
    (targets.map Target.pool).Perm (l.map Config.pool) := by
  constructor
  · rintro ⟨hLength, hDistinct, hIn⟩
    have hSubset : targets.map Target.pool ⊆ l.map Config.pool := by
      intro p hp
      obtain ⟨t, ht, rfl⟩ := List.mem_map.1 hp
      exact hIn t ht
    apply (hDistinct.subperm hSubset).perm_of_length_le (Nat.le_of_eq _)
    rw [List.length_map, List.length_map, hLength, h.size_eq]
  · intro hPerm
    refine ⟨?_, hPerm.nodup_iff.2 h.distinct, fun t ht =>
      hPerm.mem_iff.1 (List.mem_map_of_mem ht)⟩
    rw [h.size_eq, ← List.length_map (f := Target.pool), hPerm.length_eq, List.length_map]

/-- What a table has to be so that all targets are replaced: it names each registered pool once,
gives a target to active pools only, and makes up the whole. -/
structure Replaces (l : List Config) (targets : List Target) : Prop where
  covers : (targets.map Target.pool).Perm (l.map Config.pool)
  fits : ∀ t ∈ targets, ∀ config ∈ l, config.pool = t.pool → config.status ≠ .active → t.target = 0
  whole : (targets.map Target.target).sum = weightScale

theorem total_eq_sum (targets : List Target) :
    Target.total targets = (targets.map Target.target).sum := by
  rw [Target.total, List.sum, List.foldr_map]

/-- A config with its pool's target in a table, and otherwise as it was. -/
structure Retargeted (targets : List Target) (old new : Config) : Prop where
  pool : new.pool = old.pool
  adapter : new.adapter = old.adapter
  status : new.status = old.status
  target : ⟨new.pool, new.target⟩ ∈ targets

/-- A table that is let through is one that replaces all targets. -/
theorem replaces_of_retarget (h : r.Lists l) (hLength : targets.length = r.size)
    (hConfigs : retarget r [] targets = .ok configs)
    (hWhole : Target.total targets = weightScale) :
    Replaces l targets ∧ configs = targets.map (aimed r) := by
  obtain ⟨hDistinct, hFits, hSame⟩ := retarget_eq_ok.1 hConfigs
  refine ⟨⟨(covers_iff h).1 ⟨hLength, hDistinct, fun t ht => ?_⟩,
    fun t ht old hOld hPool hIdle => ?_, total_eq_sum targets ▸ hWhole⟩, hSame⟩
  · obtain ⟨-, config, hGet, -⟩ := hFits t ht
    obtain ⟨hIn, hAt⟩ := h.mem_of_get? hGet
    exact hAt ▸ List.mem_map_of_mem hIn
  · obtain ⟨-, config, hGet, hZero | hActive⟩ := hFits t ht
    · exact hZero
    · rw [← hPool, h.get?_of_mem hOld] at hGet
      cases hGet
      exact absurd hActive hIdle

namespace Replaces

theorem perm (h : Replaces l targets) (hPerm : targets'.Perm targets) : Replaces l targets' where
  covers := (hPerm.map _).trans h.covers
  fits t ht := h.fits t (hPerm.mem_iff.1 ht)
  whole := (hPerm.map _).sum_nat.trans h.whole

/-- The config of a pool that is named. -/
theorem exists_config (h : Replaces l targets) {t : Target} (ht : t ∈ targets) :
    ∃ config ∈ l, config.pool = t.pool :=
  List.mem_map.1 (h.covers.mem_iff.1 (List.mem_map_of_mem ht))

theorem aimed_eq (h : r.Lists l) {t : Target} {config : Config} (hIn : config ∈ l)
    (hPool : config.pool = t.pool) : aimed r t = { config with target := t.target } := by
  rw [aimed, ← hPool, h.get?_of_mem hIn, Option.getD_some]

/-- A table that replaces all targets is let through. -/
theorem retarget (hReplaces : Replaces l targets) (h : r.Lists l) :
    targets.length = r.size ∧ retarget r [] targets = .ok (targets.map (aimed r)) := by
  obtain ⟨hLength, hDistinct, -⟩ := (covers_iff h).2 hReplaces.covers
  refine ⟨hLength, retarget_eq_ok.2 ⟨hDistinct, fun t ht => ⟨List.not_mem_nil, ?_⟩, rfl⟩⟩
  obtain ⟨config, hIn, hPool⟩ := hReplaces.exists_config ht
  refine ⟨config, hPool ▸ h.get?_of_mem hIn, ?_⟩
  by_cases hActive : config.status = .active
  · exact .inr hActive
  · exact .inl (hReplaces.fits t ht config hIn hPool hActive)

/-- The new configs are of different pools, all of them registered. -/
theorem aimed_pools (hReplaces : Replaces l targets) (h : r.Lists l) :
    ((targets.map (aimed r)).map Config.pool).Nodup ∧
      ∀ config ∈ targets.map (aimed r), r.contains config.pool = true := by
  have hPools : (targets.map (aimed r)).map Config.pool = targets.map Target.pool := by
    rw [List.map_map]
    refine List.map_congr_left fun t ht => ?_
    obtain ⟨config, hIn, hPool⟩ := hReplaces.exists_config ht
    rw [Function.comp_apply, aimed_eq h hIn hPool]
    exact hPool
  refine ⟨hPools ▸ hReplaces.covers.nodup_iff.2 h.distinct, fun config hConfig => ?_⟩
  have hNamed := List.mem_map_of_mem (f := Config.pool) hConfig
  rw [hPools, hReplaces.covers.mem_iff] at hNamed
  exact h.contains_iff.2 hNamed

/-- All configs are replaced, each in its place. -/
theorem retargeted (hReplaces : Replaces l targets) (h : r.Lists l) :
    ∃ r', (targets.map (aimed r)).foldlM Registry.update r = .ok r' ∧
      List.Forall₂ (Retargeted targets) l r'.toList := by
  obtain ⟨hDistinct, hIn⟩ := hReplaces.aimed_pools h
  obtain ⟨r', hFold, hRoster, hRead, -⟩ := foldlM_update_ok h.sound hDistinct hIn
  refine ⟨r', hFold, ?_⟩
  have hSize : r'.size = r.size := congrArg Roster.size hRoster
  rw [← h.toList_eq, Registry.toList_eq_firsts, Registry.toList_eq_firsts, hSize]
  refine Table.forall₂_firsts fun i hi => ?_
  obtain ⟨config, hAt⟩ := h.sound.full i hi
  have hListed : l[i]? = some config := h.getElem?_eq_some.2 ⟨hi, hAt⟩
  have hPlace : r.index? config.pool = some i := h.index?_eq hListed
  have hConfig := List.mem_of_getElem? hListed
  obtain ⟨t, ht, hPool⟩ := List.mem_map.1
    (hReplaces.covers.mem_iff.2 (List.mem_map_of_mem hConfig))
  have hAimed := aimed_eq h hConfig hPool.symm
  refine ⟨config, aimed r t, hAt, hRead _ (List.mem_map_of_mem ht) i ?_, ?_⟩
  · rwa [hAimed]
  · rw [hAimed]
    exact ⟨rfl, rfl, rfl, hPool ▸ ht⟩

/-- The order of a table does not matter. -/
theorem foldlM_perm (hReplaces : Replaces l targets) (h : r.Lists l)
    (hPerm : targets'.Perm targets) :
    (targets'.map (aimed r)).foldlM Registry.update r =
      (targets.map (aimed r)).foldlM Registry.update r := by
  obtain ⟨hDistinct, hIn⟩ := hReplaces.aimed_pools h
  exact foldlM_update_perm h.sound hDistinct hIn (hPerm.map _)

end Replaces

end Treasury.Router
