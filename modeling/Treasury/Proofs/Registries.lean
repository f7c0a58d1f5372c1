import Treasury.Pool.Registry
import Treasury.Proofs.RosterList

/-! Registries in good order. The marks and the positions of a registry, with the pools of its
configs, are a roster. While that is sound, the registry lists configs of different pools, each at
the position of its pool, and has for a pool the config in the list. -/
namespace Treasury.Pool.Registry

/-- The pools of the configs in a table. -/
def pools (entries : Table Nat (Option Config)) : Table Nat (Option Address) :=
  ⟨fun i => (entries.read i).map Config.pool⟩

theorem read_pools (entries : Table Nat (Option Config)) (i : Nat) :
    (pools entries).read i = (entries.read i).map Config.pool := rfl

theorem pools_write (entries : Table Nat (Option Config)) (i : Nat) (config : Config) :
    pools (entries.write i (some config)) = (pools entries).write i (some config.pool) := by
  ext1 j
  rw [read_pools, Table.read_write, Table.read_write, apply_ite (Option.map Config.pool),
    Option.map_some, read_pools]

/-- The pools of a registry, without their configs. -/
def roster (r : Registry) : Roster where
  size := r.size
  slots := pools r.entries
  positions := r.positions
  marks := r.marks

/-- A registry is its pools and its configs. -/
theorem eq_of_roster {r r' : Registry} (hRoster : r'.roster = r.roster)
    (hEntries : r'.entries = r.entries) : r' = r := by
  obtain ⟨_, _, _, _⟩ := r
  obtain ⟨_, _, _, _⟩ := r'
  cases hEntries
  cases hRoster
  rfl

/-- The pools of the registry are a sound roster. -/
structure Sound (r : Registry) : Prop where
  roster : r.roster.Sound

variable {r r' : Registry} {pool p : Address} {config removed : Config} {i last : Nat}

theorem sound_empty : Sound {} := ⟨Roster.sound_empty⟩

theorem get?_empty (p : Address) : ({} : Registry).get? p = none := rfl

section Results

theorem index?_eq_some : r.index? p = some i ↔ r.contains p = true ∧ r.positions.read p = some i := by
  unfold index?
  split <;> simp [*]

theorem get?_eq_some : r.get? p = some config ↔
    ∃ i, r.index? p = some i ∧ r.entries.read i = some config := by
  unfold get? index?
  split <;> simp [Option.bind_eq_some_iff]

theorem contains_of_get? (h : r.get? pool = some config) : r.contains pool = true := by
  obtain ⟨i, hi, -⟩ := get?_eq_some.1 h
  exact (index?_eq_some.1 hi).1

theorem require_eq_ok : r.require pool = .ok config ↔ r.get? pool = some config := by
  unfold require
  split
  · next found hFound => rw [hFound, Except.ok.injEq, Option.some.injEq]
  · next hNone => simp [hNone, refuse]

theorem requireIndex_eq_ok : r.requireIndex pool = .ok i ↔ r.index? pool = some i := by
  unfold requireIndex
  split
  · next found hFound => rw [hFound, Except.ok.injEq, Option.some.injEq]
  · next hNone => simp [hNone, refuse]

theorem at?_eq_ok : r.at? i = .ok config ↔ i < r.size ∧ r.entries.read i = some config := by
  simp only [at?, Result.bind_eq_ok, ensure_eq_ok, exists_const]
  refine and_congr_right fun _ => ?_
  cases r.entries.read i <;> simp [refuse]

theorem push_eq_ok : r.push config = .ok r' ↔ r.contains config.pool = false ∧
    { entries := r.entries.write r.size (some config)
      size := r.size + 1
      positions := r.positions.write config.pool (some r.size)
      marks := r.marks.write config.pool true } = r' := by
  simp only [push, Result.bind_eq_ok, ensure_eq_ok, exists_const, pure, Except.pure,
    Except.ok.injEq]

theorem update_eq_ok : r.update config = .ok r' ↔ ∃ i, r.index? config.pool = some i ∧
    { r with entries := r.entries.write i (some config) } = r' := by
  simp only [update, Result.bind_eq_ok, requireIndex_eq_ok, pure, Except.pure, Except.ok.injEq]

theorem fill_eq_ok : r.fill i last = .ok r' ↔ (i = last ∧ r = r') ∨
    (i ≠ last ∧ ∃ moved, r.at? last = .ok moved ∧
      { r with
        entries := r.entries.write i (some moved)
        positions := r.positions.write moved.pool (some i) } = r') := by
  unfold fill
  split <;> simp [Result.bind_eq_ok, pure, Except.pure, *]

/-- What it takes to take a pool out, and what is left of the registry. -/
theorem swapRemove_eq_ok : r.swapRemove pool = .ok (removed, r') ↔
    ∃ i last, r.index? pool = some i ∧ r.size = last + 1 ∧ i ≤ last ∧
      r.entries.read i = some removed ∧ ∃ filled, r.fill i last = .ok filled ∧
        { filled with size := last, marks := filled.marks.write pool false } = r' := by
  simp only [swapRemove, Result.bind_eq_ok, requireIndex_eq_ok, at?_eq_ok, Amount.sub_eq_ok, pure,
    Except.pure, Except.ok.injEq, Prod.mk.injEq]
  constructor
  · rintro ⟨i, hi, found, ⟨hLt, hAt⟩, last, ⟨hSize, rfl⟩, filled, hFill, rfl, rfl⟩
    exact ⟨i, r.size - 1, hi, by omega, by omega, hAt, filled, hFill, rfl⟩
  · rintro ⟨i, last, hi, hSize, hLe, hAt, filled, hFill, rfl⟩
    have hUsed : 1 ≤ r.size := by omega
    have hLast : r.size - 1 = last := by omega
    exact ⟨i, hi, removed, ⟨by omega, hAt⟩, last, ⟨hUsed, hLast⟩, filled, hFill, rfl, rfl⟩

end Results

section Rosters

theorem toList_eq_firsts (r : Registry) : r.toList = r.entries.firsts r.size := rfl

theorem toList_roster (r : Registry) : r.roster.toList = r.toList.map Config.pool :=
  List.map_filterMap.symm

theorem roster_push (h : r.push config = .ok r') : r'.roster = r.roster.push config.pool := by
  obtain ⟨-, rfl⟩ := push_eq_ok.1 h
  rw [roster, pools_write]
  rfl

theorem roster_swapRemove (h : r.swapRemove pool = .ok (removed, r')) :
    r.roster.swapRemove pool = .ok r'.roster := by
  obtain ⟨i, last, hi, hSize, -, -, filled, hFill, rfl⟩ := swapRemove_eq_ok.1 h
  have hPosition : r.roster.positions.read pool = some i := (index?_eq_some.1 hi).2
  have hLast : Amount.sub r.roster.size 1 = .ok last := by
    have hUsed : 1 ≤ r.size := by omega
    have hBefore : r.size - 1 = last := by omega
    exact Amount.sub_eq_ok.2 ⟨hUsed, hBefore⟩
  simp only [Roster.swapRemove, Result.bind_eq_ok, hLast, Except.ok.injEq, exists_eq_left',
    hPosition, Option.getD_some]
  rcases fill_eq_ok.1 hFill with ⟨rfl, rfl⟩ | ⟨hNe, moved, hMoved, rfl⟩
  · simp only [if_true]
    rfl
  · have hSlot : r.roster.slots.read last = some moved.pool := by
      rw [roster, read_pools, (at?_eq_ok.1 hMoved).2, Option.map_some]
    simp only [hNe, if_false, hSlot]
    rw [roster, roster, pools_write]
    rfl

/-- The config of a pool that is taken out. -/
theorem get?_of_swapRemove (h : r.swapRemove pool = .ok (removed, r')) :
    r.get? pool = some removed := by
  obtain ⟨i, _, hi, -, -, hAt, -⟩ := swapRemove_eq_ok.1 h
  exact get?_eq_some.2 ⟨i, hi, hAt⟩

namespace Sound

theorem full (h : r.Sound) : r.entries.Full r.size := by
  intro i hi
  obtain ⟨_, hPool, -⟩ := h.roster.filled i hi
  exact (Option.map_eq_some_iff.1 hPool).imp fun _ hConfig => hConfig.1

/-- A pool is at the position of its config. -/
theorem index?_eq_some_iff (h : r.Sound) : r.index? p = some i ↔
    i < r.size ∧ ∃ config, r.entries.read i = some config ∧ config.pool = p := by
  rw [index?_eq_some, ← Option.map_eq_some_iff, ← read_pools]
  constructor
  · rintro ⟨hIn, hPosition⟩
    obtain ⟨j, hj, hAt⟩ := h.roster.placed p hIn
    obtain rfl : i = j := Option.some.inj (hPosition.symm.trans (h.roster.position hj hAt).2)
    exact ⟨hj, hAt⟩
  · exact fun ⟨hi, hAt⟩ => h.roster.position hi hAt

/-- The pools of a sound registry are listed once each. -/
theorem nodup_pools (h : r.Sound) : (r.toList.map Config.pool).Nodup :=
  toList_roster r ▸ h.roster.nodup_toList

/-- A registered pool has a position. -/
theorem exists_index? (h : r.Sound) (hIn : r.contains p = true) : ∃ i, r.index? p = some i := by
  obtain ⟨i, hi, hAt⟩ := h.roster.placed p hIn
  exact ⟨i, index?_eq_some.2 (h.roster.position hi hAt)⟩

theorem index?_inj (h : r.Sound) (hp : r.index? p = some i) (hPool : r.index? pool = some i) :
    p = pool := by
  obtain ⟨-, config, hConfig, rfl⟩ := h.index?_eq_some_iff.1 hp
  obtain ⟨-, config', hConfig', rfl⟩ := h.index?_eq_some_iff.1 hPool
  rw [Option.some.inj (hConfig.symm.trans hConfig')]

theorem getElem?_toList (h : r.Sound) (i : Nat) :
    r.toList[i]? = if i < r.size then r.entries.read i else none :=
  h.full.getElem?_firsts i

/-- What a registry has for a pool is the config in its list. -/
theorem get?_eq_some_iff (h : r.Sound) :
    r.get? p = some config ↔ config ∈ r.toList ∧ config.pool = p := by
  simp only [get?_eq_some, h.index?_eq_some_iff, toList, List.mem_filterMap, List.mem_range]
  constructor
  · rintro ⟨i, ⟨hi, found, hFound, hPool⟩, hAt⟩
    obtain rfl := Option.some.inj (hFound.symm.trans hAt)
    exact ⟨⟨i, hi, hAt⟩, hPool⟩
  · rintro ⟨⟨i, hi, hAt⟩, hPool⟩
    exact ⟨i, ⟨hi, config, hAt, hPool⟩, hAt⟩

theorem get?_of_mem (h : r.Sound) (hMem : config ∈ r.toList) : r.get? config.pool = some config :=
  h.get?_eq_some_iff.2 ⟨hMem, rfl⟩

theorem mem_of_get? (h : r.Sound) (hGet : r.get? p = some config) : config ∈ r.toList :=
  (h.get?_eq_some_iff.1 hGet).1

/-- The config of a pool is a config of that pool. -/
theorem keyed (h : r.Sound) (p : Address) (config : Config) (hGet : r.get? p = some config) :
    config.pool = p :=
  (h.get?_eq_some_iff.1 hGet).2

theorem push (h : r.Sound) (hPush : r.push config = .ok r') : r'.Sound :=
  ⟨roster_push hPush ▸ h.roster.push (push_eq_ok.1 hPush).1⟩

/-- A config that is replaced is one of the same pool. -/
theorem roster_update (h : r.Sound) (hUpdate : r.update config = .ok r') :
    r'.roster = r.roster := by
  obtain ⟨i, hi, rfl⟩ := update_eq_ok.1 hUpdate
  obtain ⟨-, old, hOld, hPool⟩ := h.index?_eq_some_iff.1 hi
  have hSlot : some config.pool = (pools r.entries).read i := by
    rw [read_pools, hOld, Option.map_some, hPool]
  rw [Registry.roster, pools_write, hSlot, Table.write_read]
  rfl

theorem update (h : r.Sound) (hUpdate : r.update config = .ok r') : r'.Sound :=
  ⟨h.roster_update hUpdate ▸ h.roster⟩

theorem swapRemove (h : r.Sound) (hRemove : r.swapRemove pool = .ok (removed, r')) : r'.Sound := by
  obtain ⟨i, -, hi, -⟩ := swapRemove_eq_ok.1 hRemove
  exact ⟨h.roster.swapRemove (index?_eq_some.1 hi).1 (roster_swapRemove hRemove)⟩

end Sound

end Rosters

section Changes

/-- A new config comes last. -/
theorem toList_push (h : r.push config = .ok r') : r'.toList = r.toList ++ [config] := by
  obtain ⟨-, rfl⟩ := push_eq_ok.1 h
  exact Table.firsts_write_end r.entries r.size config

/-- A config takes the place of the one that it replaces. -/
theorem toList_update (hSound : r.Sound) (hi : r.index? config.pool = some i)
    (h : r.update config = .ok r') : r'.toList = r.toList.set i config := by
  obtain ⟨j, hj, rfl⟩ := update_eq_ok.1 h
  obtain rfl : i = j := Option.some.inj (hi.symm.trans hj)
  exact hSound.full.firsts_write i config

/-- The last config fills the gap that a pool leaves. -/
theorem toList_swapRemove (hSound : r.Sound) (hi : r.index? pool = some i)
    (h : r.swapRemove pool = .ok (removed, r')) :
    r.toList[i]? = some removed ∧ r'.toList = closeGap r.toList i := by
  obtain ⟨j, last, hj, hSize, hLe, hAt, filled, hFill, rfl⟩ := swapRemove_eq_ok.1 h
  obtain rfl : i = j := Option.some.inj (hi.symm.trans hj)
  have hFull : r.entries.Full (last + 1) := hSize ▸ hSound.full
  refine ⟨by rw [hSound.getElem?_toList, if_pos (by omega), hAt], ?_⟩
  rw [toList_eq_firsts, toList_eq_firsts, hSize]
  rcases fill_eq_ok.1 hFill with ⟨rfl, rfl⟩ | ⟨-, moved, hMoved, rfl⟩
  · exact hFull.of_succ.firsts_dropped hAt
  · exact hFull.of_succ.firsts_moved (at?_eq_ok.1 hMoved).2 i

theorem get?_push (hSound : r.Sound) (h : r.push config = .ok r') (p : Address) :
    r'.get? p = if p = config.pool then some config else r.get? p := by
  ext found
  rw [(hSound.push h).get?_eq_some_iff, toList_push h, List.mem_append, List.mem_singleton]
  split
  · next hp =>
    have hNew : ¬ (found ∈ r.toList ∧ found.pool = p) := fun hOld => by
      have hIn := contains_of_get? (hSound.get?_eq_some_iff.2 hOld)
      rw [hp, (push_eq_ok.1 h).1] at hIn
      cases hIn
    rw [or_and_right, or_iff_right hNew, Option.some.injEq]
    exact ⟨fun hLast => hLast.1.symm, fun hSame => ⟨hSame.symm, hSame ▸ hp.symm⟩⟩
  · next hp =>
    have hOther : ¬ (found = config ∧ found.pool = p) := fun ⟨hSame, hPool⟩ =>
      hp (hSame ▸ hPool.symm)
    rw [or_and_right, or_iff_left hOther, hSound.get?_eq_some_iff]

theorem get?_update (hSound : r.Sound) (h : r.update config = .ok r') (p : Address) :
    r'.get? p = if p = config.pool then some config else r.get? p := by
  obtain ⟨i, hi, rfl⟩ := update_eq_ok.1 h
  ext found
  have hIndex : ∀ j, ({ r with entries := r.entries.write i (some config) } : Registry).index? p =
      some j ↔ r.index? p = some j := fun _ => Iff.rfl
  simp only [get?_eq_some, hIndex]
  split
  · next hp => simp [hp, hi]
  · next hp =>
    rw [get?_eq_some]
    refine exists_congr fun j => and_congr_right fun hj => ?_
    have hNe : j ≠ i := by
      rintro rfl
      exact hp (hSound.index?_inj hj hi)
    rw [Table.read_write_of_ne _ _ hNe]

theorem get?_swapRemove (hSound : r.Sound) (h : r.swapRemove pool = .ok (removed, r'))
    (p : Address) :
    r'.get? p = if p = pool then none else r.get? p := by
  obtain ⟨i, _, hi, -⟩ := swapRemove_eq_ok.1 h
  obtain ⟨hAt, hList⟩ := toList_swapRemove hSound hi h
  split
  · next hp =>
    refine Option.eq_none_iff_forall_ne_some.2 fun found hFound => ?_
    have hStays := Roster.contains_swapRemove (b := p) hSound.roster (index?_eq_some.1 hi).1
      (roster_swapRemove h)
    exact (hStays.1 (contains_of_get? hFound)).2 hp
  · next hp =>
    have hOther : ∀ found : Config, found.pool = p → found ≠ removed := by
      rintro found rfl rfl
      exact hp (hSound.keyed pool found (get?_of_swapRemove h))
    ext found
    rw [(hSound.swapRemove h).get?_eq_some_iff, hSound.get?_eq_some_iff, hList,
      (perm_closeGap hAt).mem_iff, List.mem_cons]
    exact and_congr_left fun hPool => (or_iff_right (hOther found hPool)).symm

theorem size_push (h : r.push config = .ok r') : r'.size = r.size + 1 := by
  obtain ⟨-, rfl⟩ := push_eq_ok.1 h
  rfl

theorem size_swapRemove (h : r.swapRemove pool = .ok (removed, r')) : r.size = r'.size + 1 := by
  obtain ⟨i, last, -, hSize, -, -, filled, -, rfl⟩ := swapRemove_eq_ok.1 h
  exact hSize

end Changes

/-- Two registries of the same pools. A relation holds between the two configs of each pool. -/
structure Tracks (R : Config → Config → Prop) (r r' : Registry) : Prop where
  sound : r'.Sound
  roster : r'.roster = r.roster
  absent : ∀ p, r.get? p = none → r'.get? p = none
  each : ∀ p old, r.get? p = some old → ∃ new, r'.get? p = some new ∧ R old new

namespace Tracks

variable {R S : Config → Config → Prop} {mid : Registry} {old new : Config}

theorem refl (hSound : r.Sound) (hRefl : ∀ config, R config config) : r.Tracks R r :=
  ⟨hSound, rfl, fun _ => id, fun _ old hOld => ⟨old, hOld, hRefl old⟩⟩

theorem mono (h : r.Tracks R r') (hImp : ∀ old new, R old new → S old new) : r.Tracks S r' :=
  ⟨h.sound, h.roster, h.absent, fun p old hOld =>
    (h.each p old hOld).imp fun new hNew => ⟨hNew.1, hImp old new hNew.2⟩⟩

theorem trans {last : Registry} (hTrans : ∀ a b c, R a b → R b c → R a c) (h : r.Tracks R r')
    (h' : r'.Tracks R last) : r.Tracks R last := by
  refine ⟨h'.sound, h'.roster.trans h.roster, fun p hp => h'.absent p (h.absent p hp),
    fun p old hOld => ?_⟩
  obtain ⟨next, hNext, hFirst⟩ := h.each p old hOld
  obtain ⟨new, hNew, hThen⟩ := h'.each p next hNext
  exact ⟨new, hNew, hTrans old next new hFirst hThen⟩

theorem size (h : r.Tracks R r') : r'.size = r.size := congrArg Roster.size h.roster

/-- Every config stands in the relation to an earlier one. -/
theorem before (h : r.Tracks R r') (hNew : r'.get? p = some new) :
    ∃ old, r.get? p = some old ∧ R old new := by
  cases hOld : r.get? p with
  | none => simp [h.absent p hOld] at hNew
  | some old =>
    obtain ⟨found, hFound, hRel⟩ := h.each p old hOld
    obtain rfl : found = new := Option.some.inj (hFound.symm.trans hNew)
    exact ⟨old, rfl, hRel⟩

/-- A config is replaced by one that stands in the relation to the first one of its pool. -/
theorem update (h : r.Tracks R mid) (hSound : r.Sound) (hOld : r.get? pool = some old)
    (hPool : new.pool = old.pool) (hRel : R old new) (hUpdate : mid.update new = .ok r') :
    r.Tracks R r' := by
  have hGet := get?_update h.sound hUpdate
  have hRoster := h.sound.roster_update hUpdate
  have hAt : new.pool = pool := hPool.trans (hSound.keyed pool old hOld)
  refine ⟨h.sound.update hUpdate, hRoster.trans h.roster, fun p hp => ?_, fun p found hp => ?_⟩
  · have hNe : p ≠ new.pool := by
      rintro rfl
      rw [hAt, hOld] at hp
      cases hp
    rw [hGet, if_neg hNe, h.absent p hp]
  · rw [hGet]
    split
    · next hSame =>
      rw [hSame, hAt, hOld] at hp
      cases hp
      exact ⟨new, rfl, hRel⟩
    · exact h.each p found hp

/-- Configs are replaced one after the other by ones that stand in the relation to those that the
registry had at first. -/
theorem foldlM {configs : List Config} (h : r.Tracks R mid) (hSound : r.Sound)
    (hEach : ∀ new ∈ configs, ∃ pool old, r.get? pool = some old ∧ new.pool = old.pool ∧ R old new)
    (hFold : configs.foldlM Registry.update mid = .ok r') : r.Tracks R r' := by
  induction configs generalizing mid with
  | nil =>
    cases hFold
    exact h
  | cons new rest ih =>
    rw [List.foldlM_cons, Result.bind_eq_ok] at hFold
    obtain ⟨next, hUpdate, hRest⟩ := hFold
    obtain ⟨pool, old, hOld, hPool, hRel⟩ := hEach new List.mem_cons_self
    exact ih (h.update hSound hOld hPool hRel hUpdate)
      (fun new hIn => hEach new (List.mem_cons_of_mem _ hIn)) hRest

end Tracks

end Treasury.Pool.Registry
