import Treasury.Proofs.Registries

/-! A registry is an ordered list of configs, one for each pool. It keeps the list in four tables
with what was left in them by pools that have gone; none of that is ever seen. A new config comes
last, a changed one stays in its place, and the last one fills the gap when a pool is taken out. -/
namespace Treasury.Pool.Registry

/-- The registry is in good order, and a list has its configs. -/
structure Lists (r : Registry) (l : List Config) : Prop where
  sound : r.Sound
  toList_eq : r.toList = l

theorem lists_empty : Lists {} [] := ⟨sound_empty, rfl⟩

theorem Sound.lists {r : Registry} (h : r.Sound) : r.Lists r.toList := ⟨h, rfl⟩

namespace Lists

variable {r : Registry} {l : List Config} {config old : Config} {p : Address} {i : Nat}

/-- No pool is listed twice. -/
theorem distinct (h : r.Lists l) : (l.map Config.pool).Nodup :=
  h.toList_eq ▸ h.sound.nodup_pools

theorem contains_iff (h : r.Lists l) : r.contains p = true ↔ p ∈ l.map Config.pool := by
  rw [← h.toList_eq, ← toList_roster, h.sound.roster.mem_toList]
  rfl

theorem size_eq (h : r.Lists l) : r.size = l.length := by
  rw [← h.toList_eq, toList_eq_firsts, h.sound.full.length_firsts]

theorem get?_of_mem (h : r.Lists l) (hMem : config ∈ l) : r.get? config.pool = some config :=
  h.sound.get?_of_mem (h.toList_eq ▸ hMem)

theorem get?_eq_none (h : r.Lists l) (hp : p ∉ l.map Config.pool) : r.get? p = none :=
  if_neg fun hIn => hp (h.contains_iff.1 hIn)

theorem mem_of_get? (h : r.Lists l) (hGet : r.get? p = some config) :
    config ∈ l ∧ config.pool = p :=
  h.toList_eq ▸ h.sound.get?_eq_some_iff.1 hGet

theorem getElem?_eq_some (h : r.Lists l) :
    l[i]? = some config ↔ i < r.size ∧ r.entries.read i = some config := by
  rw [← h.toList_eq, h.sound.getElem?_toList, Option.ite_none_right_eq_some]

/-- A pool has the position of its config. -/
theorem index?_eq (h : r.Lists l) (hi : l[i]? = some config) : r.index? config.pool = some i := by
  obtain ⟨hLt, hAt⟩ := h.getElem?_eq_some.1 hi
  exact h.sound.index?_eq_some_iff.2 ⟨hLt, config, hAt, rfl⟩

theorem index?_eq_none (h : r.Lists l) (hp : p ∉ l.map Config.pool) : r.index? p = none :=
  if_neg fun hIn => hp (h.contains_iff.1 hIn)

theorem at?_eq (h : r.Lists l) (hi : l[i]? = some config) : r.at? i = .ok config :=
  at?_eq_ok.2 (h.getElem?_eq_some.1 hi)

/-- Behind the list there is nothing. -/
theorem at?_eq_error (h : r.Lists l) (hi : l.length ≤ i) : r.at? i = refuse .indexOutOfRange := by
  have hOut : ¬ i < r.size := by
    rw [h.size_eq]
    omega
  exact Result.bind_eq_error.2 (.inl (ensure_eq_error.2 ⟨hOut, rfl⟩))

theorem push (h : r.Lists l) (hNew : config.pool ∉ l.map Config.pool) :
    ∃ r', r.push config = .ok r' ∧ r'.Lists (l ++ [config]) := by
  have hFree : r.contains config.pool = false := by
    rw [← Bool.not_eq_true, h.contains_iff]
    exact hNew
  have hPush := push_eq_ok.2 ⟨hFree, rfl⟩
  exact ⟨_, hPush, h.sound.push hPush, h.toList_eq ▸ toList_push hPush⟩

theorem push_eq_error (h : r.Lists l) (hOld : config.pool ∈ l.map Config.pool) :
    r.push config = refuse .poolAlreadyExists := by
  have hTaken : ¬ r.contains config.pool = false := by
    rw [Bool.not_eq_false, h.contains_iff]
    exact hOld
  exact Result.bind_eq_error.2 (.inl (ensure_eq_error.2 ⟨hTaken, rfl⟩))

theorem update (h : r.Lists l) (hi : l[i]? = some old) (hPool : config.pool = old.pool) :
    ∃ r', r.update config = .ok r' ∧ r'.Lists (l.set i config) := by
  have hAt : r.index? config.pool = some i := hPool ▸ h.index?_eq hi
  have hUpdate := update_eq_ok.2 ⟨i, hAt, rfl⟩
  exact ⟨_, hUpdate, h.sound.update hUpdate, h.toList_eq ▸ toList_update h.sound hAt hUpdate⟩

/-- A pool that is not in the list has no position, where one is needed. -/
theorem requireIndex_eq_error (h : r.Lists l) (hNone : p ∉ l.map Config.pool) :
    r.requireIndex p = refuse .poolNotFound := by
  rw [requireIndex, h.index?_eq_none hNone]

theorem update_eq_error (h : r.Lists l) (hNone : config.pool ∉ l.map Config.pool) :
    r.update config = refuse .poolNotFound :=
  Result.bind_eq_error.2 (.inl (h.requireIndex_eq_error hNone))

/-- The last config can be moved to any position in use. -/
theorem fill_ok (h : r.Lists l) (i : Nat) {last : Nat} (hSize : r.size = last + 1) :
    ∃ r', r.fill i last = .ok r' := by
  obtain ⟨moved, hMoved⟩ := h.sound.full last (by omega)
  by_cases hLast : i = last
  · exact ⟨r, fill_eq_ok.2 (.inl ⟨hLast, rfl⟩)⟩
  · exact ⟨_, fill_eq_ok.2 (.inr ⟨hLast, moved, at?_eq_ok.2 ⟨by omega, hMoved⟩, rfl⟩)⟩

theorem swapRemove (h : r.Lists l) (hi : l[i]? = some config) :
    ∃ r', r.swapRemove config.pool = .ok (config, r') ∧ r'.Lists (closeGap l i) := by
  obtain ⟨hLt, hAt⟩ := h.getElem?_eq_some.1 hi
  obtain ⟨last, hSize⟩ := Nat.exists_eq_add_of_lt hLt
  have hIndex := h.index?_eq hi
  obtain ⟨filled, hFill⟩ := h.fill_ok i hSize
  have hRemove := swapRemove_eq_ok.2 ⟨i, _, hIndex, hSize, Nat.le_add_right i last, hAt, filled,
    hFill, rfl⟩
  refine ⟨_, hRemove, h.sound.swapRemove hRemove, ?_⟩
  rw [← h.toList_eq]
  exact (toList_swapRemove h.sound hIndex hRemove).2

theorem swapRemove_eq_error (h : r.Lists l) (hNone : p ∉ l.map Config.pool) :
    r.swapRemove p = refuse .poolNotFound :=
  Result.bind_eq_error.2 (.inl (h.requireIndex_eq_error hNone))

theorem require_eq_error (h : r.Lists l) (hNone : p ∉ l.map Config.pool) :
    r.require p = refuse .poolNotFound := by
  rw [require, h.get?_eq_none hNone]

end Lists

end Treasury.Pool.Registry
