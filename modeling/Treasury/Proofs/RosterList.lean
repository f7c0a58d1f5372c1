import Mathlib.Data.List.Perm.Basic
import Treasury.Proofs.Rosters

/-! Lists kept in a table: what stands at its first positions, in order. Writing to one of these
positions changes one entry of the list, writing behind them adds an entry, and a list closes the gap
that an entry leaves with its last one, so it loses that entry and no other. The list of a roster is
of this kind. -/
namespace Treasury

section CloseGap

variable {α : Type}

/-- A list with the entry at a position replaced by the last one, and the last position dropped. -/
def closeGap (l : List α) (i : Nat) : List α :=
  match l.getLast? with
  | none => []
  | some last => (l.set i last).dropLast

variable {l : List α} {a : α} {i : Nat}

@[simp] theorem closeGap_concat (l : List α) (last : α) (i : Nat) :
    closeGap (l ++ [last]) i = l.set i last := by
  simp only [closeGap, List.getLast?_append, List.getLast?_singleton, Option.some_or]
  rcases Nat.lt_trichotomy i l.length with hLt | hEq | hGt
  · rw [List.set_append_left _ _ hLt, List.dropLast_concat]
  · subst hEq
    simp [List.set_eq_of_length_le]
  · rw [List.set_eq_of_length_le (by simp; omega), List.set_eq_of_length_le (by omega),
      List.dropLast_concat]

/-- A list loses the entry at the gap, and no other. -/
theorem perm_closeGap (h : l[i]? = some a) : l.Perm (a :: closeGap l i) := by
  rcases l.eq_nil_or_concat' with rfl | ⟨init, last, rfl⟩
  · simp at h
  · rw [closeGap_concat]
    by_cases hi : i < init.length
    · rw [List.getElem?_append_left hi, List.getElem?_eq_getElem hi, Option.some.injEq] at h
      subst h
      calc (init ++ [last]).Perm (last :: init) := List.perm_append_singleton _ _
        _ |>.Perm (last :: init[i] :: init.eraseIdx i) :=
          ((List.getElem_cons_eraseIdx_perm hi).symm).cons last
        _ |>.Perm (init[i] :: last :: init.eraseIdx i) := .swap _ _ _
        _ |>.Perm (init[i] :: init.set i last) :=
          ((List.set_perm_cons_eraseIdx hi last).symm).cons _
    · obtain ⟨hLt, hAt⟩ := List.getElem?_eq_some_iff.1 h
      have hEnd : i = init.length := by
        simp only [List.length_append, List.length_singleton] at hLt
        omega
      subst hEnd
      rw [List.getElem_concat_length rfl] at hAt
      rw [List.set_eq_of_length_le (Nat.le_refl _), ← hAt]
      exact List.perm_append_singleton _ _

end CloseGap

namespace Table

variable {α : Type} {t : Table Nat (Option α)} {n : Nat} {a : α}

/-- What stands at the first `n` positions, in order. -/
def firsts (t : Table Nat (Option α)) (n : Nat) : List α := (List.range n).filterMap t.read

/-- Something stands at each of the first `n` positions. -/
def Full (t : Table Nat (Option α)) (n : Nat) : Prop := ∀ i, i < n → ∃ a, t.read i = some a

theorem firsts_succ (h : t.read n = some a) : t.firsts (n + 1) = t.firsts n ++ [a] := by
  rw [firsts, List.range_succ, List.filterMap_append, firsts, List.filterMap_cons_some h,
    List.filterMap_nil]

/-- What is written behind the list comes last in it. -/
theorem firsts_write_end (t : Table Nat (Option α)) (n : Nat) (a : α) :
    (t.write n (some a)).firsts (n + 1) = t.firsts n ++ [a] := by
  rw [firsts_succ (t.read_write_self n (some a))]
  congr 1
  refine List.filterMap_congr fun i hi => ?_
  rw [read_write_of_ne _ _ (Nat.ne_of_lt (List.mem_range.1 hi))]

/-- Two lists whose entries are related position by position. -/
theorem forall₂_firsts {β : Type} {R : α → β → Prop} {u : Table Nat (Option β)}
    (h : ∀ i, i < n → ∃ a b, t.read i = some a ∧ u.read i = some b ∧ R a b) :
    List.Forall₂ R (t.firsts n) (u.firsts n) := by
  induction n with
  | zero => exact .nil
  | succ n ih =>
    obtain ⟨a, b, ha, hb, hRel⟩ := h n (Nat.lt_succ_self n)
    rw [firsts_succ ha, firsts_succ hb]
    exact List.rel_append (ih fun i hi => h i (Nat.lt_succ_of_lt hi)) (.cons hRel .nil)

namespace Full

theorem of_succ (h : t.Full (n + 1)) : t.Full n := fun i hi => h i (Nat.lt_succ_of_lt hi)

theorem write (h : t.Full n) (i : Nat) (a : α) : (t.write i (some a)).Full n := by
  intro j hj
  by_cases hSame : j = i
  · exact ⟨a, by rw [hSame, read_write_self]⟩
  · exact (h j hj).imp fun b hb => by rw [read_write_of_ne _ _ hSame, hb]

theorem length_firsts (h : t.Full n) : (t.firsts n).length = n := by
  induction n with
  | zero => rfl
  | succ n ih =>
    obtain ⟨a, ha⟩ := h n (Nat.lt_succ_self n)
    rw [firsts_succ ha, List.length_append, ih h.of_succ, List.length_singleton]

theorem getElem?_firsts (h : t.Full n) (i : Nat) :
    (t.firsts n)[i]? = if i < n then t.read i else none := by
  induction n with
  | zero => rfl
  | succ n ih =>
    obtain ⟨a, ha⟩ := h n (Nat.lt_succ_self n)
    rw [firsts_succ ha]
    rcases Nat.lt_trichotomy i n with hLt | rfl | hGt
    · rw [List.getElem?_append_left (by rwa [h.of_succ.length_firsts]), ih h.of_succ, if_pos hLt,
        if_pos (Nat.lt_succ_of_lt hLt)]
    · rw [List.getElem?_append_right (Nat.le_of_eq h.of_succ.length_firsts),
        h.of_succ.length_firsts, Nat.sub_self, List.getElem?_cons_zero, if_pos (Nat.lt_succ_self i),
        ha]
    · rw [if_neg (by omega), List.getElem?_eq_none]
      rw [List.length_append, h.of_succ.length_firsts, List.length_singleton]
      exact hGt

/-- What is written to a position replaces the entry there, if the list has one. -/
theorem firsts_write (h : t.Full n) (i : Nat) (a : α) :
    (t.write i (some a)).firsts n = (t.firsts n).set i a := by
  refine List.ext_getElem? fun j => ?_
  rw [(h.write i a).getElem?_firsts, List.getElem?_set, h.getElem?_firsts, h.length_firsts]
  by_cases hSame : i = j
  · subst hSame
    rw [read_write_self, if_pos rfl]
  · rw [read_write_of_ne _ _ (Ne.symm hSame), if_neg hSame]

/-- The last entry is moved to a position, and the list gets shorter. -/
theorem firsts_moved (h : t.Full n) (ha : t.read n = some a) (i : Nat) :
    (t.write i (some a)).firsts n = closeGap (t.firsts (n + 1)) i := by
  rw [firsts_succ ha, closeGap_concat, h.firsts_write]

/-- The last entry is dropped. -/
theorem firsts_dropped (h : t.Full n) (ha : t.read n = some a) :
    t.firsts n = closeGap (t.firsts (n + 1)) n := by
  rw [firsts_succ ha, closeGap_concat, List.set_eq_of_length_le (Nat.le_of_eq h.length_firsts)]

end Full

end Table

namespace Roster

variable {r r' : Roster} {a : Address} {i : Nat}

theorem Sound.full (h : r.Sound) : r.slots.Full r.size := fun i hi =>
  (h.filled i hi).imp fun _ ha => ha.1

theorem toList_eq_firsts (r : Roster) : r.toList = r.slots.firsts r.size := rfl

/-- A new member comes last. -/
theorem toList_push (r : Roster) (a : Address) : (r.push a).toList = r.toList ++ [a] :=
  Table.firsts_write_end r.slots r.size a

/-- The last member fills the gap that a member leaves. -/
theorem Sound.toList_swapRemove (h : r.Sound) (ha : r.toList[i]? = some a)
    (hRemove : r.swapRemove a = .ok r') : r'.toList = closeGap r.toList i := by
  have hMember : r.contains a = true := h.mem_toList.1 (List.mem_of_getElem? ha)
  obtain ⟨k, last, hSize, hk, hAt, hSize', -, hEnd, hMoved⟩ := swapRemove_spec h hMember hRemove
  rw [toList_eq_firsts, h.full.getElem?_firsts] at ha
  split at ha
  · next hi =>
    obtain rfl : i = k := h.place_unique hi (by omega) ha hAt
    have hFull : r.slots.Full (last + 1) := hSize ▸ h.full
    rw [toList_eq_firsts, toList_eq_firsts, hSize, hSize']
    by_cases hLast : i = last
    · subst hLast
      rw [(hEnd rfl).1, hFull.of_succ.firsts_dropped hAt]
    · obtain ⟨m, hm, hSlots, -⟩ := hMoved hLast
      rw [hSlots, hFull.of_succ.firsts_moved hm]
  · cases ha

end Roster

end Treasury
