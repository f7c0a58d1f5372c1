import Treasury.Roster

/-! Rosters in good order. In a sound roster the marks, the positions and the places in use tell the
same story, so that its list has each member once. -/
namespace Treasury

namespace Roster

/-- The marks, the positions and the places in use agree. -/
structure Sound (r : Roster) : Prop where
  filled : ∀ i, i < r.size →
    ∃ a, r.slots.read i = some a ∧ r.contains a = true ∧ r.positions.read a = some i
  placed : ∀ a, r.contains a = true → ∃ i, i < r.size ∧ r.slots.read i = some a

variable {r r' : Roster} {a b : Address} {i j : Nat}

theorem sound_empty : Sound {} :=
  ⟨fun i hi => absurd hi (Nat.not_lt_zero i), fun a ha => by simp [contains] at ha⟩

namespace Sound

/-- A member stands at its position. -/
theorem position (h : r.Sound) (hi : i < r.size) (ha : r.slots.read i = some a) :
    r.contains a = true ∧ r.positions.read a = some i := by
  obtain ⟨b, hb, hMember, hPosition⟩ := h.filled i hi
  obtain rfl : a = b := Option.some.inj (ha.symm.trans hb)
  exact ⟨hMember, hPosition⟩

/-- No member stands twice. -/
theorem place_unique (h : r.Sound) (hi : i < r.size) (hj : j < r.size)
    (ha : r.slots.read i = some a) (hb : r.slots.read j = some a) : i = j := by
  have hAt := (h.position hi ha).2
  rw [(h.position hj hb).2] at hAt
  exact (Option.some.inj hAt).symm

theorem mem_toList (h : r.Sound) : a ∈ r.toList ↔ r.contains a = true := by
  simp only [toList, List.mem_filterMap, List.mem_range]
  constructor
  · rintro ⟨i, hi, ha⟩
    exact (h.position hi ha).1
  · exact h.placed a

theorem nodup_toList (h : r.Sound) : r.toList.Nodup := by
  rw [toList, List.Nodup, List.pairwise_filterMap]
  refine List.nodup_range.imp_of_mem fun {i j} hi hj hNe a ha b hb hSame => hNe ?_
  subst hSame
  exact h.place_unique (List.mem_range.1 hi) (List.mem_range.1 hj) ha hb

theorem push (h : r.Sound) (ha : r.contains a = false) : (r.push a).Sound := by
  constructor
  · intro i hi
    by_cases hLast : i = r.size
    · subst hLast
      refine ⟨a, ?_, ?_, ?_⟩ <;> simp [Roster.push, contains]
    · obtain ⟨b, hb, hMember, hPosition⟩ := h.filled i (by simp only [Roster.push] at hi; omega)
      have hNe : b ≠ a := by
        rintro rfl
        rw [ha] at hMember
        cases hMember
      refine ⟨b, ?_, ?_, ?_⟩
      · simpa [Roster.push, hLast] using hb
      · simpa [Roster.push, contains, hNe] using hMember
      · simpa [Roster.push, hNe] using hPosition
  · intro b hb
    by_cases hNe : b = a
    · subst hNe
      exact ⟨r.size, Nat.lt_succ_self _, by simp [Roster.push]⟩
    · have hMember : r.contains b = true := by simpa [Roster.push, contains, hNe] using hb
      obtain ⟨i, hi, hAt⟩ := h.placed b hMember
      refine ⟨i, Nat.lt_succ_of_lt hi, ?_⟩
      have hLast : i ≠ r.size := by omega
      simpa [Roster.push, hLast] using hAt

end Sound

@[simp] theorem contains_push : (r.push a).contains b = (decide (b = a) || r.contains b) := by
  by_cases h : b = a <;> simp [push, contains, h]

/-- The places of a roster after `a` has been taken out of it: the last member has moved to the
place of `a`. -/
theorem swapRemove_spec (h : r.Sound) (ha : r.contains a = true)
    (hRemove : r.swapRemove a = .ok r') :
    ∃ i last, r.size = last + 1 ∧ i ≤ last ∧ r.slots.read i = some a ∧
      r'.size = last ∧ r'.marks = r.marks.write a false ∧
      (i = last → r'.slots = r.slots ∧ r'.positions = r.positions) ∧
      (i ≠ last → ∃ m, r.slots.read last = some m ∧ r'.slots = r.slots.write i (some m) ∧
        r'.positions = r.positions.write m (some i)) := by
  obtain ⟨i, hi, hAt⟩ := h.placed a ha
  have hPosition := (h.position hi hAt).2
  simp only [swapRemove, Result.bind_eq_ok, Amount.sub_eq_ok] at hRemove
  obtain ⟨last, ⟨hSize, rfl⟩, hRemove⟩ := hRemove
  obtain ⟨m, hm, -, -⟩ := h.filled (r.size - 1) (by omega)
  refine ⟨i, r.size - 1, by omega, by omega, hAt, ?_⟩
  rw [hPosition, Option.getD_some] at hRemove
  by_cases hLast : i = r.size - 1
  · simp only [hLast, if_true] at hRemove
    cases hRemove
    exact ⟨rfl, rfl, fun _ => ⟨rfl, rfl⟩, fun hNe => absurd hLast hNe⟩
  · simp only [hLast, if_false, hm] at hRemove
    cases hRemove
    exact ⟨rfl, rfl, fun hEq => absurd hEq hLast, fun _ => ⟨m, hm, rfl, rfl⟩⟩

theorem contains_swapRemove (h : r.Sound) (ha : r.contains a = true)
    (hRemove : r.swapRemove a = .ok r') :
    r'.contains b = true ↔ r.contains b = true ∧ b ≠ a := by
  obtain ⟨i, last, -, -, -, -, hMarks, -⟩ := swapRemove_spec h ha hRemove
  rw [contains, hMarks, Table.read_write]
  by_cases hb : b = a <;> simp [hb, contains]

/-- The last member has been taken out. -/
theorem Sound.of_popped (h : r.Sound) {last : Nat} (hSize : r.size = last + 1)
    (hAt : r.slots.read last = some a) (hSize' : r'.size = last) (hSlots : r'.slots = r.slots)
    (hPositions : r'.positions = r.positions)
    (hMember : ∀ b, r'.contains b = true ↔ r.contains b = true ∧ b ≠ a) : r'.Sound := by
  constructor
  · intro j hj
    obtain ⟨b, hb, hIn, hPosition⟩ := h.filled j (by omega)
    have hNe : b ≠ a := by
      rintro rfl
      have hSame := h.place_unique (by omega) (by omega) hb hAt
      omega
    exact ⟨b, hSlots ▸ hb, (hMember b).2 ⟨hIn, hNe⟩, hPositions ▸ hPosition⟩
  · intro b hb
    obtain ⟨hIn, hNe⟩ := (hMember b).1 hb
    obtain ⟨j, hj, hStands⟩ := h.placed b hIn
    have hNotLast : j ≠ last := by
      rintro rfl
      exact hNe (Option.some.inj (hStands.symm.trans hAt))
    exact ⟨j, by omega, hSlots ▸ hStands⟩

/-- The last member has moved to the place of the one that has been taken out. -/
theorem Sound.of_moved (h : r.Sound) {last : Nat} {m : Address} (hSize : r.size = last + 1)
    (hi : i < last) (hAt : r.slots.read i = some a) (hm : r.slots.read last = some m)
    (hSize' : r'.size = last) (hSlots : r'.slots = r.slots.write i (some m))
    (hPositions : r'.positions = r.positions.write m (some i))
    (hMember : ∀ b, r'.contains b = true ↔ r.contains b = true ∧ b ≠ a) : r'.Sound := by
  obtain ⟨hIn, hPosition⟩ := h.position (i := last) (by omega) hm
  -- Nobody but `a` stands at its place.
  have hOther : ∀ j b, j < r.size → r.slots.read j = some b → j ≠ i → b ≠ a := by
    rintro j b hj hb hNe rfl
    exact hNe (h.place_unique hj (by omega) hb hAt)
  constructor
  · intro j hj
    by_cases hji : j = i
    · subst hji
      refine ⟨m, ?_, (hMember m).2 ⟨hIn, hOther last m (by omega) hm (by omega)⟩, ?_⟩
      · rw [hSlots, Table.read_write_self]
      · rw [hPositions, Table.read_write_self]
    · obtain ⟨b, hb, hStays, hAtJ⟩ := h.filled j (by omega)
      have hNe : b ≠ m := by
        rintro rfl
        rw [hPosition] at hAtJ
        have hSame := Option.some.inj hAtJ
        omega
      refine ⟨b, ?_, (hMember b).2 ⟨hStays, hOther j b (by omega) hb hji⟩, ?_⟩
      · rw [hSlots, Table.read_write_of_ne _ _ hji, hb]
      · rw [hPositions, Table.read_write_of_ne _ _ hNe, hAtJ]
  · intro b hb
    obtain ⟨hStays, hNe⟩ := (hMember b).1 hb
    obtain ⟨j, hj, hStands⟩ := h.placed b hStays
    by_cases hjl : j = last
    · subst hjl
      obtain rfl : b = m := Option.some.inj (hStands.symm.trans hm)
      exact ⟨i, by omega, by rw [hSlots, Table.read_write_self]⟩
    · have hji : j ≠ i := by
        rintro rfl
        exact hNe (Option.some.inj (hStands.symm.trans hAt))
      exact ⟨j, by omega, by rw [hSlots, Table.read_write_of_ne _ _ hji, hStands]⟩

theorem Sound.swapRemove (h : r.Sound) (ha : r.contains a = true)
    (hRemove : r.swapRemove a = .ok r') : r'.Sound := by
  obtain ⟨i, last, hSize, hi, hAt, hSize', -, hEnd, hMoved⟩ := swapRemove_spec h ha hRemove
  have hMember : ∀ b, r'.contains b = true ↔ r.contains b = true ∧ b ≠ a :=
    fun b => contains_swapRemove h ha hRemove
  by_cases hLast : i = last
  · obtain ⟨hSlots, hPositions⟩ := hEnd hLast
    exact h.of_popped hSize (hLast ▸ hAt) hSize' hSlots hPositions hMember
  · obtain ⟨m, hm, hSlots, hPositions⟩ := hMoved hLast
    exact h.of_moved hSize (by omega) hAt hm hSize' hSlots hPositions hMember

end Roster

end Treasury
