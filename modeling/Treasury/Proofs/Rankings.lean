import Treasury.Pool.Ranking

/-! The order in which pools are ranked. A larger key goes first, and of equal keys the one that
stands earlier. All eligible pools are in this order, so the pool for a deposit goes before every
other pool that may be chosen. -/
namespace Treasury.Pool.Ranking

variable {key : Snapshot → Int} {x y z : Entry} {entries : List Entry} {pools : List Snapshot}
  {i j : Nat}

theorem insert_perm (key : Snapshot → Int) (x : Entry) (entries : List Entry) :
    (insert key x entries).Perm (x :: entries) := by
  induction entries with
  | nil => rfl
  | cons y rest ih =>
    rw [insert]
    split
    · rfl
    · exact (ih.cons y).trans (.swap x y rest)

theorem sort_perm (key : Snapshot → Int) (entries : List Entry) :
    (sort key entries).Perm entries := by
  induction entries with
  | nil => rfl
  | cons x rest ih =>
    rw [sort]
    exact (insert_perm key x _).trans (ih.cons x)

theorem mem_insert : x ∈ insert key y entries ↔ x = y ∨ x ∈ entries :=
  (insert_perm key y entries).mem_iff.trans List.mem_cons

theorem mem_sort : x ∈ sort key entries ↔ x ∈ entries := (sort_perm key entries).mem_iff

/-- What is ranked stands at its position and is eligible. -/
theorem mem_ranked : x ∈ ranked key pools ↔ pools[x.2]? = some x.1 ∧ x.1.eligible = true := by
  rw [ranked, mem_sort, List.mem_filter, List.mem_zipIdx_iff_getElem?]

/-- All eligible pools are ranked, each once. -/
theorem length_ranked (key : Snapshot → Int) (pools : List Snapshot) :
    (ranked key pools).length = pools.countP Snapshot.eligible := by
  have hCount : (pools.zipIdx.map Prod.fst).countP Snapshot.eligible =
      pools.zipIdx.countP fun entry => entry.1.eligible := List.countP_map
  rw [ranked, (sort_perm _ _).length_eq, ← List.countP_eq_length_filter, ← hCount,
    List.zipIdx_map_fst]

/-- One entry goes before another: its key is larger, or its key is the same and it stands
earlier. -/
def Precedes (key : Snapshot → Int) (x y : Entry) : Prop :=
  key y.1 < key x.1 ∨ key y.1 = key x.1 ∧ x.2 < y.2

theorem Precedes.trans (hFirst : Precedes key x y) (hThen : Precedes key y z) :
    Precedes key x z := by
  unfold Precedes at *
  omega

/-- An entry is put in order among ordered entries that all stand later. -/
theorem insert_ordered (hLater : ∀ z ∈ entries, x.2 < z.2)
    (h : entries.Pairwise (Precedes key)) : (insert key x entries).Pairwise (Precedes key) := by
  induction entries with
  | nil => exact List.pairwise_singleton _ _
  | cons y rest ih =>
    obtain ⟨hHead, hRest⟩ := List.pairwise_cons.1 h
    rw [insert]
    split
    · next hAbove =>
      have hFirst : Precedes key x y := by
        have hEarlier := hLater y List.mem_cons_self
        unfold Precedes
        omega
      refine List.pairwise_cons.2 ⟨fun z hz => ?_, h⟩
      obtain rfl | hz := List.mem_cons.1 hz
      · exact hFirst
      · exact hFirst.trans (hHead z hz)
    · next hBelow =>
      have hTail := ih (fun z hz => hLater z (List.mem_cons_of_mem _ hz)) hRest
      refine List.pairwise_cons.2 ⟨fun z hz => ?_, hTail⟩
      obtain rfl | hz := mem_insert.1 hz
      · exact .inl (Int.not_le.1 hBelow)
      · exact hHead z hz

theorem sort_ordered (h : entries.Pairwise fun x y => x.2 < y.2) :
    (sort key entries).Pairwise (Precedes key) := by
  induction entries with
  | nil => exact .nil
  | cons x rest ih =>
    obtain ⟨hLater, hRest⟩ := List.pairwise_cons.1 h
    exact insert_ordered (fun z hz => hLater z (mem_sort.1 hz)) (ih hRest)

/-- The eligible pools are ranked in order. -/
theorem ranked_ordered (key : Snapshot → Int) (pools : List Snapshot) :
    (ranked key pools).Pairwise (Precedes key) := by
  refine sort_ordered (List.Pairwise.filter _ ?_)
  have hPositions : (pools.zipIdx.map Prod.snd).Pairwise (· < ·) := by
    rw [List.zipIdx_map_snd]
    exact List.pairwise_lt_range'
  exact List.pairwise_map.1 hPositions

/-- The position of the first ranked pool that may be chosen. -/
def first (key : Snapshot → Int) (may : Snapshot → Prop) [DecidablePred may]
    (pools : List Snapshot) : Option Nat :=
  ((ranked key pools).find? fun x => may x.1).map Prod.snd

/-- The pool for a deposit is the first of those that are ranked by deficit. -/
theorem depositPool_eq (pools : List Snapshot) :
    depositPool pools = first Snapshot.deficit (fun _ => True) pools := by
  rw [depositPool, forDeposit, first]
  cases ranked Snapshot.deficit pools <;> rfl

/-- The pool for a withdrawal is the first of those, ranked by surplus, that are worth the amount. -/
theorem withdrawalPool_eq_ok {n : Amount} : withdrawalPool pools n = .ok i ↔
    first Snapshot.surplus (fun s => n ≤ s.available) pools = some i := by
  rw [withdrawalPool, first]
  split
  · next x hFirst => rw [hFirst, Option.map_some, Except.ok.injEq, Option.some.injEq]
  · next hNone => simp [hNone, refuse]

variable {may : Snapshot → Prop} [DecidablePred may] {found other : Snapshot}

/-- The first pool is eligible and may be chosen. -/
theorem first_spec (h : first key may pools = some i) :
    ∃ found, pools[i]? = some found ∧ found.eligible = true ∧ may found := by
  obtain ⟨x, hFirst, rfl⟩ := Option.map_eq_some_iff.1 h
  obtain ⟨hAt, hEligible⟩ := mem_ranked.1 (List.mem_of_find?_eq_some hFirst)
  have hMay := List.find?_some hFirst
  exact ⟨x.1, hAt, hEligible, of_decide_eq_true hMay⟩

theorem first_eq_none : first key may pools = none ↔
    ∀ found ∈ pools, found.eligible = true → ¬may found := by
  rw [first, Option.map_eq_none_iff, List.find?_eq_none]
  constructor
  · intro hNone found hMem hEligible hMay
    obtain ⟨j, hAt⟩ := List.mem_iff_getElem?.1 hMem
    exact hNone (found, j) (mem_ranked.2 ⟨hAt, hEligible⟩) (decide_eq_true hMay)
  · intro hNone x hx hMay
    obtain ⟨hAt, hEligible⟩ := mem_ranked.1 hx
    exact hNone x.1 (List.mem_of_getElem? hAt) hEligible (of_decide_eq_true hMay)

theorem withdrawalPool_eq_refuse {n : Amount} :
    withdrawalPool pools n = refuse .liquidityExhausted ↔
      ∀ found ∈ pools, found.eligible = true → ¬n ≤ found.available := by
  have hNone : first Snapshot.surplus (fun s => n ≤ s.available) pools = none ↔ _ := first_eq_none
  rw [← hNone, withdrawalPool, first]
  split
  · next x hFirst => simp [hFirst, refuse]
  · next hNone => simp [hNone]

theorem depositPool_eligible (h : depositPool pools = some i) :
    ∃ found, pools[i]? = some found ∧ found.eligible = true := by
  rw [depositPool_eq] at h
  obtain ⟨found, hAt, hEligible, -⟩ := first_spec h
  exact ⟨found, hAt, hEligible⟩

/-- The first pool goes before all other eligible pools that may be chosen. -/
theorem precedes_of_first (h : first key may pools = some i) (hFound : pools[i]? = some found)
    (hOther : pools[j]? = some other) (hEligible : other.eligible = true) (hMay : may other)
    (hElsewhere : j ≠ i) : Precedes key (found, i) (other, j) := by
  obtain ⟨x, hFirst, rfl⟩ := Option.map_eq_some_iff.1 h
  have hAt := (mem_ranked.1 (List.mem_of_find?_eq_some hFirst)).1
  obtain rfl : found = x.1 := Option.some.inj (hFound.symm.trans hAt)
  have hMem : (other, j) ∈ ranked key pools := mem_ranked.2 ⟨hOther, hEligible⟩
  have hOrdered := ranked_ordered key pools
  obtain ⟨-, before, rest, hAll, hBefore⟩ := List.find?_eq_some_iff_append.1 hFirst
  rw [hAll, List.mem_append, List.mem_cons] at hMem
  rw [hAll, List.pairwise_append, List.pairwise_cons] at hOrdered
  rcases hMem with hEarlier | hSame | hLater
  · simpa [hMay] using hBefore _ hEarlier
  · exact absurd (congrArg Prod.snd hSame) hElsewhere
  · exact hOrdered.2.1.1 _ hLater

/-- The pool for a deposit goes before every other eligible pool. -/
theorem depositPool_precedes (h : depositPool pools = some i) (hFound : pools[i]? = some found)
    (hOther : pools[j]? = some other) (hEligible : other.eligible = true) (hElsewhere : j ≠ i) :
    Precedes Snapshot.deficit (found, i) (other, j) := by
  rw [depositPool_eq] at h
  exact precedes_of_first h hFound hOther hEligible trivial hElsewhere

/-- The pool for a withdrawal goes before every other eligible pool that is worth the amount. -/
theorem withdrawalPool_precedes {n : Amount} (h : withdrawalPool pools n = .ok i)
    (hFound : pools[i]? = some found) (hOther : pools[j]? = some other)
    (hEligible : other.eligible = true) (hEnough : n ≤ other.available) (hElsewhere : j ≠ i) :
    Precedes Snapshot.surplus (found, i) (other, j) :=
  precedes_of_first (withdrawalPool_eq_ok.1 h) hFound hOther hEligible hEnough hElsewhere

end Treasury.Pool.Ranking
