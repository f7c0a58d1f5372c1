import Mathlib.Order.Bounds.Basic
import Treasury.Proofs.Rankings

/-! Lists of ranked pools. A list of some length names that many eligible pools, or all if there are
not as many, by descending key, and every pool that it leaves out comes after all that it names. So
a shorter list is the beginning of a longer one, and a choice of one pool is the earliest of those
with the largest key. -/
namespace Treasury.Pool.Ranking

variable {key : Snapshot → Int} {pools : List Snapshot} {i j k : Nat} {x y : Entry}

/-- The pool at a position may be chosen. -/
def Eligible (pools : List Snapshot) (i : Nat) : Prop :=
  ∃ s, pools[i]? = some s ∧ s.eligible = true

/-- One position comes before another: the pool there has a larger key, or it has the same key and
stands earlier. -/
def Before (key : Snapshot → Int) (pools : List Snapshot) (i j : Nat) : Prop :=
  ∃ s t, pools[i]? = some s ∧ pools[j]? = some t ∧ Precedes key (s, i) (t, j)

/-- A list names the first `k` eligible pools in their order, or all if there are not as many. -/
structure ListsFirst (key : Snapshot → Int) (pools : List Snapshot) (k : Nat)
    (listed : List Nat) : Prop where
  length : listed.length = min k (pools.countP Snapshot.eligible)
  distinct : listed.Nodup
  eligible : ∀ i ∈ listed, Eligible pools i
  /-- Each position comes before the next one, and before all later ones. -/
  ordered : listed.Pairwise (Before key pools)
  /-- What is left out comes before nothing that is named. -/
  complete : ∀ i ∈ listed, ∀ j, Eligible pools j → j ∉ listed → Before key pools i j

/-- The positions of the pools that have the largest key of all eligible pools that may be chosen. -/
def foremost (key : Snapshot → Int) (may : Snapshot → Prop) (pools : List Snapshot) : Set Nat :=
  {i | ∃ s, pools[i]? = some s ∧ s.eligible = true ∧ may s ∧
    ∀ t ∈ pools, t.eligible = true → may t → key t ≤ key s}

theorem Before.ne (h : Before key pools i j) : i ≠ j := by
  obtain ⟨s, t, hs, ht, hPrecedes⟩ := h
  rintro rfl
  obtain rfl : s = t := Option.some.inj (hs.symm.trans ht)
  unfold Precedes at hPrecedes
  omega

theorem before_of_precedes (hx : x ∈ ranked key pools) (hy : y ∈ ranked key pools)
    (h : Precedes key x y) : Before key pools x.2 y.2 :=
  ⟨x.1, y.1, (mem_ranked.1 hx).1, (mem_ranked.1 hy).1, h⟩

/-- The first so many of the ranked pools are listed first. -/
theorem listsFirst_take (key : Snapshot → Int) (pools : List Snapshot) (k : Nat) :
    ListsFirst key pools k (((ranked key pools).take k).map Prod.snd) := by
  have hMem : ∀ {x}, x ∈ (ranked key pools).take k → x ∈ ranked key pools := List.mem_of_mem_take
  have hOrdered : (((ranked key pools).take k).map Prod.snd).Pairwise (Before key pools) := by
    apply List.pairwise_map.2
    apply ((ranked_ordered key pools).sublist (List.take_sublist _ _)).imp_of_mem
    intro x y hx hy hPrecedes
    exact before_of_precedes (hMem hx) (hMem hy) hPrecedes
  constructor
  case length => rw [List.length_map, List.length_take, length_ranked]
  case distinct => exact hOrdered.imp Before.ne
  case eligible =>
    intro i hi
    obtain ⟨x, hx, rfl⟩ := List.mem_map.1 hi
    exact ⟨x.1, mem_ranked.1 (hMem hx)⟩
  case ordered => exact hOrdered
  case complete =>
    intro i hi j hEligible hLeft
    obtain ⟨x, hx, rfl⟩ := List.mem_map.1 hi
    obtain ⟨t, hAt⟩ := hEligible
    have hRanked : (t, j) ∈ ranked key pools := mem_ranked.2 hAt
    have hParts := ranked_ordered key pools
    have hBoth := hRanked
    rw [← List.take_append_drop k (ranked key pools)] at hParts hBoth
    have hDrop : (t, j) ∈ (ranked key pools).drop k := by
      apply (List.mem_append.1 hBoth).resolve_left
      intro hTake
      exact hLeft (List.mem_map_of_mem hTake)
    have hPrecedes := (List.pairwise_append.1 hParts).2.2 x hx (t, j) hDrop
    exact before_of_precedes (hMem hx) hRanked hPrecedes

section Choice

variable {may : Snapshot → Prop} [DecidablePred may]

theorem isLeast_of_first (h : first key may pools = some i) :
    IsLeast (foremost key may pools) i := by
  obtain ⟨found, hFound, hEligible, hMay⟩ := first_spec h
  have hPrecedes : ∀ {t j}, pools[j]? = some t → t.eligible = true → may t → j ≠ i →
      key t < key found ∨ key t = key found ∧ i < j := precedes_of_first h hFound
  constructor
  · refine ⟨found, hFound, hEligible, hMay, ?_⟩
    intro t ht hEligible hMay
    obtain ⟨j, hj⟩ := List.mem_iff_getElem?.1 ht
    by_cases hSame : j = i
    · subst hSame
      obtain rfl : found = t := Option.some.inj (hFound.symm.trans hj)
      exact le_rfl
    · rcases hPrecedes hj hEligible hMay hSame with hLess | ⟨hEqual, -⟩
      · exact le_of_lt hLess
      · exact le_of_eq hEqual
  · rintro j ⟨t, ht, hEligible', hMay', hLargest⟩
    have hBound := hLargest found (List.mem_of_getElem? hFound) hEligible hMay
    by_contra hEarlier
    have hElsewhere : j ≠ i := by
      rintro rfl
      exact hEarlier le_rfl
    rcases hPrecedes ht hEligible' hMay' hElsewhere with hLess | ⟨-, hLater⟩
    · exact not_le.2 hLess hBound
    · exact hEarlier (le_of_lt hLater)

/-- The first pool is the earliest one with the largest key. -/
theorem first_eq_some : first key may pools = some i ↔ IsLeast (foremost key may pools) i := by
  refine ⟨isLeast_of_first, fun h => ?_⟩
  cases hFirst : first key may pools with
  | none =>
    obtain ⟨s, hs, hEligible, hMay, -⟩ := h.1
    exact absurd hMay (first_eq_none.1 hFirst s (List.mem_of_getElem? hs) hEligible)
  | some j => rw [(isLeast_of_first hFirst).unique h]

end Choice

/-- Up to `k` eligible pools are listed for a deposit, by descending deficit and else by position.
Asking for more goes on with the list, and one pool alone is the earliest eligible one with the
largest deficit. For withdrawals all eligible pools are listed in the same way, by surplus. -/
theorem largest_first (pools : List Snapshot) (k : Nat) :
    ListsFirst Snapshot.deficit pools k (forDeposit pools k) ∧
      (∀ more, forDeposit pools k <+: forDeposit pools (k + more)) ∧
      (depositPool pools = none ↔ ∀ s ∈ pools, s.eligible = false) ∧
      (∀ i, depositPool pools = some i ↔
        IsLeast (foremost Snapshot.deficit (fun _ => True) pools) i) ∧
      ListsFirst Snapshot.surplus pools (pools.countP Snapshot.eligible) (forWithdrawal pools) := by
  refine ⟨listsFirst_take _ pools k, fun more => ?_, ?_, fun i => ?_, ?_⟩
  · exact (List.take_prefix_take_left (Nat.le_add_right k more)).map Prod.snd
  · rw [depositPool_eq, first_eq_none]
    simp only [not_true_eq_false, imp_false, Bool.not_eq_true]
  · rw [depositPool_eq, first_eq_some]
  · have hAll := listsFirst_take Snapshot.surplus pools (ranked Snapshot.surplus pools).length
    rwa [List.take_length, length_ranked] at hAll

/-- Two pools have the same deficit, and the pool with the largest one may not be chosen. -/
theorem largest_first_of_tied :
    let pools : List Snapshot :=
      [⟨.account 1, 100_000, 0, 5, true⟩, ⟨.account 2, 900_000, 0, 5, false⟩,
        ⟨.account 3, 400_000, 0, 5, true⟩, ⟨.account 4, 500_000, 100_000, 5, true⟩]
    forDeposit pools 2 = [2, 3] ∧ forWithdrawal pools = [0, 2, 3] ∧
      ListsFirst Snapshot.deficit pools 2 [2, 3] ∧
      IsLeast (foremost Snapshot.deficit (fun _ => True) pools) 2 ∧
      ListsFirst Snapshot.surplus pools 3 [0, 2, 3] := by
  intro pools
  have hListed : forDeposit pools 2 = [2, 3] := by decide
  have hAll : forWithdrawal pools = [0, 2, 3] := by decide
  obtain ⟨hFirst, -, -, hChosen, hRanked⟩ := largest_first pools 2
  rw [hListed] at hFirst
  rw [hAll] at hRanked
  exact ⟨hListed, hAll, hFirst, (hChosen 2).1 (by decide), hRanked⟩

end Treasury.Pool.Ranking
