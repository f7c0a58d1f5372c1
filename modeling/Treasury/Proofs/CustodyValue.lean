import Treasury.Proofs.Lasting
import Treasury.Proofs.RosterList
import Treasury.Proofs.ValueIdentity

/-! What custody is worth depends on tokens, on adapters and on what the custody contract itself
keeps. What routers and other custody contracts keep stays behind it. If one pool is counted no
longer, all value is less by what that pool was worth. -/
namespace Treasury

open Exec Chain

/-- A contract, but for what a router or a custody contract keeps. -/
def Contract.backdrop : Contract → Contract
  | router _ => router {}
  | custody _ => custody {}
  | x => x

section Backdrop

variable {c c' : Chain} {a t k p : Address} {n : Amount}

/-- A view that goes by a contract, but not by what routers and custody contracts keep. -/
theorem View.contract_bind_congr {β : Type} {f : Contract → View β}
    (h : c.SameBy Contract.backdrop c') (hBlind : ∀ x : Contract, f x.backdrop c = f x c)
    (hRest : ∀ x, f x c' = f x c) :
    (View.contract a >>= f) c' = (View.contract a >>= f) c := by
  have hAt := h a
  cases hx : c.contract? a with
  | none =>
    rw [hx, Option.map_none, Option.map_eq_none_iff] at hAt
    simp only [View.bind_apply, View.contract, hx, hAt]
    rfl
  | some x =>
    rw [hx] at hAt
    obtain ⟨x', hx', hSame⟩ := Option.map_eq_some_iff.1 hAt
    rw [View.bind_of_ok (View.contract_eq_ok.2 hx'), View.bind_of_ok (View.contract_eq_ok.2 hx)]
    calc f x' c' = f x' c := hRest x'
      _ = f x.backdrop c := by rw [← hBlind, hSame]
      _ = f x c := hBlind x

theorem View.books_backdrop (h : c.SameBy Contract.backdrop c') {entry : String} :
    View.books entry t c' = View.books entry t c :=
  View.contract_bind_congr h (fun x => by cases x <;> rfl) fun x => by cases x <;> rfl

theorem Token.balanceOf_backdrop (h : c.SameBy Contract.backdrop c') :
    Token.balanceOf t a c' = Token.balanceOf t a c :=
  View.bind_congr (View.books_backdrop h) fun _ _ => rfl

theorem Yield.vault_backdrop (h : c.SameBy Contract.backdrop c') {entry : String} :
    (View.callee entry a : View Yield.Vault) c' = View.callee entry a c :=
  View.contract_bind_congr h (fun x => by cases x <;> rfl) fun x => by cases x <;> rfl

theorem Yield.convertToAssets_backdrop (h : c.SameBy Contract.backdrop c') :
    Yield.convertToAssets a n c' = Yield.convertToAssets a n c := by
  refine View.bind_congr (vault_backdrop h) fun v _ => ?_
  split
  · rfl
  · refine View.bind_congr ?_ fun _ _ => rfl
    refine View.bind_congr (vault_backdrop h) fun v _ => ?_
    exact View.bind_congr rfl fun _ _ => Token.balanceOf_backdrop h

theorem Strategy.valueOf_backdrop (h : c.SameBy Contract.backdrop c') :
    Strategy.valueOf a p n c' = Strategy.valueOf a p n c := by
  refine View.contract_bind_congr h (fun x => by cases x <;> rfl) fun x => ?_
  cases x with
  | wrapped s =>
    refine View.bind_congr rfl fun vault _ => View.bind_congr rfl fun _ _ => ?_
    exact Yield.convertToAssets_backdrop h
  | _ => rfl

end Backdrop

namespace Custody

variable {c c' : Chain} {k p : Address} {q q' : Custody} {i : Nat} {total : Amount}

/-- What is held of a pool is worth the same by the same adapter. -/
theorem held_backdrop (h : c.SameBy Contract.backdrop c')
    (hAdapter : q'.adapter? p = q.adapter? p) : held q' k p c' = held q k p c := by
  refine View.bind_congr (Token.balanceOf_backdrop h) fun balance _ => ?_
  split
  · rfl
  · rw [valueOf, valueOf, hAdapter]
    cases q.adapter? p with
    | some adapter => exact Strategy.valueOf_backdrop h
    | none => rfl

theorem fold_held_backdrop (h : c.SameBy Contract.backdrop c') (pools : List Address)
    (hAdapters : ∀ p ∈ pools, q'.adapter? p = q.adapter? p) (before : Amount) :
    (pools.foldlM (fun total p => do Amount.add total (← held q' k p)) before : View Amount) c' =
      (pools.foldlM (fun total p => do Amount.add total (← held q k p)) before : View Amount)
        c := by
  induction pools generalizing before with
  | nil => rfl
  | cons p rest ih =>
    obtain ⟨hFirst, hRest⟩ := List.forall_mem_cons.1 hAdapters
    rw [List.foldlM_cons, List.foldlM_cons]
    refine View.bind_congr ?_ fun next _ => ih hRest next
    exact View.bind_congr (held_backdrop h hFirst) fun _ _ => rfl

/-- All value is the same as long as the same pools are counted by the same adapters. -/
theorem totalValue_backdrop (h : c.SameBy Contract.backdrop c')
    (hq : c.contract? k = some (.custody q)) (hq' : c'.contract? k = some (.custody q'))
    (hSupported : q'.supported = q.supported)
    (hAdapters : ∀ p ∈ q.supported.toList, q'.adapter? p = q.adapter? p) :
    totalValue k c' = totalValue k c := by
  rw [totalValue, View.bind_of_ok (View.callee_eq_ok.2 hq'),
    View.bind_of_ok (View.callee_eq_ok.2 hq), hSupported]
  exact fold_held_backdrop h _ hAdapters 0

/-- Without the value of one pool, all value is less by just that. -/
theorem totalValue_closeGap (h : c.SameBy Contract.backdrop c')
    (hq : c.contract? k = some (.custody q)) (hq' : c'.contract? k = some (.custody q'))
    (hAt : q.supported.toList[i]? = some p)
    (hGone : q'.supported.toList = closeGap q.supported.toList i)
    (hAdapters : ∀ p ∈ q'.supported.toList, q'.adapter? p = q.adapter? p)
    (hTotal : totalValue k c = .ok total) :
    ∃ v, held q k p c = .ok v ∧ v ≤ total ∧ totalValue k c' = .ok (total - v) := by
  have hPerm := perm_closeGap hAt
  obtain ⟨hAll, hBound, hSum⟩ := (totalValue_eq_ok hq).1 hTotal
  obtain ⟨v, hv⟩ := hAll p (List.mem_of_getElem? hAt)
  have hHeld : ∀ x ∈ q'.supported.toList, held q' k x c' = held q k x c :=
    fun x hx => held_backdrop h (hAdapters x hx)
  have hSame : q'.supported.toList.map (q'.appraisal k c') =
      q'.supported.toList.map (q.appraisal k c) :=
    List.map_congr_left fun x hx => by rw [appraisal, hHeld x hx, appraisal]
  have hRest : v + Amount.whole (q'.supported.toList.map (q.appraisal k c)) = total := by
    rw [← hSum, Amount.whole_perm (hPerm.map _), List.map_cons, Amount.whole_cons,
      appraisal_of_held hv, hGone]
  refine ⟨v, hv, hRest ▸ Nat.le_add_right _ _, (totalValue_eq_ok hq').2 ⟨fun x hx => ?_, ?_, ?_⟩⟩
  · rw [hHeld x hx]
    exact hAll x (hPerm.mem_iff.2 (List.mem_cons_of_mem _ (hGone ▸ hx)))
  · exact Nat.lt_of_le_of_lt (Nat.sub_le _ _) hBound
  · rw [hSame, ← hRest, Nat.add_sub_cancel_left]

end Custody

end Treasury
