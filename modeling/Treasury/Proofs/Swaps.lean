import Mathlib.Logic.Relation
import Treasury.Proofs.Conversion
import Treasury.Proofs.Keys

/-! Which changes of a chain can be swapped. Changes of different contracts can; two changes of one
contract can if what they do to it can. On the books of a token, what different givers hand to one
taker can be handed over in any order, and the published entries are the same in the end. -/
namespace Treasury

namespace Chain

/-- What is done first can be done second, with the same result. -/
def Swaps (R S : Chain → Chain → Prop) : Prop :=
  ∀ c c₁ c₂, R c c₁ → S c₁ c₂ → ∃ c₃, S c c₃ ∧ R c₃ c₂

variable {R R' S S' : Chain → Chain → Prop}

open Relation (Comp)

theorem Swaps.comp_right (h : Swaps R S) (h' : Swaps R S') : Swaps R (Comp S S') := by
  rintro c c₁ c₂ hR ⟨d, hS, hS'⟩
  obtain ⟨e, hFirst, hR⟩ := h c c₁ d hR hS
  obtain ⟨e', hSecond, hR⟩ := h' e d c₂ hR hS'
  exact ⟨e', ⟨e, hFirst, hSecond⟩, hR⟩

theorem Swaps.comp_left (h : Swaps R S) (h' : Swaps R' S) : Swaps (Comp R R') S := by
  rintro c c₁ c₂ ⟨d, hR, hR'⟩ hS
  obtain ⟨e, hS, hSecond⟩ := h' d c₁ c₂ hR' hS
  obtain ⟨e', hS, hFirst⟩ := h c d e hR hS
  exact ⟨e', hS, e, hFirst, hSecond⟩

/-- One contract changes. -/
def Alters (a : Address) (change : Contract → Contract → Prop) (c c' : Chain) : Prop :=
  ∃ old new, c.contract? a = some old ∧ change old new ∧ c' = c.put a new

variable {c c' c₁ : Chain} {a b t : Address} {f g : Contract → Contract → Prop}

theorem put_comm (c : Chain) (x y : Contract) (h : a ≠ b) :
    (c.put a x).put b y = (c.put b y).put a x := by
  unfold put
  simp only [List.map_map]
  congr 1
  refine List.map_congr_left fun entry _ => ?_
  by_cases ha : entry.1 = a
  · subst ha
    simp [h]
  · by_cases hb : entry.1 = b
    · subst hb
      simp [h.symm]
    · simp [ha, hb]

/-- Two changes of one contract are one. -/
theorem alters_comp : Comp (Alters a f) (Alters a g) c c' ↔ Alters a (Comp f g) c c' := by
  constructor
  · rintro ⟨_, ⟨old, mid, hOld, hFirst, rfl⟩, mid', new, hMid, hThen, rfl⟩
    rw [contract?_put_self mid hOld, Option.some.injEq] at hMid
    exact ⟨old, new, hOld, ⟨mid, hFirst, hMid ▸ hThen⟩, put_put c mid new⟩
  · rintro ⟨old, new, hOld, ⟨mid, hFirst, hThen⟩, rfl⟩
    exact ⟨c.put a mid, ⟨old, mid, hOld, hFirst, rfl⟩, mid, new, contract?_put_self mid hOld, hThen,
      (put_put c mid new).symm⟩

theorem swaps_of_ne (h : a ≠ b) : Swaps (Alters a f) (Alters b g) := by
  rintro c _ _ ⟨old, new, hOld, hChange, rfl⟩ ⟨old', new', hOld', hChange', rfl⟩
  rw [contract?_put_of_ne c new h.symm] at hOld'
  refine ⟨c.put b new', ⟨old', new', hOld', hChange', rfl⟩, old, new, ?_, hChange,
    put_comm c new new' h⟩
  rw [contract?_put_of_ne c new' h, hOld]

theorem swaps_of_same (h : ∀ x y z, f x y → g y z → ∃ y', g x y' ∧ f y' z) :
    Swaps (Alters a f) (Alters a g) := by
  intro c c₁ c₂ hFirst hThen
  obtain ⟨x, z, hx, ⟨y, hf, hg⟩, rfl⟩ := alters_comp.1 ⟨c₁, hFirst, hThen⟩
  obtain ⟨y', hg, hf⟩ := h x y z hf hg
  exact alters_comp.2 ⟨x, z, hx, ⟨y', hg, hf⟩, rfl⟩

end Chain

namespace Token

namespace Ledger

variable {l l' l₁ l₂ : Ledger} {giver giver' taker taker' : Address} {n m : Amount}

/-- The books after a giver has handed an amount to another account. -/
def handed (l : Ledger) (giver taker : Address) (n : Amount) : Ledger :=
  { l with
    balances := (l.balances.write giver (l.balanceOf giver - n)).write taker
      (l.balanceOf taker + n) }

/-- Whether a giver can hand an amount to another account. -/
def CanHand (l : Ledger) (giver taker : Address) (n : Amount) : Prop :=
  n ≤ l.balanceOf giver ∧ l.balanceOf taker + n < Amount.bound

theorem balanceOf_handed (l : Ledger) (giver taker : Address) (n : Amount) (a : Address) :
    (l.handed giver taker n).balanceOf a =
      if a = taker then l.balanceOf taker + n
      else if a = giver then l.balanceOf giver - n else l.balanceOf a := by
  simp only [handed, balanceOf, Table.read_write]

/-- A transfer between different accounts. -/
theorem transfer_eq_ok (hNe : taker ≠ giver) : l.transfer giver taker n = .ok l' ↔
    l.CanHand giver taker n ∧ l.handed giver taker n = l' := by
  simp only [transfer, debit, credit, Result.bind_eq_ok, ensure_eq_ok, Amount.add_eq_ok]
  constructor
  · rintro ⟨_, ⟨_, hEnough, ⟨⟩⟩, _, ⟨hRange, rfl⟩, ⟨⟩⟩
    simp only [balanceOf, Table.read_write_of_ne _ _ hNe] at hRange ⊢
    exact ⟨⟨hEnough, hRange⟩, rfl⟩
  · rintro ⟨⟨hEnough, hRange⟩, rfl⟩
    have hSame : (l.balances.write giver (l.balanceOf giver - n)).read taker = l.balanceOf taker :=
      Table.read_write_of_ne _ _ hNe
    exact ⟨_, ⟨(), hEnough, rfl⟩, l.balanceOf taker + n, ⟨by rw [balanceOf, hSame]; exact hRange,
      by rw [balanceOf, hSame]⟩, rfl⟩

/-- Handing over nothing changes nothing. -/
theorem handed_zero (l : Ledger) (giver taker : Address) : l.handed giver taker 0 = l := by
  have hBalances : (l.handed giver taker 0).balances = l.balances := by
    ext a
    have hAt := balanceOf_handed l giver taker 0 a
    simp only [Nat.add_zero, Nat.sub_zero] at hAt
    change (l.handed giver taker 0).balanceOf a = l.balanceOf a
    rw [hAt]
    split
    · next h => rw [h]
    · split
      · next h => rw [h]
      · rfl
  simp only [handed] at hBalances ⊢
  rw [hBalances]

section Parties

variable (hCross : taker ≠ giver') (hCross' : taker' ≠ giver)

include hCross hCross'

/-- What is handed over twice can be handed over in either order, unless one party gives on what it
has taken. Givers may be the same, and so may takers. -/
theorem CanHand.swap (h : l.CanHand giver taker n)
    (h' : (l.handed giver taker n).CanHand giver' taker' m) :
    l.CanHand giver' taker' m ∧ (l.handed giver' taker' m).CanHand giver taker n := by
  simp only [CanHand, balanceOf_handed, if_neg hCross.symm, if_neg hCross'.symm] at h h' ⊢
  grind

theorem handed_comm (h : l.CanHand giver taker n)
    (h' : (l.handed giver taker n).CanHand giver' taker' m) :
    (l.handed giver taker n).handed giver' taker' m =
      (l.handed giver' taker' m).handed giver taker n := by
  have hBalances : ((l.handed giver taker n).handed giver' taker' m).balances =
      ((l.handed giver' taker' m).handed giver taker n).balances := by
    ext a
    change ((l.handed giver taker n).handed giver' taker' m).balanceOf a =
      ((l.handed giver' taker' m).handed giver taker n).balanceOf a
    simp only [CanHand, balanceOf_handed] at h h' ⊢
    grind
  simp only [handed] at hBalances ⊢
  rw [hBalances]

end Parties

theorem transfer_swap (hFirst : taker ≠ giver) (hSecond : taker ≠ giver')
    (h : l.transfer giver taker n = .ok l₁) (h' : l₁.transfer giver' taker m = .ok l₂) :
    ∃ l₃, l.transfer giver' taker m = .ok l₃ ∧ l₃.transfer giver taker n = .ok l₂ := by
  obtain ⟨hCan, rfl⟩ := (transfer_eq_ok hFirst).1 h
  obtain ⟨hCan', rfl⟩ := (transfer_eq_ok hSecond).1 h'
  have hSwap := CanHand.swap hSecond hFirst hCan hCan'
  exact ⟨_, (transfer_eq_ok hSecond).2 ⟨hSwap.1, rfl⟩,
    (transfer_eq_ok hFirst).2 ⟨hSwap.2, (handed_comm hSecond hFirst hCan hCan').symm⟩⟩

end Ledger

namespace Stable

variable {t t' t₁ t₂ : Stable} {giver giver' taker taker' lender : Address} {n m : Amount}

/-- The token after a giver has handed an amount to another account. -/
def handed (t : Stable) (giver taker : Address) (n : Amount) : Stable :=
  (t.setBalance giver (t.ledger.balanceOf giver - n)).setBalance taker
    (t.ledger.balanceOf taker + n)

theorem ledger_handed (t : Stable) (giver taker : Address) (n : Amount) :
    (t.handed giver taker n).ledger = t.ledger.handed giver taker n := rfl

theorem read_handed (t : Stable) (giver taker : Address) (n : Amount) (key : String) :
    (t.handed giver taker n).published.balances.read key =
      if key = taker.keyText then some (t.ledger.balanceOf taker + n)
      else if key = giver.keyText then some (t.ledger.balanceOf giver - n)
      else t.published.balances.read key := rfl

theorem transfer_eq_ok (hNe : taker ≠ giver) : t.transfer giver taker n = .ok t' ↔
    t.ledger.CanHand giver taker n ∧ t.handed giver taker n = t' := by
  have hTaker : (t.setBalance giver (t.ledger.balanceOf giver - n)).ledger.balanceOf taker =
      t.ledger.balanceOf taker := Table.read_write_of_ne _ _ hNe
  simp only [transfer, Result.bind_eq_ok, ensure_eq_ok, Amount.add_eq_ok, hTaker]
  constructor
  · rintro ⟨_, hEnough, total, ⟨hRange, rfl⟩, ⟨⟩⟩
    exact ⟨⟨hEnough, hRange⟩, rfl⟩
  · rintro ⟨⟨hEnough, hRange⟩, rfl⟩
    exact ⟨(), hEnough, _, ⟨hRange, rfl⟩, rfl⟩

/-- What is handed over does not depend on allowances. -/
theorem approve_transfer (t : Stable) (owner spender giver taker : Address) (n m : Amount) :
    (t.approve owner spender n).transfer giver taker m =
      (fun moved => moved.approve owner spender n) <$> t.transfer giver taker m := by
  simp only [transfer, map_bind, map_pure]
  rfl

/-- The later of two allowances of a pair is the one that counts. -/
theorem approve_approve (t : Stable) (owner spender : Address) (n m : Amount) :
    (t.approve owner spender n).approve owner spender m = t.approve owner spender m := by
  simp only [approve, Ledger.approve, Published.setAllowance, Table.write_write]

/-- A lender lets a taker take an amount, the taker takes it, and then is allowed nothing more. -/
def lend (t : Stable) (lender taker : Address) (n : Amount) : Result Stable := do
  let taken ← (t.approve lender taker n).transferFrom taker lender taker n
  pure (taken.approve lender taker 0)

/-- What is lent is handed over. The allowance is written three times, and the last time counts. -/
theorem lend_eq (t : Stable) (lender taker : Address) (n : Amount) :
    t.lend lender taker n =
      (fun moved => moved.approve lender taker 0) <$> t.transfer lender taker n := by
  have hAllowed : (t.approve lender taker n).ledger.allowance lender taker = n := by
    rw [approve, Ledger.allowance_approve, if_pos ⟨rfl, rfl⟩]
  have hEnough : ensure (n ≤ n) .insufficientAllowance = (pure () : Result Unit) :=
    ensure_eq_ok.2 (Nat.le_refl n)
  simp only [lend, transferFrom, hAllowed, hEnough, approve_transfer, ← bind_pure_comp, bind_assoc,
    pure_bind, approve_approve]

/-- The token after a lender has let a taker take an amount. -/
def lent (t : Stable) (lender taker : Address) (n : Amount) : Stable :=
  (t.handed lender taker n).approve lender taker 0

theorem lend_eq_ok (hNe : taker ≠ lender) : t.lend lender taker n = .ok t' ↔
    t.ledger.CanHand lender taker n ∧ t.lent lender taker n = t' := by
  rw [lend_eq, Result.map_eq_ok]
  simp only [transfer_eq_ok hNe]
  constructor
  · rintro ⟨_, ⟨hCan, rfl⟩, rfl⟩
    exact ⟨hCan, rfl⟩
  · rintro ⟨hCan, rfl⟩
    exact ⟨_, ⟨hCan, rfl⟩, rfl⟩

section Parties

variable (hCross : taker ≠ giver') (hCross' : taker' ≠ giver)
  (h : t.ledger.CanHand giver taker n)
  (h' : (t.ledger.handed giver taker n).CanHand giver' taker' m)

include hCross hCross' h h'

/-- What is published of two amounts handed over does not depend on their order either: each entry
shows what its account owns in the end. -/
theorem handed_comm : (t.handed giver taker n).handed giver' taker' m =
    (t.handed giver' taker' m).handed giver taker n := by
  have hLedger := Ledger.handed_comm hCross hCross' h h'
  have hPublished : ((t.handed giver taker n).handed giver' taker' m).published.balances =
      ((t.handed giver' taker' m).handed giver taker n).published.balances := by
    ext key : 1
    simp only [read_handed, ledger_handed]
    simp only [Ledger.CanHand, Ledger.balanceOf_handed] at h h' ⊢
    grind [Address.keyText_inj]
  calc (t.handed giver taker n).handed giver' taker' m
    _ = { t with
          ledger := (t.ledger.handed giver taker n).handed giver' taker' m
          published := { t.published with
            balances := ((t.handed giver taker n).handed giver' taker' m).published.balances } } :=
      rfl
    _ = (t.handed giver' taker' m).handed giver taker n := by
      rw [hLedger, hPublished]
      rfl

end Parties

theorem approve_comm (t : Stable) {spender spender' : Address} (hNe : spender ≠ spender') :
    (t.approve lender spender n).approve lender spender' m =
      (t.approve lender spender' m).approve lender spender n := by
  have hPair : (lender, spender) ≠ (lender, spender') := by simp [hNe]
  have hKey : lender.pairKeyText spender ≠ lender.pairKeyText spender' := by
    simp [Address.pairKeyText_inj, hNe]
  simp only [approve, Ledger.approve, Published.setAllowance]
  rw [Table.write_comm _ _ _ hPair, Table.write_comm _ _ _ hKey]

/-- A lender may let two takers take in either order. -/
theorem lend_swap (hTakers : taker ≠ taker') (hFirst : taker ≠ lender) (hSecond : taker' ≠ lender)
    (h : t.lend lender taker n = .ok t₁) (h' : t₁.lend lender taker' m = .ok t₂) :
    ∃ t₃, t.lend lender taker' m = .ok t₃ ∧ t₃.lend lender taker n = .ok t₂ := by
  obtain ⟨hCan, rfl⟩ := (lend_eq_ok hFirst).1 h
  obtain ⟨hCan', rfl⟩ := (lend_eq_ok hSecond).1 h'
  have hSwap := Ledger.CanHand.swap hFirst hSecond hCan hCan'
  refine ⟨_, (lend_eq_ok hSecond).2 ⟨hSwap.1, rfl⟩, (lend_eq_ok hFirst).2 ⟨hSwap.2, ?_⟩⟩
  change (((t.handed lender taker' m).handed lender taker n).approve lender taker' 0).approve lender
    taker 0 = (((t.handed lender taker n).handed lender taker' m).approve lender taker 0).approve
      lender taker' 0
  rw [handed_comm hFirst hSecond hCan hCan', approve_comm _ hTakers]

/-- Two givers may hand to one taker in either order. -/
theorem transfer_swap (hFirst : taker ≠ giver) (hSecond : taker ≠ giver')
    (h : t.transfer giver taker n = .ok t₁) (h' : t₁.transfer giver' taker m = .ok t₂) :
    ∃ t₃, t.transfer giver' taker m = .ok t₃ ∧ t₃.transfer giver taker n = .ok t₂ := by
  obtain ⟨hCan, rfl⟩ := (transfer_eq_ok hFirst).1 h
  obtain ⟨hCan', rfl⟩ := (transfer_eq_ok hSecond).1 h'
  have hSwap := Ledger.CanHand.swap hSecond hFirst hCan hCan'
  exact ⟨_, (transfer_eq_ok hSecond).2 ⟨hSwap.1, rfl⟩,
    (transfer_eq_ok hFirst).2 ⟨hSwap.2, (handed_comm hSecond hFirst hCan hCan').symm⟩⟩

end Stable

end Token

namespace Contract

variable {x y z : Contract} {giver giver' taker : Address} {n m : Amount}

open Token (Move)

/-- What can be swapped on the books can be swapped on the contract that keeps them. -/
theorem keepBooks_swap {f g : Token.Stable → Result Token.Stable}
    {f' g' : Token.Ledger → Result Token.Ledger}
    (hStable : ∀ t t₁ t₂, f t = .ok t₁ → g t₁ = .ok t₂ → ∃ t₃, g t = .ok t₃ ∧ f t₃ = .ok t₂)
    (hLedger : ∀ l l₁ l₂, f' l = .ok l₁ → g' l₁ = .ok l₂ → ∃ l₃, g' l = .ok l₃ ∧ f' l₃ = .ok l₂)
    (h : x.keepBooks f f' = some (.ok y)) (h' : y.keepBooks g g' = some (.ok z)) :
    ∃ y', x.keepBooks g g' = some (.ok y') ∧ y'.keepBooks f f' = some (.ok z) := by
  cases x with
  | stable t =>
    simp only [keepBooks, Option.some.injEq, Result.bind_eq_ok] at h
    obtain ⟨t₁, hFirst, ⟨⟩⟩ := h
    simp only [keepBooks, Option.some.injEq, Result.bind_eq_ok] at h'
    obtain ⟨t₂, hThen, ⟨⟩⟩ := h'
    obtain ⟨t₃, hThen, hFirst⟩ := hStable _ _ _ hFirst hThen
    refine ⟨.stable t₃, ?_, ?_⟩
    · rw [keepBooks, hThen]
      rfl
    · rw [keepBooks, hFirst]
      rfl
  | share t | yieldVault t | fixedRate t | synthetic t =>
    simp only [keepBooks, Option.some.injEq, Result.bind_eq_ok] at h
    obtain ⟨l₁, hFirst, ⟨⟩⟩ := h
    simp only [keepBooks, Option.some.injEq, Result.bind_eq_ok] at h'
    obtain ⟨l₂, hThen, ⟨⟩⟩ := h'
    obtain ⟨l₃, hThen, hFirst⟩ := hLedger _ _ _ hFirst hThen
    refine ⟨_, by rw [keepBooks, hThen]; rfl, ?_⟩
    rw [keepBooks, hFirst]
    rfl
  | wrapped | custody | router | registry | roles | ledger =>
    simp only [keepBooks, reduceCtorEq] at h

end Contract

namespace Chain

variable {giver giver' taker owner spender s t : Address} {n m : Amount}

/-- Transfers of tokens from two givers to one taker can be swapped, whatever the tokens. -/
theorem swaps_transfers (hFirst : taker ≠ giver) (hSecond : taker ≠ giver') :
    Swaps (Moves · s (.transfer giver taker n) ·) (Moves · t (.transfer giver' taker m) ·) := by
  by_cases h : s = t
  · subst h
    exact swaps_of_same fun x y z => Contract.keepBooks_swap
      (fun _ _ _ => Token.Stable.transfer_swap hFirst hSecond)
      (fun _ _ _ => Token.Ledger.transfer_swap hFirst hSecond)
  · exact swaps_of_ne h

theorem swaps_approve_transfer :
    Swaps (Moves · s (.approve owner spender n) ·) (Moves · t (.transfer giver taker m) ·) := by
  by_cases h : s = t
  · subst h
    refine swaps_of_same fun x y z => Contract.keepBooks_swap ?_ ?_
    · rintro u _ u₂ ⟨⟩ (hMove : (u.approve owner spender n).transfer giver taker m = .ok u₂)
      rw [Token.Stable.approve_transfer, Result.map_eq_ok] at hMove
      obtain ⟨u₁, hFirst, rfl⟩ := hMove
      exact ⟨u₁, hFirst, rfl⟩
    · rintro l _ l₂ ⟨⟩ (hMove : (l.approve owner spender n).transfer giver taker m = .ok l₂)
      rw [Token.Ledger.approve_transfer, Result.map_eq_ok] at hMove
      obtain ⟨l₁, hFirst, rfl⟩ := hMove
      exact ⟨l₁, hFirst, rfl⟩
  · exact swaps_of_ne h

theorem swaps_transfer_approve :
    Swaps (Moves · t (.transfer giver taker m) ·) (Moves · s (.approve owner spender n) ·) := by
  by_cases h : t = s
  · subst h
    refine swaps_of_same fun x y z => Contract.keepBooks_swap ?_ ?_
    · rintro u u₁ _ hMove ⟨⟩
      refine ⟨_, rfl, (u.approve_transfer owner spender giver taker n m).trans ?_⟩
      exact Result.map_eq_ok.2 ⟨u₁, hMove, rfl⟩
    · rintro l l₁ _ hMove ⟨⟩
      refine ⟨_, rfl, (l.approve_transfer owner spender giver taker n m).trans ?_⟩
      exact Result.map_eq_ok.2 ⟨l₁, hMove, rfl⟩
  · exact swaps_of_ne h

end Chain

end Treasury
