import Treasury.Proofs.After
import Treasury.Token.Interface

/-! The books of tokens. Every operation of a ledger is described by what it does to each balance,
each allowance and the supply. A move of a token changes nothing of its contract but the books, and
nothing of any other contract. -/
namespace Treasury

namespace Token.Ledger

variable {l l' : Ledger} {giver taker owner spender account : Address} {n : Amount}

theorem debit_spec (h : l.debit account n = .ok l') :
    (∀ a, l'.balanceOf a + (if a = account then n else 0) = l.balanceOf a) ∧
      l'.allowances = l.allowances ∧ l'.supply = l.supply := by
  simp only [debit, Result.bind_eq_ok, ensure_eq_ok] at h
  obtain ⟨_, hEnough, ⟨⟩⟩ := h
  refine ⟨fun a => ?_, rfl, rfl⟩
  simp only [balanceOf, Table.read_write] at hEnough ⊢
  split
  · subst a
    exact Nat.sub_add_cancel hEnough
  · rfl

theorem credit_spec (h : l.credit account n = .ok l') :
    (∀ a, l'.balanceOf a = l.balanceOf a + if a = account then n else 0) ∧
      l'.allowances = l.allowances ∧ l'.supply = l.supply := by
  simp only [credit, Result.bind_eq_ok, Amount.add_eq_ok] at h
  obtain ⟨_, ⟨-, rfl⟩, ⟨⟩⟩ := h
  refine ⟨fun a => ?_, rfl, rfl⟩
  simp only [balanceOf, Table.read_write]
  split
  · subst a
    rfl
  · rfl

/-- A transfer takes from the giver what it gives to the taker, who may be the same. -/
theorem transfer_spec (h : l.transfer giver taker n = .ok l') :
    (∀ a, l'.balanceOf a + (if a = giver then n else 0) =
        l.balanceOf a + if a = taker then n else 0) ∧
      l'.allowances = l.allowances ∧ l'.supply = l.supply := by
  simp only [transfer, Result.bind_eq_ok] at h
  obtain ⟨debited, hDebit, hCredit⟩ := h
  obtain ⟨hLess, hAllow, hSupply⟩ := debit_spec hDebit
  obtain ⟨hMore, hAllow', hSupply'⟩ := credit_spec hCredit
  refine ⟨fun a => ?_, hAllow'.trans hAllow, hSupply'.trans hSupply⟩
  rw [hMore a, ← hLess a]
  exact Nat.add_right_comm _ _ _

theorem allowance_approve (l : Ledger) (owner spender : Address) (n : Amount) (o s : Address) :
    (l.approve owner spender n).allowance o s =
      if o = owner ∧ s = spender then n else l.allowance o s := by
  simp only [approve, allowance, Table.read_write, Prod.mk.injEq]

theorem spendAllowance_spec (h : l.spendAllowance owner spender n = .ok l') :
    (∀ o s, l'.allowance o s + (if o = owner ∧ s = spender then n else 0) = l.allowance o s) ∧
      l'.balances = l.balances ∧ l'.supply = l.supply := by
  simp only [spendAllowance, Result.bind_eq_ok, ensure_eq_ok] at h
  obtain ⟨_, hEnough, ⟨⟩⟩ := h
  refine ⟨fun o s => ?_, rfl, rfl⟩
  rw [allowance_approve]
  split
  · next hPair =>
    obtain ⟨rfl, rfl⟩ := hPair
    exact Nat.sub_add_cancel hEnough
  · rfl

/-- A transfer on the strength of an allowance uses up as much of it as it takes. -/
theorem transferFrom_spec (h : l.transferFrom spender owner taker n = .ok l') :
    (∀ a, l'.balanceOf a + (if a = owner then n else 0) =
        l.balanceOf a + if a = taker then n else 0) ∧
      (∀ o s, l'.allowance o s + (if o = owner ∧ s = spender then n else 0) = l.allowance o s) ∧
      l'.supply = l.supply := by
  simp only [transferFrom, Result.bind_eq_ok] at h
  obtain ⟨spent, hSpend, hTransfer⟩ := h
  obtain ⟨hAllow, hBalances, hSupply⟩ := spendAllowance_spec hSpend
  obtain ⟨hMoved, hAllow', hSupply'⟩ := transfer_spec hTransfer
  refine ⟨fun a => ?_, fun o s => ?_, hSupply'.trans hSupply⟩
  · rw [hMoved a, balanceOf, hBalances, balanceOf]
  · rw [allowance, hAllow']
    exact hAllow o s

theorem mint_spec (h : l.mint account n = .ok l') :
    (∀ a, l'.balanceOf a = l.balanceOf a + if a = account then n else 0) ∧
      l'.allowances = l.allowances ∧ l'.supply = l.supply + n := by
  simp only [mint, Result.bind_eq_ok, Amount.add_eq_ok] at h
  obtain ⟨credited, hCredit, _, ⟨-, rfl⟩, ⟨⟩⟩ := h
  obtain ⟨hMore, hAllow, -⟩ := credit_spec hCredit
  exact ⟨hMore, hAllow, rfl⟩

theorem burn_spec (h : l.burn account n = .ok l') :
    (∀ a, l'.balanceOf a + (if a = account then n else 0) = l.balanceOf a) ∧
      l'.allowances = l.allowances ∧ l'.supply + n = l.supply := by
  simp only [burn, Result.bind_eq_ok, Amount.sub_eq_ok] at h
  obtain ⟨debited, hDebit, _, ⟨hEnough, rfl⟩, ⟨⟩⟩ := h
  obtain ⟨hLess, hAllow, -⟩ := debit_spec hDebit
  exact ⟨hLess, hAllow, Nat.sub_add_cancel hEnough⟩

end Token.Ledger

namespace Contract

/-- What a contract is apart from its books. -/
def bare : Contract → Contract
  | stable t => .stable { t with ledger := {}, published := {} }
  | share t => .share { t with ledger := {} }
  | yieldVault v => .yieldVault { v with ledger := {} }
  | fixedRate s => .fixedRate { s with ledger := {} }
  | synthetic s => .synthetic { s with ledger := {} }
  | x => x

@[simp] theorem kind_bare (x : Contract) : x.bare.kind = x.kind := by cases x <;> rfl

end Contract

namespace Chain

/-- A contract has one storage. -/
theorem storage_unique {σ : Type} [Storage σ] {c : Chain} {a : Address} {s t : σ}
    (hs : c.contract? a = some (Storage.wrap s)) (ht : c.contract? a = some (Storage.wrap t)) :
    s = t := by
  have hSame : Storage.wrap s = Storage.wrap t := Option.some.inj (hs.symm.trans ht)
  have hPick := congrArg (Storage.pick (σ := σ)) hSame
  simpa only [Storage.pick_wrap, Option.some.injEq] using hPick

/-- The books of the contract at an address. -/
def books? (c : Chain) (t : Address) : Option Token.Ledger := (c.contract? t).bind Contract.books?

/-- What an address owns of a token. Where no token stands it owns nothing. -/
def balance (c : Chain) (t a : Address) : Nat := ((c.books? t).getD {}).balanceOf a

/-- What an owner lets a spender move of a token. -/
def allowance (c : Chain) (t owner spender : Address) : Nat :=
  ((c.books? t).getD {}).allowance owner spender

/-- All units of a token. -/
def supply (c : Chain) (t : Address) : Nat := ((c.books? t).getD {}).supply

/-- The kind of the contract at an address. -/
def kind? (c : Chain) (a : Address) : Option Contract.Kind := (c.contract? a).map Contract.kind

theorem kind?_of_contract? {c : Chain} {a : Address} {x : Contract}
    (h : c.contract? a = some x) : c.kind? a = some x.kind := by
  rw [kind?, h, Option.map_some]

theorem exists_stable {c : Chain} {t : Address} (h : c.kind? t = some .stable) :
    ∃ u, c.contract? t = some (.stable u) := by
  obtain ⟨x, hx, hKind⟩ := Option.map_eq_some_iff.1 h
  cases x <;> cases hKind
  exact ⟨_, hx⟩

/-- Where there is no contract, none stands. -/
theorem ne_of_contract? {c : Chain} {a b : Address} {x : Contract} (hx : c.contract? a = some x)
    (hb : c.kind? b = none) : b ≠ a := by
  rintro rfl
  rw [kind?_of_contract? hx] at hb
  cases hb

/-- Two chains with the same contracts, which may differ in their books. -/
def Alike (c c' : Chain) : Prop :=
  c'.blank = c.blank ∧ ∀ a, (c'.contract? a).map Contract.bare = (c.contract? a).map Contract.bare

variable {c c₁ c' : Chain} {a t : Address}

theorem Alike.refl (c : Chain) : Alike c c := ⟨rfl, fun _ => rfl⟩

theorem Alike.trans (h : Alike c c₁) (h' : Alike c₁ c') : Alike c c' :=
  ⟨h'.1.trans h.1, fun a => (h'.2 a).trans (h.2 a)⟩

theorem Alike.symm (h : Alike c c') : Alike c' c := ⟨h.1.symm, fun a => (h.2 a).symm⟩

/-- What does not depend on books is the same in both chains. -/
theorem Alike.map {α : Type} (h : Alike c c') {F : Contract → α} (hBare : ∀ x, F x.bare = F x)
    (a : Address) : (c'.contract? a).map F = (c.contract? a).map F := by
  have hMap := congrArg (Option.map F) (h.2 a)
  simpa only [Option.map_map, Function.comp_def, hBare] using hMap

theorem Alike.kind? (h : Alike c c') (a : Address) : c'.kind? a = c.kind? a :=
  h.map Contract.kind_bare a

/-- What a contract is replaced by may look the same from outside. -/
theorem map_put {α : Type} {F : Contract → α} {old new : Contract}
    (hOld : c.contract? a = some old) (hSame : F new = F old) (b : Address) :
    ((c.put a new).contract? b).map F = (c.contract? b).map F := by
  by_cases h : b = a
  · subst h
    rw [contract?_put_self new hOld, hOld, Option.map_some, Option.map_some, hSame]
  · rw [contract?_put_of_ne c new h]

/-- A contract without books is the same in both chains. -/
theorem Alike.contract? (h : Alike c c') {x : Contract} (hx : c.contract? a = some x)
    (hBare : ∀ y, y.bare = x.bare → y = x) : c'.contract? a = some x := by
  have hMap := h.2 a
  rw [hx] at hMap
  obtain ⟨y, hy, hSame⟩ := Option.map_eq_some_iff.1 hMap
  rw [hy, hBare y hSame]

theorem Alike.router (h : Alike c c') {s : Router.State} (hs : c.contract? a = some (.router s)) :
    c'.contract? a = some (.router s) :=
  h.contract? hs fun y hy => by cases y <;> simp_all [Contract.bare]

theorem Alike.custody (h : Alike c c') {q : Custody} (hq : c.contract? a = some (.custody q)) :
    c'.contract? a = some (.custody q) :=
  h.contract? hq fun y hy => by cases y <;> simp_all [Contract.bare]

/-- A fixed-rate adapter keeps its settings. -/
theorem Alike.fixedRate (h : Alike c c') {s : Strategy.FixedRate}
    (hs : c.contract? a = some (.fixedRate s)) :
    ∃ l, c'.contract? a = some (.fixedRate { s with ledger := l }) := by
  have hMap := h.2 a
  rw [hs] at hMap
  obtain ⟨y, hy, hSame⟩ := Option.map_eq_some_iff.1 hMap
  cases y <;> simp only [Contract.bare, reduceCtorEq, Contract.fixedRate.injEq] at hSame
  next s' =>
    refine ⟨s'.ledger, ?_⟩
    rw [hy]
    cases s
    cases s'
    cases hSame
    rfl

/-- Replacing a contract by one that differs in its books only. -/
theorem alike_put {old new : Contract} (hOld : c.contract? a = some old)
    (hBare : new.bare = old.bare) : Alike c (c.put a new) :=
  ⟨rfl, map_put hOld hBare⟩

theorem books?_put {old new : Contract} (hOld : c.contract? a = some old) (t : Address) :
    (c.put a new).books? t = if t = a then new.books? else c.books? t := by
  unfold books?
  split
  · next h =>
    subst h
    rw [contract?_put_self new hOld, Option.bind_some]
  · next h => rw [contract?_put_of_ne c new h]

theorem books?_of_contract? {x : Contract} (h : c.contract? t = some x) :
    c.books? t = x.books? := by
  rw [books?, h, Option.bind_some]

end Chain

open Chain

theorem View.bind_of_ok {α β : Type} {view : View α} {f : α → View β} {c : Chain} {a : α}
    (h : view c = .ok a) : (view >>= f) c = f a c := by
  rw [View.bind_apply, h]
  rfl

/-- Two views come to the same on two chains if their first parts do and all that follows does. -/
theorem View.bind_congr {α β : Type} {view view' : View α} {f f' : α → View β} {c c' : Chain}
    (h : view' c' = view c) (hRest : ∀ a, view c = .ok a → f' a c' = f a c) :
    (view' >>= f') c' = (view >>= f) c := by
  rw [View.bind_apply, View.bind_apply, h]
  cases ha : view c with
  | error e => rfl
  | ok a => exact hRest a ha

/-- What a token with books answers about a balance. -/
theorem Token.balanceOf_eq {c : Chain} {t : Address} (a : Address) {l : Token.Ledger}
    (h : c.books? t = some l) : Token.balanceOf t a c = .ok (c.balance t a) := by
  cases hx : c.contract? t with
  | none => simp [books?, hx] at h
  | some x =>
    have hl : x.books? = some l := (books?_of_contract? hx).symm.trans h
    refine View.bind_eq_ok.2 ⟨l, View.bind_eq_ok.2 ⟨x, View.contract_eq_ok.2 hx, ?_⟩, ?_⟩
    · rw [hl]
      rfl
    · rw [balance, h]
      rfl

/-- What a stable token answers about a balance. -/
theorem Token.balanceOf_stable {c : Chain} {t : Address} (hUnit : c.kind? t = some .stable)
    (a : Address) : Token.balanceOf t a c = .ok (c.balance t a) := by
  obtain ⟨u, hu⟩ := exists_stable hUnit
  exact Token.balanceOf_eq a (books?_of_contract? hu)

theorem Token.balanceOf_ok {c : Chain} {t a : Address} {n : Amount}
    (h : Token.balanceOf t a c = .ok n) : c.balance t a = n := by
  cases hl : c.books? t with
  | some l =>
    rw [Token.balanceOf_eq a hl] at h
    exact Except.ok.inj h
  | none =>
    simp only [Token.balanceOf, View.books, View.bind_eq_ok, View.contract_eq_ok] at h
    obtain ⟨l, ⟨x, hx, hBooks⟩, -⟩ := h
    rw [books?_of_contract? hx] at hl
    rw [hl] at hBooks
    cases hBooks

end Treasury
