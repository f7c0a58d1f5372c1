import Mathlib.Algebra.BigOperators.Group.List.Basic
import Mathlib.Algebra.Group.Int.Defs
import Mathlib.Algebra.Group.Pi.Basic
import Mathlib.Algebra.Notation.Pi.Basic
import Mathlib.Tactic.Abel
import Treasury.Proofs.FixedLegs
import Treasury.Proofs.Releases

/-! What is posted to the books. Every balance, every allowance and every supply is an entry, and a
posting says for each entry by how much it changes. Postings are added up as changes follow each
other, and what goes in and out again cancels; so a posting that names a few entries also says that
no other entry changes. -/
namespace Treasury

open Exec Chain

namespace Token

/-- One number in the books of a token. -/
inductive Entry where
  | balance (token account : Address)
  | allowance (token owner spender : Address)
  | supply (token : Address)
deriving DecidableEq, Repr

/-- By how much each entry changes. -/
abbrev Posting := Entry → Int

namespace Entry

/-- The token whose books the entry stands in. -/
def token : Entry → Address
  | balance t _ | allowance t _ _ | supply t => t

/-- The entry rises by an amount, and no other entry changes. -/
def gains (e : Entry) (n : Nat) : Posting := Pi.single e (n : Int)

theorem gains_apply (e x : Entry) (n : Nat) : e.gains n x = if x = e then (n : Int) else 0 :=
  Pi.single_apply e (n : Int) x

@[simp] theorem gains_zero (e : Entry) : e.gains 0 = 0 := Pi.single_zero e

theorem gains_add (e : Entry) (m n : Nat) : e.gains (m + n) = e.gains m + e.gains n := by
  funext x
  simp only [Pi.add_apply, gains_apply]
  split <;> simp

theorem gains_sub (e : Entry) {m n : Nat} (h : n ≤ m) :
    e.gains (m - n) = e.gains m - e.gains n := by
  rw [eq_sub_iff_add_eq, ← gains_add, Nat.sub_add_cancel h]

end Entry

namespace Ledger

/-- What an entry shows in the books of its token. -/
def entry (l : Ledger) : Entry → Nat
  | .balance _ a => l.balanceOf a
  | .allowance _ o s => l.allowance o s
  | .supply _ => l.supply

/-- The books of the token at an address change by a posting, which says nothing of other books. -/
structure Nets (l : Ledger) (t : Address) (f : Posting) (l' : Ledger) : Prop where
  shows : ∀ e : Entry, e.token = t → (l'.entry e : Int) = l.entry e + f e
  elsewhere : ∀ e : Entry, e.token ≠ t → f e = 0

variable {l l₁ l' : Ledger} {giver taker account owner spender initiator pool keeper : Address}
  {n : Amount} {f g : Posting}

theorem Nets.trans {t : Address} (h : l.Nets t f l₁) (h' : l₁.Nets t g l') :
    l.Nets t (f + g) l' where
  shows e he := by rw [h'.shows e he, h.shows e he, Pi.add_apply, Int.add_assoc]
  elsewhere e he := by rw [Pi.add_apply, h.elsewhere e he, h'.elsewhere e he, Int.add_zero]

theorem nets_transfer (t : Address) (h : l.transfer giver taker n = .ok l') :
    l.Nets t ((Entry.balance t taker).gains n - (Entry.balance t giver).gains n) l' := by
  obtain ⟨hMoved, hAllowances, hSupply⟩ := transfer_spec h
  refine ⟨?_, fun e he => by cases e <;> simp_all [Entry.gains_apply, Entry.token]⟩
  rintro e rfl
  simp only [Pi.sub_apply, Entry.gains_apply]
  cases e with
  | balance _ a =>
    have hAt := hMoved a
    simp only [entry, Entry.token, Entry.balance.injEq, true_and]
    grind
  | allowance _ o s => simp [entry, allowance, hAllowances]
  | supply _ => simp [entry, hSupply]

theorem nets_approve (t : Address) (l : Ledger) (owner spender : Address) (n : Amount) :
    l.Nets t ((Entry.allowance t owner spender).gains n -
      (Entry.allowance t owner spender).gains (l.allowance owner spender))
      (l.approve owner spender n) := by
  refine ⟨?_, fun e he => by cases e <;> simp_all [Entry.gains_apply, Entry.token]⟩
  rintro e rfl
  simp only [Pi.sub_apply, Entry.gains_apply]
  cases e with
  | allowance _ o s =>
    simp only [entry, Entry.token, Entry.allowance.injEq, true_and, allowance_approve]
    split_ifs with hSame
    · obtain ⟨rfl, rfl⟩ := hSame
      omega
    · omega
  | balance | supply => simp [entry, approve, balanceOf]

theorem nets_spendAllowance (t : Address) (h : l.spendAllowance owner spender n = .ok l') :
    l.Nets t (-(Entry.allowance t owner spender).gains n) l' := by
  obtain ⟨hSpent, hBalances, hSupply⟩ := spendAllowance_spec h
  refine ⟨?_, fun e he => by cases e <;> simp_all [Entry.gains_apply, Entry.token]⟩
  rintro e rfl
  simp only [Pi.neg_apply, Entry.gains_apply]
  cases e with
  | allowance _ o s =>
    have hAt := hSpent o s
    simp only [entry, Entry.token, Entry.allowance.injEq, true_and]
    grind
  | balance _ a => simp [entry, balanceOf, hBalances]
  | supply _ => simp [entry, hSupply]

theorem nets_transferFrom (t : Address) (h : l.transferFrom spender owner taker n = .ok l') :
    l.Nets t ((Entry.balance t taker).gains n - (Entry.balance t owner).gains n -
      (Entry.allowance t owner spender).gains n) l' := by
  obtain ⟨spent, hSpend, hTransfer⟩ := Result.bind_eq_ok.1 h
  have hPosts := (nets_spendAllowance t hSpend).trans (nets_transfer t hTransfer)
  convert hPosts using 1
  abel

theorem nets_mint (t : Address) (h : l.mint account n = .ok l') :
    l.Nets t ((Entry.balance t account).gains n + (Entry.supply t).gains n) l' := by
  obtain ⟨hMore, hAllowances, hSupply⟩ := mint_spec h
  refine ⟨?_, fun e he => by cases e <;> simp_all [Entry.gains_apply, Entry.token]⟩
  rintro e rfl
  simp only [Pi.add_apply, Entry.gains_apply]
  cases e with
  | balance _ a =>
    simp only [entry, Entry.token, Entry.balance.injEq, true_and, hMore, reduceCtorEq, if_false]
    split_ifs <;> omega
  | allowance _ o s => simp [entry, allowance, hAllowances]
  | supply _ => simp [entry, Entry.token, hSupply]

theorem nets_burn (t : Address) (h : l.burn account n = .ok l') :
    l.Nets t (-(Entry.balance t account).gains n - (Entry.supply t).gains n) l' := by
  obtain ⟨hLess, hAllowances, hSupply⟩ := burn_spec h
  refine ⟨?_, fun e he => by cases e <;> simp_all [Entry.gains_apply, Entry.token]⟩
  rintro e rfl
  simp only [Pi.sub_apply, Pi.neg_apply, Entry.gains_apply]
  cases e with
  | balance _ a =>
    have hAt := hLess a
    simp only [entry, Entry.token, Entry.balance.injEq, true_and, reduceCtorEq, if_false]
    grind
  | allowance _ o s => simp [entry, allowance, hAllowances]
  | supply _ =>
    simp only [entry, Entry.token, if_true, reduceCtorEq, if_false]
    grind

/-- An initiator that is not the owner uses up as much of its allowance as it burns. -/
theorem nets_burnFrom (t : Address) (h : l.burnFrom initiator owner n = .ok l') :
    l.Nets t (-(Entry.balance t owner).gains n - (Entry.supply t).gains n -
      if initiator = owner then 0 else (Entry.allowance t owner initiator).gains n) l' := by
  by_cases hSelf : initiator = owner
  · subst hSelf
    rw [burnFrom_self] at h
    rw [if_pos rfl, sub_zero]
    exact nets_burn t h
  · simp only [burnFrom, if_neg hSelf, Result.bind_eq_ok] at h
    obtain ⟨spent, hSpend, hBurn⟩ := h
    rw [if_neg hSelf]
    convert (nets_spendAllowance t hSpend).trans (nets_burn t hBurn) using 1
    abel

/-- A pool that takes shares back leaves no allowance, if there was none. -/
theorem nets_reclaim (t : Address) (h : l.reclaim pool keeper taker n = .ok l')
    (hNone : l.allowance taker pool = 0) :
    l.Nets t (-(Entry.balance t keeper).gains n - (Entry.supply t).gains n) l' := by
  simp only [reclaim, Strategy.takeShares, Result.bind_eq_ok] at h
  obtain ⟨given, hGive, taken, ⟨spent, hSpend, hBurn⟩, ⟨⟩⟩ := h
  have hGiven : given.allowance taker pool = 0 := by
    rw [allowance, (transfer_spec hGive).2.1, ← allowance, hNone]
  have hTaken : taken.allowance taker pool = 0 := by
    have hSpent := (spendAllowance_spec hSpend).1 taker pool
    rw [if_pos ⟨rfl, rfl⟩, allowance_approve, if_pos ⟨rfl, rfl⟩] at hSpent
    rw [allowance, (burn_spec hBurn).2.1, ← allowance]
    exact Nat.add_right_cancel (hSpent.trans (Nat.zero_add n).symm)
  have hGrant := nets_approve t given taker pool n
  have hEnd := nets_approve t taken taker pool 0
  rw [hGiven, Entry.gains_zero, sub_zero] at hGrant
  rw [hTaken, sub_self] at hEnd
  convert ((((nets_transfer t hGive).trans hGrant).trans (nets_spendAllowance t hSpend)).trans
    (nets_burn t hBurn)).trans hEnd using 1
  abel

end Ledger

/-- To lend changes no settings. -/
theorem Stable.bare_lend {u u' : Stable} {lender taker : Address} {n : Amount}
    (h : u.lend lender taker n = .ok u') :
    (Contract.stable u').bare = (Contract.stable u).bare := by
  rw [lend_eq, Result.map_eq_ok] at h
  obtain ⟨moved, hMove, rfl⟩ := h
  exact ((transfer_writes hMove).allowance lender taker 0).bare

/-- What a lender lets a taker take goes from one to the other, and no allowance is left if there
was none. -/
theorem Stable.nets_lend {t : Address} {u u' : Stable} {lender taker : Address} {n : Amount}
    (h : u.lend lender taker n = .ok u') (hNone : u.ledger.allowance lender taker = 0) :
    u.ledger.Nets t ((Entry.balance t taker).gains n - (Entry.balance t lender).gains n)
      u'.ledger := by
  rw [lend_eq, Result.map_eq_ok] at h
  obtain ⟨moved, hMove, rfl⟩ := h
  have hTransfer : u.ledger.transfer lender taker n = .ok moved.ledger := by
    rw [← ledger_transfer, hMove]
    rfl
  have hStill : moved.ledger.allowance lender taker = 0 := by
    rw [Ledger.allowance, (Ledger.transfer_spec hTransfer).2.1]
    exact hNone
  have hEnd := moved.ledger.nets_approve t lender taker 0
  rw [hStill, sub_self] at hEnd
  have hPosts := (Ledger.nets_transfer t hTransfer).trans hEnd
  rwa [add_zero] at hPosts

end Token

open Token (Entry Posting Ledger)

namespace Chain

/-- What an entry of the books shows. -/
def entry (c : Chain) (e : Entry) : Nat := ((c.books? e.token).getD {}).entry e

theorem entry_balance (c : Chain) (t a : Address) : c.entry (.balance t a) = c.balance t a := rfl

/-- Nothing but books changes, and those of all tokens change by a posting. -/
structure Nets (c : Chain) (f : Posting) (c' : Chain) : Prop where
  alike : Alike c c'
  shows : ∀ e, (c'.entry e : Int) = c.entry e + f e

variable {c c₁ c' : Chain} {f g : Posting} {a t giver taker owner spender : Address} {n : Amount}
  {old new : Contract} {l l' : Ledger}

theorem Nets.trans (h : c.Nets f c₁) (h' : c₁.Nets g c') : c.Nets (f + g) c' where
  alike := h.alike.trans h'.alike
  shows e := by rw [h'.shows e, h.shows e, Pi.add_apply, Int.add_assoc]

theorem Nets.refl (c : Chain) : c.Nets 0 c where
  alike := .refl c
  shows _ := (Int.add_zero _).symm

/-- If one token keeps its books anew, what changes in them is posted. -/
theorem nets_of_books (hAlike : Alike c c') (hl : c.books? t = some l) (hl' : c'.books? t = some l')
    (hOther : ∀ b, b ≠ t → c'.books? b = c.books? b) (h : l.Nets t f l') : c.Nets f c' := by
  refine ⟨hAlike, fun e => ?_⟩
  by_cases hAt : e.token = t
  · rw [entry, entry, hAt, hl, hl']
    exact h.shows e hAt
  · rw [entry, hOther _ hAt, ← entry, h.elsewhere e hAt, Int.add_zero]

theorem nets_put (hOld : c.contract? t = some old) (hBare : new.bare = old.bare)
    (hl : old.books? = some l) (hl' : new.books? = some l') (h : l.Nets t f l') :
    c.Nets f (c.put t new) := by
  refine nets_of_books (alike_put hOld hBare) ((books?_of_contract? hOld).trans hl) ?_
    (fun b hb => ?_) h
  · rw [books?_put hOld, if_pos rfl, hl']
  · rw [books?_put hOld, if_neg hb]

theorem Moves.nets_transfer (h : c.Moves t (.transfer giver taker n) c') :
    c.Nets ((Entry.balance t taker).gains n - (Entry.balance t giver).gains n) c' := by
  obtain ⟨l, l', hl, hMove, hl'⟩ := h.spec
  exact nets_of_books h.alike hl hl' (fun _ => h.books_frame) (Ledger.nets_transfer t hMove)

theorem Moves.nets_transferFrom (h : c.Moves t (.transferFrom spender owner taker n) c') :
    c.Nets ((Entry.balance t taker).gains n - (Entry.balance t owner).gains n -
      (Entry.allowance t owner spender).gains n) c' := by
  obtain ⟨l, l', hl, hMove, hl'⟩ := h.spec
  exact nets_of_books h.alike hl hl' (fun _ => h.books_frame) (Ledger.nets_transferFrom t hMove)

/-- The chain once a router has counted an amount as fees collected. -/
def collecting (c : Chain) (r : Address) (n : Nat) : Chain :=
  c.put r (.router { c.routing r with fees :=
    { (c.routing r).fees with collected := (c.routing r).fees.collected + n } })

theorem put_eq_collecting {s s' : Router.State} (hs : c.contract? a = some (.router s))
    (hCollect : s.collect n = .ok s') : c.put a (.router s') = c.collecting a n := by
  obtain ⟨_, hAdd, ⟨⟩⟩ := Result.bind_eq_ok.1 hCollect
  obtain ⟨-, rfl⟩ := Amount.add_eq_ok.1 hAdd
  rw [collecting, routing_of hs]

/-- What is posted does not depend on what a router has counted. -/
theorem Nets.collecting {s : Router.State} (h : c.Nets f c')
    (hs : c.contract? a = some (.router s)) (n : Nat) :
    (c.collecting a n).Nets f (c'.collecting a n) := by
  have hs' := h.alike.router hs
  rw [Chain.collecting, Chain.collecting, routing_of hs, routing_of hs']
  refine ⟨⟨h.alike.1, fun b => ?_⟩, fun e => ?_⟩
  · by_cases hb : b = a
    · subst hb
      rw [contract?_put_self _ hs, contract?_put_self _ hs']
    · rw [contract?_put_of_ne _ _ hb, contract?_put_of_ne _ _ hb, h.alike.2 b]
  · rw [entry, entry, books?_put_same hs (by rfl), books?_put_same hs' (by rfl)]
    exact h.shows e

end Chain

namespace Wiring

variable {w : Wiring} {c c' : Chain} {p t : Address} {n shares : Amount} {s : Router.State}
  {q : Custody}

/-- What a deposit into a fixed-rate pool posts. -/
theorem Stands.nets_enters (h : w.Stands c s q) (hCounts : q.supports p = true)
    (hEnters : w.Enters p n shares c c') :
    c.Nets ((Entry.balance w.stable p).gains n - (Entry.balance w.stable w.router).gains n +
      (Entry.balance p w.custody).gains shares + (Entry.supply p).gains shares) c' := by
  obtain ⟨u, hu⟩ := h.fixed.complete.stable
  obtain ⟨-, x, hx⟩ := h.fixed.pools _ hCounts
  have hNe := h.fixed.stable_ne hCounts
  obtain ⟨u', l, hLend, -, -, -, -, -, -, hMint, rfl⟩ := (enters_iff hu hx hNe).1 hEnters
  have hNone : u.ledger.allowance w.router p = 0 := by
    have hReserved := h.reserved w.stable p (by simp [kind?_of_contract? hu, Contract.kind])
    rwa [allowance, books?_of_contract? hu] at hReserved
  have hx' := (contract?_put_of_ne c (.stable u') hNe).trans hx
  have hLent : c.Nets _ (c.put w.stable (.stable u')) :=
    nets_put hu (Token.Stable.bare_lend hLend) rfl rfl (Token.Stable.nets_lend hLend hNone)
  have hMinted : (c.put w.stable (.stable u')).Nets _
      ((c.put w.stable (.stable u')).put p (.fixedRate { x with ledger := l })) :=
    nets_put hx' rfl rfl rfl (Ledger.nets_mint p hMint)
  convert hLent.trans hMinted using 1
  abel

/-- What is posted when a payer's own stable is deposited into a pool: the payer lets the router
take it, the pool has it, and custody has shares for it. -/
def brought (w : Wiring) (payer p : Address) (n shares : Nat) : Posting :=
  (Entry.balance w.stable p).gains n - (Entry.balance w.stable payer).gains n -
    (Entry.allowance w.stable payer w.router).gains n +
    (Entry.balance p w.custody).gains shares + (Entry.supply p).gains shares

/-- What the router has taken from a payer goes through it into the pool. -/
theorem Stands.nets_brought {c₁ : Chain} {payer : Address} (h : w.Stands c₁ s q)
    (hCounts : q.supports p = true)
    (hPull : c.Moves w.stable (.transferFrom w.router payer w.router n) c₁)
    (hEnters : w.Enters p n shares c₁ c') : c.Nets (w.brought payer p n shares) c' := by
  unfold brought
  convert hPull.nets_transferFrom.trans (h.nets_enters hCounts hEnters) using 1
  abel

/-- What is brought to one pool changes nobody's balance of another. -/
theorem brought_elsewhere {x payer : Address} (hStable : x ≠ w.stable) (hPool : x ≠ p)
    (a : Address) : w.brought payer p n shares (.balance x a) = 0 := by
  simp [brought, Entry.gains_apply, hStable, hPool]

/-- What a fixed-rate pool posts that takes shares back from the custody contract, and pays for
them. -/
def released (w : Wiring) (p : Address) (shares paid : Nat) : Posting :=
  -(Entry.balance p w.custody).gains shares - (Entry.supply p).gains shares -
    (Entry.balance w.stable p).gains paid

/-- A pool may owe nothing in another token, and then no other token changes. -/
theorem Stands.nets_departs (h : w.Stands c s q) (hCounts : q.supports p = true)
    (hDeparts : w.Departs p t shares n c c') :
    c.Nets ((Entry.balance w.stable w.router).gains n + w.released p shares n) c' := by
  obtain ⟨-, x, hx⟩ := h.fixed.pools _ hCounts
  obtain ⟨l, -, -, -, hToken, hReclaim, hPay⟩ := (departs_iff hx).1 hDeparts
  have hNone : x.ledger.allowance w.router p = 0 := by
    have hReserved := h.reserved p p (by simp [kind?_of_contract? hx, Contract.kind])
    rwa [allowance, books?_of_contract? hx] at hReserved
  have hTaken : c.Nets _ (c.put p (.fixedRate { x with ledger := l })) :=
    nets_put hx rfl rfl rfl (Ledger.nets_reclaim p hReclaim hNone)
  unfold released
  convert hTaken.trans hPay.nets_transfer using 1
  rcases hToken with rfl | rfl
  · abel
  · simp only [Entry.gains_zero]
    abel

/-- What is posted when shares of the treasury are burned. An initiator that is not the owner uses
up what the owner allows it. -/
def burned (w : Wiring) (initiator owner : Address) (n : Nat) : Posting :=
  -(Entry.balance w.share owner).gains n - (Entry.supply w.share).gains n -
    if initiator = owner then 0 else (Entry.allowance w.share owner initiator).gains n

theorem nets_retire {t t' : ShareToken} {initiator owner : Address}
    (ht : c.contract? w.share = some (.share t)) (hRetire : t.retire initiator owner n = .ok t') :
    c.Nets (w.burned initiator owner n) (c.put w.share (.share t')) := by
  obtain ⟨l, hBurn, rfl⟩ := ShareToken.retire_spec hRetire
  exact nets_put ht rfl rfl rfl (Ledger.nets_burnFrom w.share hBurn)

/-- What a withdrawal posts on the side of those who are paid: the receiver gets the net amount, and
the router keeps the rest. -/
def settled (w : Wiring) (receiver : Address) (net kept : Nat) : Posting :=
  (Entry.balance w.stable receiver).gains net + (Entry.balance w.stable w.router).gains kept

/-- The router keeps what it has been paid and does not pay out. -/
theorem settled_sub {net paid : Nat} (h : net ≤ paid) (receiver : Address) :
    w.settled receiver net (paid - net) = (Entry.balance w.stable w.router).gains paid +
      ((Entry.balance w.stable receiver).gains net -
        (Entry.balance w.stable w.router).gains net) := by
  rw [settled, Entry.gains_sub _ h]
  abel

end Wiring

namespace Wiring.Stands

variable {w : Wiring} {c c' : Chain} {s : Router.State} {q : Custody} {f : Router.Frame}
  {config : Pool.Config} {n shares paid : Amount} {es : List (Address × Event)}

/-- A leg that names pool shares: these are taken back, and what they are worth is paid. -/
theorem nets_withdrawShares (h : w.Stands c s q) (hSelf : f.self = w.router)
    (hAdapter : q.supports config.pool = true → config.adapter = config.pool)
    (hEnds : Ends (Router.withdrawShares f config shares) c paid c' es) :
    q.supports config.pool = true ∧ ∃ x, c.contract? config.pool = some (.fixedRate x) ∧
      paid = shares * x.rate / rateScale ∧ c.Nets
        ((Entry.balance w.stable w.router).gains paid + w.released config.pool shares paid) c' := by
  obtain ⟨hCounts, ⟨t, hDeparts⟩, -⟩ := Router.departs_of_ends h hSelf hAdapter hEnds
  obtain ⟨-, x, hx⟩ := h.fixed.pools _ hCounts
  obtain ⟨_, -, hOwed, -⟩ := (departs_iff hx).1 hDeparts
  obtain ⟨-, -, rfl⟩ := Amount.mulDiv_eq_ok.1 hOwed
  exact ⟨hCounts, x, hx, rfl, h.nets_departs hCounts hDeparts⟩

/-- A leg that names an amount: enough shares are taken back, and what they are worth is paid. -/
theorem nets_withdrawValue (h : w.Stands c s q) (hSelf : f.self = w.router)
    (hAdapter : q.supports config.pool = true → config.adapter = config.pool)
    (hEnds : Ends (Router.withdrawValue f config n) c paid c' es) :
    n ≤ paid ∧ ∃ x, c.contract? config.pool = some (.fixedRate x) ∧
      paid = (n * rateScale ⌈/⌉ x.rate) * x.rate / rateScale ∧ c.Nets
        ((Entry.balance w.stable w.router).gains paid +
          w.released config.pool (n * rateScale ⌈/⌉ x.rate) paid) c' := by
  obtain ⟨shares, hShares, -, hLeg, hEnough⟩ := Router.ends_withdrawValue.1 hEnds
  obtain ⟨hCounts, x, hx, hPaid, hNets⟩ := h.nets_withdrawShares hSelf hAdapter hLeg
  rw [hAdapter hCounts, Strategy.previewShares_fixedRate hx] at hShares
  obtain rfl := Rate.eq_of_sharesForAmount hShares
  exact ⟨hEnough, x, hx, hPaid, hNets⟩

end Wiring.Stands

end Treasury
