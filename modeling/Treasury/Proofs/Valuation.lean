import Treasury.Proofs.AgreementRun
import Treasury.Proofs.Rounding

/-! What a treasury is worth whose pools have fixed rates. All managed value is a sum over the
pools, each rounded down, with the stable token that the router holds itself. It can be found out as
long as no product and no sum leaves the range of amounts. -/
namespace Treasury

open Exec Chain

/-- The least whole amount that a share is worth no more than. -/
def Rate.unit (rate : Amount) : Nat := (rate + (rateScale - 1)) / rateScale

namespace Rate

variable {rate amount shares : Nat}

theorem rateScale_pos : 0 < rateScale := by decide

/-- Shares for a deposit are rounded down by less than one share. -/
theorem sharesForDeposit_bounds (h : sharesForDeposit amount rate = .ok shares) :
    shares * rate ≤ amount * rateScale ∧ amount * rateScale < (shares + 1) * rate := by
  obtain ⟨-, hRate, rfl⟩ := Amount.mulDiv_eq_ok.1 h
  refine ⟨Nat.div_mul_le_self _ _, ?_⟩
  rw [Nat.mul_comm _ rate]
  exact Nat.lt_mul_div_succ _ (Nat.pos_of_ne_zero hRate)

theorem le_unit_mul (rate : Nat) : rate ≤ unit rate * rateScale := by
  have hDiv := Nat.div_add_mod (rate + (rateScale - 1)) rateScale
  have hMod := Nat.mod_lt (rate + (rateScale - 1)) rateScale_pos
  rw [unit, Nat.mul_comm]
  omega

/-- Held shares rise in value by no more than the amount that is paid for more of them, since both
values are whole. -/
theorem worth_gain_le (held : Nat) (h : shares * rate ≤ amount * rateScale) :
    (held + shares) * rate / rateScale ≤ held * rate / rateScale + amount :=
  Amount.quotient_gain_le rateScale_pos held h

/-- Held shares rise in value by the amount paid for more of them, but for what a share is worth. -/
theorem le_worth_gain (held : Nat) (h : amount * rateScale < (shares + 1) * rate) :
    held * rate / rateScale + amount ≤ (held + shares) * rate / rateScale + unit rate := by
  have hUnit := le_unit_mul rate
  have hSum : held * rate + amount * rateScale ≤
      (held + shares) * rate + unit rate * rateScale := by
    rw [Nat.add_mul] at h ⊢
    omega
  calc held * rate / rateScale + amount
      = (held * rate + amount * rateScale) / rateScale :=
        (Nat.add_mul_div_right _ _ rateScale_pos).symm
    _ ≤ ((held + shares) * rate + unit rate * rateScale) / rateScale := Nat.div_le_div_right hSum
    _ = (held + shares) * rate / rateScale + unit rate := Nat.add_mul_div_right _ _ rateScale_pos

/-- Held shares fall in value by what is paid for some of them, or by one unit more. -/
theorem worth_loss (held shares rate : Nat) :
    held * rate / rateScale + shares * rate / rateScale ≤ (held + shares) * rate / rateScale ∧
      (held + shares) * rate / rateScale ≤
        held * rate / rateScale + shares * rate / rateScale + 1 := by
  have hLe := Amount.sum_quotients_le [held, shares] rate rateScale_pos
  have hLt := Amount.quotient_sum_lt (List.cons_ne_nil held [shares]) rate rateScale_pos
  simp only [List.map_cons, List.map_nil, List.sum_cons, List.sum_nil, Nat.add_zero,
    List.length_cons, List.length_nil] at hLe hLt
  exact ⟨hLe, Nat.le_of_lt_succ hLt⟩

end Rate

/-- The rate of a fixed-rate adapter. -/
def Contract.rate : Contract → Nat
  | fixedRate s => s.rate
  | _ => 0

namespace Chain

/-- The rate of the fixed-rate adapter at an address. -/
def rate (c : Chain) (p : Address) : Nat := ((c.contract? p).map Contract.rate).getD 0

variable {c c' : Chain} {p : Address}

theorem rate_of {s : Strategy.FixedRate} (h : c.contract? p = some (.fixedRate s)) :
    c.rate p = s.rate := by rw [rate, h]; rfl

theorem rate_put {a : Address} {old new : Contract} (hOld : c.contract? a = some old)
    (hSame : new.rate = old.rate) (p : Address) : (c.put a new).rate p = c.rate p := by
  rw [rate, map_put hOld hSame, rate]

theorem Alike.rate (h : Alike c c') (p : Address) : c'.rate p = c.rate p := by
  rw [Chain.rate, h.map (fun x => by cases x <;> rfl), Chain.rate]

/-- What one share of each of some pools is worth together, each rounded up. -/
def units (c : Chain) (pools : List Address) : Nat :=
  pools.foldr (fun p total => Rate.unit (c.rate p) + total) 0

theorem units_singleton (c : Chain) (p : Address) : c.units [p] = Rate.unit (c.rate p) := by
  rw [units, List.foldr_cons, List.foldr_nil, Nat.add_zero]

theorem units_congr (h : ∀ p, c'.rate p = c.rate p) (pools : List Address) :
    c'.units pools = c.units pools := by
  simp only [units, h]

end Chain

namespace Wiring

/-- What the custodied shares of a pool are worth, rounded down. -/
def worth (w : Wiring) (c : Chain) (p : Address) : Nat :=
  c.balance p w.custody * c.rate p / rateScale

/-- What the custodied shares of some pools are worth. -/
def counted (w : Wiring) (c : Chain) (pools : List Address) : Nat :=
  pools.foldr (fun p total => w.worth c p + total) 0

/-- The value of some pools with the stable token that the router holds itself. -/
def managed (w : Wiring) (c : Chain) (pools : List Address) : Nat :=
  w.counted c pools + c.balance w.stable w.router

/-- Whether the value of some pools can be found out within the range of amounts. -/
def Countable (w : Wiring) (c : Chain) (pools : List Address) : Prop :=
  (∀ p ∈ pools, c.balance p w.custody * c.rate p < Amount.bound) ∧
    w.managed c pools < Amount.bound

instance (w : Wiring) (c : Chain) (pools : List Address) : Decidable (w.Countable c pools) := by
  unfold Countable
  infer_instance

/-- A treasury stands, and each pool that counts as value is a fixed-rate adapter bound to itself.
-/
structure Fixed (w : Wiring) (c : Chain) (q : Custody) : Prop where
  complete : w.Complete c
  custody : c.contract? w.custody = some (.custody q)
  supported : q.supported.Sound
  pools : ∀ p, q.supports p = true →
    q.adapter? p = some p ∧ ∃ s, c.contract? p = some (.fixedRate s)

end Wiring

namespace Wiring.Fixed

variable {w : Wiring} {c : Chain} {q : Custody} {p : Address}

/-- The value of one pool. -/
theorem held_eq (h : w.Fixed c q) (hp : q.supports p = true) :
    Custody.held q w.custody p c =
      if c.balance p w.custody * c.rate p < Amount.bound then .ok (w.worth c p)
      else .error .overflow := by
  obtain ⟨hBound, s, hs⟩ := h.pools p hp
  have hBooks : c.books? p = some s.ledger := books?_of_contract? hs
  have hContract : View.contract p c = .ok (.fixedRate s) := View.contract_eq_ok.2 hs
  rw [Custody.held, View.bind_apply, Token.balanceOf_eq _ hBooks, worth, rate_of hs]
  generalize c.balance p w.custody = balance
  change (if balance = 0 then pure 0 else Custody.valueOf q p balance : View Amount) c = _
  by_cases hZero : balance = 0
  · have hRange : 0 * s.rate < Amount.bound := by
      rw [Nat.zero_mul]
      decide
    rw [if_pos hZero, hZero, if_pos hRange, Nat.zero_mul, Nat.zero_div]
    rfl
  · rw [if_neg hZero, Custody.valueOf, hBound]
    change Strategy.valueOf p p balance c = _
    rw [Strategy.valueOf, View.bind_apply, hContract]
    change (ensure (p = p) .invalidPool >>= fun _ => Rate.assetsForShares balance s.rate) = _
    rw [ensure, if_pos rfl]
    change (Amount.mul balance s.rate >>= fun product => Amount.div product rateScale) = _
    rw [Amount.mul, Amount.checked]
    split
    · rfl
    · rfl

/-- The value of some pools, added to what has been counted before. -/
theorem fold_held_eq (h : w.Fixed c q) (pools : List Address)
    (hPools : ∀ p ∈ pools, q.supports p = true) {before : Nat} (hBefore : before < Amount.bound) :
    (pools.foldlM (fun total p => do Amount.add total (← Custody.held q w.custody p)) before :
      View Amount) c =
      if (∀ p ∈ pools, c.balance p w.custody * c.rate p < Amount.bound) ∧
        before + w.counted c pools < Amount.bound then .ok (before + w.counted c pools)
      else .error .overflow := by
  induction pools generalizing before with
  | nil =>
    have hRange : (∀ p ∈ ([] : List Address), c.balance p w.custody * c.rate p < Amount.bound) ∧
        before + w.counted c [] < Amount.bound := ⟨by simp, hBefore⟩
    rw [if_pos hRange]
    rfl
  | cons p rest ih =>
    have hFirst := h.held_eq (hPools p List.mem_cons_self)
    have hRest := fun p hp => hPools p (List.mem_cons_of_mem _ hp)
    have hSum : w.counted c (p :: rest) = w.worth c p + w.counted c rest := rfl
    rw [List.foldlM_cons, View.bind_apply]
    change (Custody.held q w.custody p c >>= fun value => Amount.add before value) >>= _ = _
    rw [hFirst]
    by_cases hRange : c.balance p w.custody * c.rate p < Amount.bound
    · rw [if_pos hRange]
      change Amount.add before (w.worth c p) >>= _ = _
      rw [Amount.add, Amount.checked]
      by_cases hNext : before + w.worth c p < Amount.bound
      · rw [if_pos hNext]
        apply (ih hRest hNext).trans
        simp only [List.forall_mem_cons, hRange, true_and, hSum, Nat.add_assoc]
      · rw [if_neg hNext, if_neg]
        · rfl
        · rintro ⟨-, hTotal⟩
          rw [hSum] at hTotal
          omega
    · rw [if_neg hRange, if_neg]
      · rfl
      · rintro ⟨hAll, -⟩
        exact hRange (hAll p List.mem_cons_self)

/-- All managed value is that of the pools with the router's own stable, as long as it can be found
out. Otherwise a number has become too large. -/
theorem totalManagedAssets_eq (h : w.Fixed c q) :
    Router.totalManagedAssets w.router c =
      if w.Countable c q.supported.toList then .ok (w.managed c q.supported.toList)
      else .error .overflow := by
  obtain ⟨s, hs, -, hCustody, -⟩ := h.complete.router
  have hRouter : ∀ entry, (View.callee entry w.router : View Router.State) c = .ok s :=
    fun entry => View.callee_eq_ok.2 hs
  have hKeeper : (View.callee "total_value" w.custody : View Custody) c = .ok q :=
    View.callee_eq_ok.2 h.custody
  have hTotal : Custody.totalValue w.custody c =
      (q.supported.toList.foldlM
        (fun total p => do Amount.add total (← Custody.held q w.custody p)) 0 : View Amount) c := by
    rw [Custody.totalValue, View.bind_apply, hKeeper]
    rfl
  have hPools : ∀ p ∈ q.supported.toList, q.supports p = true :=
    fun p hp => h.supported.mem_toList.1 hp
  have hZero : 0 < Amount.bound := by decide
  rw [h.fold_held_eq _ hPools hZero, Nat.zero_add] at hTotal
  rw [Router.totalManagedAssets, View.bind_apply, hRouter]
  change (known s.custody >>= fun k => Custody.totalValue k c >>= fun value =>
    Router.idleBalance w.router c >>= fun idle => Amount.add value idle) = _
  rw [hCustody]
  change (Custody.totalValue w.custody c >>= _) = _
  rw [hTotal, h.complete.idleBalance_eq]
  by_cases hCounted : (∀ p ∈ q.supported.toList, c.balance p w.custody * c.rate p < Amount.bound) ∧
      w.counted c q.supported.toList < Amount.bound
  · rw [if_pos hCounted]
    change Amount.checked (w.managed c q.supported.toList) = _
    rw [Amount.checked]
    by_cases hRange : w.managed c q.supported.toList < Amount.bound
    · rw [if_pos hRange, if_pos ⟨hCounted.1, hRange⟩]
    · rw [if_neg hRange, if_neg fun hAll => hRange hAll.2]
  · rw [if_neg hCounted, if_neg]
    · rfl
    · rintro ⟨hAll, hRange⟩
      rw [managed] at hRange
      exact hCounted ⟨hAll, by omega⟩

/-- If all managed value can be found out, it is what the pools and the router hold. -/
theorem totalManagedAssets_ok (h : w.Fixed c q) {nav : Amount}
    (hNav : Router.totalManagedAssets w.router c = .ok nav) :
    w.Countable c q.supported.toList ∧ nav = w.managed c q.supported.toList := by
  rw [h.totalManagedAssets_eq] at hNav
  split at hNav
  · next hCountable =>
    cases hNav
    exact ⟨hCountable, rfl⟩
  · cases hNav

end Wiring.Fixed

/-- Two chains on which a treasury values its pools in the same way: contracts are pointed at the
same ones, the custody contract is the same, and so are all rates. -/
structure Wiring.Steady (w : Wiring) (c c' : Chain) : Prop where
  faces : ∀ a, c'.face? a = c.face? a
  custody : ∀ q, c.contract? w.custody = some (.custody q) →
    c'.contract? w.custody = some (.custody q)
  rates : ∀ p, c'.rate p = c.rate p

namespace Wiring.Steady

variable {w : Wiring} {c c₁ c' : Chain} {q : Custody}

theorem refl (w : Wiring) (c : Chain) : w.Steady c c := ⟨fun _ => rfl, fun _ h => h, fun _ => rfl⟩

theorem trans (h : w.Steady c c₁) (h' : w.Steady c₁ c') : w.Steady c c' :=
  ⟨fun a => (h'.faces a).trans (h.faces a), fun q hq => h'.custody q (h.custody q hq),
    fun p => (h'.rates p).trans (h.rates p)⟩

theorem of_alike (h : Alike c c') : w.Steady c c' :=
  ⟨h.face?, fun _ hq => h.custody hq, h.rate⟩

/-- A contract is replaced that is no custody contract. -/
theorem of_put {a : Address} {old new : Contract} (hOld : c.contract? a = some old)
    (hFace : new.face = old.face) (hRate : new.rate = old.rate) (hKind : old.kind ≠ .custody) :
    w.Steady c (c.put a new) := by
  refine ⟨face?_put hOld hFace, fun q hq => ?_, rate_put hOld hRate⟩
  have hNe : w.custody ≠ a := by
    rintro rfl
    obtain rfl : old = .custody q := Option.some.inj (hOld.symm.trans hq)
    exact hKind rfl
  rw [contract?_put_of_ne _ _ hNe, hq]

theorem fixed (hSteady : w.Steady c c') (h : w.Fixed c q) : w.Fixed c' q := by
  refine ⟨h.complete.of_faces fun a _ => hSteady.faces a, hSteady.custody q h.custody,
    h.supported, fun p hp => ?_⟩
  obtain ⟨hBound, s, hs⟩ := h.pools p hp
  have hFace := hSteady.faces p
  simp only [face?, hs, Option.map_some, Option.map_eq_some_iff, Contract.face, Contract.links,
    Prod.mk.injEq] at hFace
  obtain ⟨x, hx, hKind, -⟩ := hFace
  cases x <;> cases hKind
  exact ⟨hBound, _, hx⟩

end Wiring.Steady

namespace Wiring

variable {w : Wiring} {c c' : Chain} {pools : List Address} {pool : Address}

theorem counted_congr (h : ∀ p ∈ pools, w.worth c' p = w.worth c p) :
    w.counted c' pools = w.counted c pools := by
  induction pools with
  | nil => rfl
  | cons p rest ih =>
    change w.worth c' p + w.counted c' rest = w.worth c p + w.counted c rest
    rw [h p List.mem_cons_self, ih fun p hp => h p (List.mem_cons_of_mem _ hp)]

/-- A pool that changes its worth is counted once, so all pools together change by as much. -/
theorem counted_of_one (hMem : pool ∈ pools) (hNodup : pools.Nodup)
    (h : ∀ p ∈ pools, p ≠ pool → w.worth c' p = w.worth c p) :
    w.counted c' pools + w.worth c pool = w.counted c pools + w.worth c' pool := by
  induction pools with
  | nil => cases hMem
  | cons p rest ih =>
    obtain ⟨hFirst, hRest⟩ := List.nodup_cons.1 hNodup
    change w.worth c' p + w.counted c' rest + w.worth c pool =
      w.worth c p + w.counted c rest + w.worth c' pool
    by_cases hp : p = pool
    · subst hp
      have hSame : w.counted c' rest = w.counted c rest := by
        refine counted_congr fun x hx => h x (List.mem_cons_of_mem _ hx) ?_
        rintro rfl
        exact hFirst hx
      omega
    · have hIn : pool ∈ rest := (List.mem_cons.1 hMem).resolve_left (Ne.symm hp)
      have hSame := h p List.mem_cons_self hp
      have hOthers := ih hIn hRest fun x hx => h x (List.mem_cons_of_mem _ hx)
      omega

end Wiring

/-- All pools that the router has registered are reached through fixed-rate adapters. -/
def Wiring.FixedRatePools (w : Wiring) (c : Chain) : Prop :=
  ∀ config ∈ (c.routing w.router).registry.toList, c.kind? config.adapter = some .fixedRate

instance (w : Wiring) (c : Chain) : Decidable (w.FixedRatePools c) := by
  unfold Wiring.FixedRatePools
  infer_instance

theorem Chain.fixedRate_of_kind {c : Chain} {p : Address} (h : c.kind? p = some .fixedRate) :
    ∃ s, c.contract? p = some (.fixedRate s) := by
  obtain ⟨x, hx, hKind⟩ := Option.map_eq_some_iff.1 h
  cases x <;> cases hKind
  exact ⟨_, hx⟩

namespace WiredRun

variable {w : Wiring} {c : Chain}

/-- Whatever counts as value in a wired run with fixed-rate pools is a fixed-rate adapter. -/
theorem fixed (h : WiredRun w c) (hComplete : w.Complete c) (hPools : w.FixedRatePools c) :
    ∃ q, w.Fixed c q := by
  obtain ⟨q, hq, -⟩ := hComplete.custody
  have hAgree := h.agrees (h.router_place hComplete)
  rw [Wiring.Agrees, keeping_of hq] at hAgree
  refine ⟨q, hComplete, hq, hAgree.supported, fun p hp => ?_⟩
  obtain ⟨config, hConfig, hBound⟩ := hAgree.counted p hp
  have hFixed := hPools config (hAgree.registry.mem_of_get? hConfig)
  have hSelf : config.adapter = p := (hAgree.served p _ hBound).eq_of_fixedRate hFixed
  rw [hSelf] at hBound hFixed
  exact ⟨hBound, fixedRate_of_kind hFixed⟩

end WiredRun

end Treasury
