import Treasury.Proofs.DepositPaths
import Treasury.Proofs.ExitPrice
import Treasury.Proofs.Postings

/-! A solver's withdrawal from end to end. Each leg's pool gives up shares and pays what they are
worth, at a rate that no leg changes; so what is received in the end can be told from the chain
before. Whether the legs name amounts or shares, what is settled of it is the same. -/
namespace Treasury

open Exec Chain
open Token (Entry Posting)

namespace Chain

variable {c c' : Chain} {taken : Pool.Leg → Nat} {legs legs' : List Pool.Leg}

/-- What a pool pays for shares at its rate. -/
def payout (c : Chain) (p : Address) (shares : Nat) : Nat := shares * c.rate p / rateScale

/-- As many shares of its pool as a leg's amount makes, rounded up. -/
def sharesFor (c : Chain) (leg : Pool.Leg) : Nat := leg.amount * rateScale ⌈/⌉ c.rate leg.pool

/-- What the pools of legs pay together, if each gives up some shares. -/
def payouts (c : Chain) (taken : Pool.Leg → Nat) (legs : List Pool.Leg) : Nat :=
  (legs.map fun leg => c.payout leg.pool (taken leg)).sum

theorem payouts_append : c.payouts taken (legs ++ legs') =
    c.payouts taken legs + c.payouts taken legs' := by
  rw [payouts, List.map_append, List.sum_append, payouts, payouts]

theorem payouts_singleton (leg : Pool.Leg) :
    c.payouts taken [leg] = c.payout leg.pool (taken leg) := by
  rw [payouts, List.map_singleton, List.sum_singleton]

end Chain

/-- The leg that has been resolved. -/
def Router.Part.leg (part : Router.Part) : Pool.Leg := ⟨part.config.pool, part.amount⟩

namespace Wiring

/-- What is posted if the pool of each leg gives up some shares. -/
def withdrawn (w : Wiring) (c : Chain) (taken : Pool.Leg → Nat) (legs : List Pool.Leg) : Posting :=
  (legs.map fun leg => w.released leg.pool (taken leg) (c.payout leg.pool (taken leg))).sum

/-- The fixed-rate pools of legs give up some shares, and pay the router what is worth no less than
what is asked for. All rates are those on a chain before. -/
structure Takes (w : Wiring) (c : Chain) (legs : List Pool.Leg) (taken asked : Pool.Leg → Nat)
    (c₁ c₂ : Chain) : Prop where
  fixed : ∀ leg ∈ legs, c.kind? leg.pool = some .fixedRate
  covered : (legs.map asked).sum ≤ c.payouts taken legs
  nets : c₁.Nets ((Entry.balance w.stable w.router).gains (c.payouts taken legs) +
    w.withdrawn c taken legs) c₂

variable {w : Wiring} {c c₁ c₂ c' : Chain} {s : Router.State} {q : Custody} {f : Router.Frame}
  {legs legs' : List Pool.Leg} {taken asked : Pool.Leg → Nat} {parts : List Router.Part}
  {es : List (Address × Event)} {receiver owner : Address}

theorem Takes.trans (h : w.Takes c legs taken asked c₁ c₂)
    (h' : w.Takes c legs' taken asked c₂ c') : w.Takes c (legs ++ legs') taken asked c₁ c' where
  fixed leg hLeg := (List.mem_append.1 hLeg).elim (h.fixed leg) (h'.fixed leg)
  covered := by
    rw [List.map_append, List.sum_append, payouts_append]
    exact Nat.add_le_add h.covered h'.covered
  nets := by
    rw [payouts_append, Entry.gains_add, withdrawn, List.map_append, List.sum_append]
    convert h.nets.trans h'.nets using 1
    unfold withdrawn
    abel

/-- A pool that pays for shares at its rate takes them for a leg. -/
theorem takes_of_nets {leg : Pool.Leg} {x : Strategy.FixedRate} {paid : Nat} (hAlike : Alike c c₁)
    (hx : c₁.contract? leg.pool = some (.fixedRate x))
    (hPaid : paid = taken leg * x.rate / rateScale) (hEnough : asked leg ≤ paid)
    (hNets : c₁.Nets ((Entry.balance w.stable w.router).gains paid +
      w.released leg.pool (taken leg) paid) c₂) :
    paid = c.payout leg.pool (taken leg) ∧ w.Takes c [leg] taken asked c₁ c₂ := by
  have hSame : paid = c.payout leg.pool (taken leg) := by
    rw [hPaid, payout, ← hAlike.rate, rate_of hx]
  subst hSame
  refine ⟨rfl, ⟨fun each hEach => ?_, ?_, ?_⟩⟩
  · rw [List.mem_singleton.1 hEach, ← hAlike.kind?, kind?_of_contract? hx]
    rfl
  · rwa [List.map_singleton, List.sum_singleton, payouts_singleton]
  · rwa [payouts_singleton, withdrawn, List.map_singleton, List.sum_singleton]

/-- If each leg's pool takes shares whatever the legs before have done, all of them do, and what is
received is what they pay together. -/
theorem Stands.takes_legs {withdraw : Router.Part → Exec Amount} [∀ part, Additive (withdraw part)]
    (hEach : ∀ part ∈ parts, ∀ {c₁ m c₂ es}, w.Stands c₁ s q → Alike c c₁ →
      Ends (withdraw part) c₁ m c₂ es → w.Stands c₂ s q ∧
        m = c.payout part.leg.pool (taken part.leg) ∧ w.Takes c [part.leg] taken asked c₁ c₂)
    (h : w.Stands c₁ s q) (hAlike : Alike c c₁) {start received : Amount}
    (hEnds : Ends (parts.foldlM (fun received part => do
      Amount.add received (← withdraw part)) start) c₁ received c' es) :
    received = start + c.payouts taken (parts.map Router.Part.leg) ∧
      w.Takes c (parts.map Router.Part.leg) taken asked c₁ c' := by
  induction parts generalizing c₁ start es with
  | nil =>
    obtain ⟨rfl, rfl, -⟩ := ends_pure.1 hEnds
    refine ⟨rfl, ⟨by simp, Nat.le_refl _, ?_⟩⟩
    convert Nets.refl c₁ using 1
    simp [withdrawn, payouts]
  | cons part rest ih =>
    rw [List.foldlM_cons, ends_bind] at hEnds
    obtain ⟨first, c₂, _, _, hFirst, hRest, -⟩ := hEnds
    obtain ⟨m, c₃, _, _, hLeg, hAdd, -⟩ := ends_bind.1 hFirst
    obtain ⟨hSum, rfl, -⟩ := ends_result.1 hAdd
    obtain ⟨-, rfl⟩ := Amount.add_eq_ok.1 hSum
    obtain ⟨hPart, hOthers⟩ := List.forall_mem_cons.1 hEach
    obtain ⟨h₂, rfl, hTakes⟩ := hPart h hAlike hLeg
    obtain ⟨rfl, hTakes'⟩ := ih hOthers h₂ (hAlike.trans hTakes.nets.alike) hRest
    refine ⟨?_, hTakes.trans hTakes'⟩
    rw [List.map_cons, ← List.singleton_append, payouts_append, payouts_singleton, Nat.add_assoc]

/-- The settlement pays the receiver, burns the owner's shares, and counts the rest as fees. -/
theorem nets_settleWithdrawal {split : Fee.Split} {kept shares : Amount} {n : Nat} {u : Unit}
    (hSelf : f.self = w.router) (hStable : s.stable = some w.stable)
    (hEnds : Ends (Router.settleWithdrawal f s w.share receiver owner split kept shares n) c u c'
      es) :
    ∃ c₁, c.Nets ((Entry.balance w.stable receiver).gains split.net -
        (Entry.balance w.stable w.router).gains split.net + w.burned f.caller owner shares) c₁ ∧
      c' = c₁.collecting w.router kept := by
  simp only [Router.settleWithdrawal, ends_result_bind, known_eq_ok, Token.ends_transfer_bind]
    at hEnds
  obtain ⟨t, ht, c₁, hPay, hRest⟩ := hEnds
  obtain rfl : w.stable = t := Option.some.inj (hStable.symm.trans ht)
  obtain ⟨_, c₂, _, _, hBurn, hRest, -⟩ := ends_bind.1 hRest
  simp only [ShareToken.burnFor, ends_amend, ShareToken.retireFor, ShareToken.requireRouter,
    Result.bind_eq_ok, ensure_eq_ok] at hBurn
  obtain ⟨x, x', hx, ⟨_, -, _, -, hRetire⟩, rfl, -⟩ := hBurn
  simp only [ends_update_bind, ends_emit] at hRest
  obtain ⟨s₂, s₃, hs₂, hCollect, rfl, -⟩ := hRest
  rw [hSelf] at hPay hs₂ ⊢
  exact ⟨_, hPay.nets_transfer.trans (nets_retire hx hRetire), put_eq_collecting hs₂ hCollect⟩

/-- A solver's withdrawal that takes some shares of the pool of each leg, and pays what is left of a
gross amount after the fee. The pools pay no less than the gross amount. The owner's shares that are
quoted for it are burned; what the receiver does not get of what the pools pay stays with the router
and is counted as fees collected. Nothing else changes. -/
structure Settlement (w : Wiring) (c : Chain) (solver receiver owner : Address)
    (legs : List Pool.Leg) (taken : Pool.Leg → Nat) (gross most net : Amount) (c' : Chain) :
    Prop where
  apart : (legs.map Pool.Leg.pool).Nodup
  fixed : ∀ leg ∈ legs, c.kind? leg.pool = some .fixedRate
  covered : gross ≤ c.payouts taken legs
  net_eq : net = gross - gross * (c.routing w.router).withdrawalFee / weightScale
  posted : ∃ burned, ShareToken.previewWithdraw w.share gross c = .ok burned ∧ burned ≤ most ∧
    (c.collecting w.router (c.payouts taken legs - net)).Nets (w.burned solver owner burned +
      w.withdrawn c taken legs + w.settled receiver net (c.payouts taken legs - net)) c'

/-- Once the legs have brought in what their pools pay, the rest is settled. -/
theorem Takes.settlement {gross most shares kept : Amount} {split paid : Fee.Split} {n : Nat}
    {u : Unit} (h : w.Takes c legs taken asked c c₁) (hs : c.contract? w.router = some (.router s))
    (hSelf : f.self = w.router) (hStable : s.stable = some w.stable)
    (hApart : (legs.map Pool.Leg.pool).Nodup) (hCovered : gross ≤ c.payouts taken legs)
    (hQuote : ShareToken.previewWithdraw w.share gross c = .ok shares) (hMost : shares ≤ most)
    (hSplit : Fee.split gross s.withdrawalFee = .ok split) (hPaid : paid.net = split.net)
    (hKept : kept = c.payouts taken legs - split.net)
    (hEnds : Ends (Router.settleWithdrawal f s w.share receiver owner paid kept shares n) c₁ u c'
      es) :
    w.Settlement c f.caller receiver owner legs taken gross most paid.net c' := by
  obtain ⟨hSum, hFee⟩ := Fee.split_spec hSplit
  obtain ⟨c₂, hNets, rfl⟩ := nets_settleWithdrawal hSelf hStable hEnds
  have hNet : split.net ≤ c.payouts taken legs := (Fee.net_le hSplit).trans hCovered
  refine ⟨hApart, h.fixed, hCovered, ?_, shares, hQuote, hMost, ?_⟩
  · rw [routing_of hs, ← hFee, ← hSum, Nat.add_sub_cancel, hPaid]
  · rw [hPaid] at hNets ⊢
    rw [hKept]
    refine Nets.collecting ?_ hs _
    convert h.nets.trans hNets using 1
    rw [settled_sub hNet]
    abel

end Wiring

namespace Router

open Wiring (Stands)

variable {w : Wiring} {c c' : Chain} {s : State} {q : Custody} {f : Frame} {legs : List Pool.Leg}
  {parts : List Part} {most net : Amount} {receiver owner : Address} {es : List (Address × Event)}

/-- Legs are resolved to parts in their order. Their pools differ, and one that counts as value is its
own adapter. -/
theorem parts_of_resolveAll (h : w.Stands c s q)
    (hParts : resolveAll s.registry .withdrawal legs = .ok parts) :
    parts.map Part.leg = legs ∧ (legs.map Pool.Leg.pool).Nodup ∧
      ∀ part ∈ parts, q.supports part.config.pool = true →
        part.config.adapter = part.config.pool := by
  obtain ⟨hLegs, hKnown⟩ := resolveAll_spec h.agree.registry hParts
  have hApart := resolveAll_apart h.agree.registry hParts
  refine ⟨hLegs, ?_, fun part hp => h.adapter_eq (hKnown part hp).1⟩
  rw [← hLegs, List.map_map]
  exact List.pairwise_map.2 hApart

section Leg

variable {part : Part} {paid : Amount} {c₁ c₂ : Chain} (h : w.Stands c₁ s q) (hAlike : Alike c c₁)
  (hSelf : f.self = w.router)
  (hAdapter : q.supports part.config.pool = true → part.config.adapter = part.config.pool)

include h hAlike hSelf hAdapter

/-- A leg that names an amount is paid no less. -/
theorem takes_of_withdrawValue
    (hEnds : Ends (withdrawValue f part.config part.amount) c₁ paid c₂ es) :
    w.Stands c₂ s q ∧ paid = c.payout part.leg.pool (c.sharesFor part.leg) ∧
      w.Takes c [part.leg] c.sharesFor Pool.Leg.amount c₁ c₂ := by
  obtain ⟨hEnough, x, hx, hPaid, hNets⟩ := h.nets_withdrawValue hSelf hAdapter hEnds
  have hShares : c.sharesFor part.leg = part.amount * rateScale ⌈/⌉ x.rate := by
    have hRate : c.rate part.leg.pool = x.rate := by
      rw [← hAlike.rate]
      exact rate_of hx
    rw [sharesFor, hRate]
    rfl
  rw [← hShares] at hPaid hNets
  exact ⟨stands_of_withdrawValue hSelf h hAdapter hEnds,
    Wiring.takes_of_nets hAlike hx hPaid hEnough hNets⟩

/-- A leg that names shares asks for no amount. -/
theorem takes_of_withdrawShares
    (hEnds : Ends (withdrawShares f part.config part.amount) c₁ paid c₂ es) :
    w.Stands c₂ s q ∧ paid = c.payout part.leg.pool part.leg.amount ∧
      w.Takes c [part.leg] Pool.Leg.amount (fun _ => 0) c₁ c₂ := by
  obtain ⟨-, x, hx, hPaid, hNets⟩ := h.nets_withdrawShares hSelf hAdapter hEnds
  exact ⟨stands_of_withdrawShares hSelf h hAdapter hEnds,
    Wiring.takes_of_nets hAlike hx hPaid (Nat.zero_le _) hNets⟩

end Leg

set_option synthInstance.maxSize 512 in
/-- A solver that names amounts takes as many shares of each pool as its amount makes, rounded up. -/
theorem settlement_of_withdrawByAssets (h : w.Stands c s q) (hSelf : f.self = w.router)
    (hEnds : Ends (solverWithdrawByAssets f legs most receiver owner) c net c' es) :
    w.Settlement c f.caller receiver owner legs c.sharesFor (Pool.Leg.total legs) most net c' := by
  obtain ⟨hStable, -, hShare⟩ := h.fixed.complete.links h.router
  simp only [solverWithdrawByAssets, ends_guarded, ends_result_bind, ends_view_bind, known_eq_ok,
    ensure_eq_ok] at hEnds
  obtain ⟨s', hs, -, _, -, _, -, parts, hParts, gross, hGross, t, ht, shares, hQuote, _, hMost,
    hRest⟩ := hEnds
  obtain rfl : s = s' := storage_unique h.router (hSelf ▸ hs)
  obtain rfl : w.share = t := Option.some.inj (hShare.symm.trans ht)
  obtain ⟨rfl, hApart, hAdapter⟩ := parts_of_resolveAll h hParts
  obtain ⟨received, c₁, _, _, hTaken, hRest, -⟩ := ends_bind.1 hRest
  simp only [ends_result_bind] at hRest
  obtain ⟨split, hSplit, kept, hKept, hRest⟩ := hRest
  obtain ⟨_, _, _, _, hSettle, hPure, -⟩ := ends_bind.1 hRest
  obtain ⟨rfl, rfl, -⟩ := ends_pure.1 hPure
  obtain ⟨-, hKept⟩ := Amount.sub_eq_ok.1 hKept
  obtain ⟨hReceived, hTakes⟩ := h.takes_legs (fun part hp _ _ _ _ h₁ hAlike =>
    takes_of_withdrawValue h₁ hAlike hSelf (hAdapter part hp)) (.refl c) hTaken
  have hAmounts : parts.map Part.amount = (parts.map Part.leg).map Pool.Leg.amount := by
    rw [List.map_map]
    rfl
  rw [hAmounts] at hGross
  obtain ⟨-, hSum⟩ := Amount.sum_eq_ok.1 hGross
  obtain ⟨-, rfl⟩ := Pool.Leg.sum_eq_ok.1 hGross
  rw [Nat.zero_add] at hReceived
  exact hTakes.settlement h.router hSelf hStable hApart (hSum ▸ hTakes.covered) hQuote hMost hSplit
    rfl (hReceived ▸ hKept.symm) hSettle

set_option synthInstance.maxSize 512 in
/-- A solver that names shares is quoted an amount for them, and takes them. What the pools pay is
what the receiver gets with what is announced as the fee. -/
theorem settlement_of_withdrawByShares (h : w.Stands c s q) (hSelf : f.self = w.router)
    {paid : Fee.Split}
    (hEnds : Ends (solverWithdrawByShares f legs most receiver owner) c paid c' es) :
    ∃ gross, Quotes s.registry c legs gross ∧ paid.fee = c.payouts Pool.Leg.amount legs - paid.net ∧
      w.Settlement c f.caller receiver owner legs Pool.Leg.amount gross most paid.net c' := by
  obtain ⟨hStable, -, hShare⟩ := h.fixed.complete.links h.router
  simp only [solverWithdrawByShares, ends_guarded, ends_result_bind] at hEnds
  obtain ⟨s', hs, -, _, -, _, -, parts, hParts, hRest⟩ := hEnds
  obtain rfl : s = s' := storage_unique h.router (hSelf ▸ hs)
  obtain ⟨gross, _, _, _, hGross, hRest, -⟩ := ends_bind.1 hRest
  obtain ⟨hQuoted, rfl⟩ := hGross.foldlM_view
  simp only [ends_result_bind, ends_view_bind, known_eq_ok, ensure_eq_ok] at hRest
  obtain ⟨_, -, split, hSplit, t, ht, shares, hQuote, _, hMost, netByShares, -, _, -, hRest⟩ :=
    hRest
  obtain rfl : w.share = t := Option.some.inj (hShare.symm.trans ht)
  have hKnown := (resolveAll_spec h.agree.registry hParts).2
  obtain ⟨rfl, hApart, hAdapter⟩ := parts_of_resolveAll h hParts
  obtain ⟨total, hTotal, hQuotes⟩ := quotes_of_parts (fun part hp => (hKnown part hp).1) hQuoted
  rw [Nat.zero_add] at hTotal
  subst hTotal
  obtain ⟨received, c₁, _, _, hTaken, hRest, -⟩ := ends_bind.1 hRest
  simp only [ends_result_bind] at hRest
  obtain ⟨above, hAbove, fee, hFee, hRest⟩ := hRest
  obtain ⟨_, _, _, _, hSettle, hPure, -⟩ := ends_bind.1 hRest
  obtain ⟨rfl, rfl, -⟩ := ends_pure.1 hPure
  obtain ⟨hReceived, hTakes⟩ := h.takes_legs (fun part hp _ _ _ _ h₁ hAlike =>
    takes_of_withdrawShares h₁ hAlike hSelf (hAdapter part hp)) (.refl c) hTaken
  rw [Nat.zero_add] at hReceived
  obtain ⟨hCovered, rfl⟩ := Amount.sub_eq_ok.1 hAbove
  obtain ⟨-, rfl⟩ := Amount.add_eq_ok.1 hFee
  have hKept : split.fee + (received - total) =
      c.payouts Pool.Leg.amount (parts.map Part.leg) - split.net := by
    obtain ⟨hSum, -⟩ := Fee.split_spec hSplit
    rw [← hReceived, ← Nat.add_sub_assoc hCovered, ← hSum, Nat.add_comm split.net,
      Nat.add_sub_add_left]
  exact ⟨total, hQuotes, hKept, hTakes.settlement h.router hSelf hStable hApart
    (hReceived ▸ hCovered) hQuote hMost hSplit rfl hKept hSettle⟩

end Router

/-- Whatever has been done before, a solver's withdrawal that succeeds is settled to the unit. If it
names amounts, each pool gives up as many of its shares as its amount makes, rounded up, and the
gross amount is what is named. If it names shares, these are given up, and the gross amount is what
is quoted for them; the answer then has the fee that is kept. -/
theorem WiredRun.solver_withdrawals_settle {w : Wiring} {c : Chain} (hRun : WiredRun w c)
    (hComplete : w.Complete c) (hPools : w.FixedRatePools c) {solver : Digest}
    {legs : List Pool.Leg} {most : Amount} {receiver owner : Address} {out : Outcome} :
    (c.submit (.account solver) w.router
        (.router (.solverWithdrawByAssets legs most receiver owner)) = .ok out →
      ∃ net, out.answer = .amount net ∧
        w.Settlement c (.account solver) receiver owner legs c.sharesFor (Pool.Leg.total legs) most
          net out.chain) ∧
    (c.submit (.account solver) w.router
        (.router (.solverWithdrawByShares legs most receiver owner)) = .ok out →
      ∃ gross net, Quotes (c.routing w.router).registry c legs gross ∧
        out.answer = .amounts net (c.payouts Pool.Leg.amount legs - net) ∧
        w.Settlement c (.account solver) receiver owner legs Pool.Leg.amount gross most net
          out.chain) := by
  obtain ⟨s, q, hStands⟩ := hRun.stands hComplete hPools
  constructor
  · intro hCall
    obtain ⟨net, es, hAnswer, hEnds⟩ := answer_of_submit rfl hCall
    exact ⟨net, hAnswer, Router.settlement_of_withdrawByAssets hStands rfl hEnds⟩
  · intro hCall
    obtain ⟨paid, _, _, _, hEnds, hPure, -⟩ := ends_bind.1 (ends_of_submit hCall)
    obtain ⟨hAnswer, rfl, -⟩ := ends_pure.1 hPure
    obtain ⟨gross, hQuotes, hFee, hSettlement⟩ :=
      Router.settlement_of_withdrawByShares hStands rfl hEnds
    rw [routing_of hStands.router]
    exact ⟨gross, paid.net, hQuotes, by rw [← hFee]; exact hAnswer.symm, hSettlement⟩

/-- One pool holds 6000 at a rate of 1.5 and the other 4000. A solver withdraws 497 and 300 on the
shares of somebody else; the first pool gives up 332 shares, which are worth 498. In the place of
that, it withdraws 333 and 300 shares, which are worth 499 and 300. -/
theorem WiredRun.solver_withdrawals_settle_of_two : ∃ c out out',
    WiredRun Standard.places c ∧ Standard.places.Complete c ∧
      Standard.places.FixedRatePools c ∧
      c.submit (.account 2) Standard.router (.router (.solverWithdrawByAssets
        [⟨Standard.pool, 497⟩, ⟨.ofNumber 6, 300⟩] 800 (.account 3) (.account 1))) = .ok out ∧
      [⟨Standard.pool, 497⟩, ⟨.ofNumber 6, 300⟩].map c.sharesFor = [332, 300] ∧
      out.answer = .amount 790 ∧
      Standard.places.Settlement c (.account 2) (.account 3) (.account 1)
        [⟨Standard.pool, 497⟩, ⟨.ofNumber 6, 300⟩] c.sharesFor 797 800 790 out.chain ∧
      c.submit (.account 2) Standard.router (.router (.solverWithdrawByShares
        [⟨Standard.pool, 333⟩, ⟨.ofNumber 6, 300⟩] 800 (.account 3) (.account 1))) = .ok out' ∧
      ∃ gross, Quotes (c.routing Standard.router).registry c
          [⟨Standard.pool, 333⟩, ⟨.ofNumber 6, 300⟩] gross ∧ out'.answer = .amounts 792 7 ∧
        Standard.places.Settlement c (.account 2) (.account 3) (.account 1)
          [⟨Standard.pool, 333⟩, ⟨.ofNumber 6, 300⟩] Pool.Leg.amount gross 800 792 out'.chain := by
  have hEnd : (Standard.places.follow {} (Standard.paired
      { admin := .account 0, withdrawalFee := 10_000 } 1_500_000_000_000_000_000 6000 4000 ++
      [.call 0 Standard.router (.router (.grantRole Roles.solver (.account 2))),
        .call 1 Standard.share (.token (.approve (.account 2) 800))])).any (fun c =>
      Standard.places.completes c && (decide (Standard.places.FixedRatePools c) &&
        ([⟨Standard.pool, 497⟩, ⟨.ofNumber 6, 300⟩].map c.sharesFor == [332, 300]) &&
        (c.submit (.account 2) Standard.router (.router (.solverWithdrawByAssets
          [⟨Standard.pool, 497⟩, ⟨.ofNumber 6, 300⟩] 800 (.account 3) (.account 1)))).toOption.any
            (fun out => out.answer.amount? == some 790) &&
        (c.submit (.account 2) Standard.router (.router (.solverWithdrawByShares
          [⟨Standard.pool, 333⟩, ⟨.ofNumber 6, 300⟩] 800 (.account 3) (.account 1)))).toOption.any
            (fun out => out.answer.amounts? == some (792, 7)))) = true := by decide +kernel
  obtain ⟨c, hRun, hComplete, hHolds⟩ := Wiring.exists_reached hEnd
  simp only [Bool.and_eq_true, decide_eq_true_eq, beq_iff_eq] at hHolds
  obtain ⟨⟨⟨hPools, hShares⟩, hAssets⟩, hByShares⟩ := hHolds
  obtain ⟨out, hOut, hAnswer⟩ := (Option.any_eq_true _ _).1 hAssets
  obtain ⟨out', hOut', hAnswer'⟩ := (Option.any_eq_true _ _).1 hByShares
  rw [beq_iff_eq] at hAnswer hAnswer'
  have hCall := Result.of_toOption hOut
  have hCall' := Result.of_toOption hOut'
  have hPaid := Answer.of_amount? hAnswer
  have hPaid' := Answer.of_amounts? hAnswer'
  obtain ⟨net, hNet, hSettled⟩ := (solver_withdrawals_settle hRun hComplete hPools).1 hCall
  obtain ⟨gross, net', hQuotes, hNet', hSettled'⟩ :=
    (solver_withdrawals_settle hRun hComplete hPools).2 hCall'
  obtain rfl : net = 790 := Answer.amount.inj (hNet.symm.trans hPaid)
  have hBoth : some (net', c.payouts Pool.Leg.amount _ - net') = some (792, 7) :=
    congrArg Answer.amounts? (hNet'.symm.trans hPaid')
  obtain rfl : net' = 792 := (Prod.mk.inj (Option.some.inj hBoth)).1
  exact ⟨c, out, out', hRun, hComplete, hPools, hCall, hShares, hPaid, hSettled, hCall', gross,
    hQuotes, hPaid', hSettled'⟩

end Treasury
