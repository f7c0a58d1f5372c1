import Treasury.Proofs.Governed
import Treasury.Proofs.Keys
import Treasury.Proofs.LedgerRun

/-! The published copy of the stable token's books. Every entry that was published is the one of the
books, and what was never published is nothing; the published supply is that of the books. Each value
that is written is published under a key of its own, so this holds at every moment, whoever makes
calls. -/
namespace Treasury

open Chain

namespace Token

namespace Stable

/-- What is published of the books is what the books say. -/
structure Mirrored (t : Stable) : Prop where
  balances : ∀ a, (t.published.balances.read a.keyText).getD 0 = t.ledger.balanceOf a
  allowances : ∀ o s, (t.published.allowances.read (o.pairKeyText s)).getD 0 =
    t.ledger.allowance o s
  supply : t.published.totalSupply = some t.ledger.supply

namespace Mirrored

variable {t t' : Stable}

/-- An account has a key of its own, so no other balance is published in its place. -/
theorem setBalance (h : t.Mirrored) (account : Address) (n : Amount) :
    (t.setBalance account n).Mirrored := by
  refine ⟨fun a => ?_, h.allowances, h.supply⟩
  simp only [Stable.setBalance, Published.setBalance, Ledger.balanceOf, Table.read_write,
    Address.keyText_inj]
  split
  · rfl
  · exact h.balances a

theorem approve (h : t.Mirrored) (owner spender : Address) (n : Amount) :
    (t.approve owner spender n).Mirrored := by
  refine ⟨h.balances, fun o s => ?_, h.supply⟩
  simp only [Stable.approve, Published.setAllowance, Ledger.allowance_approve, Table.read_write,
    Address.pairKeyText_inj]
  split
  · rfl
  · exact h.allowances o s

/-- Whatever is written, what is published agrees with the books. -/
theorem writes (h : t.Mirrored) (hWrites : t.Writes t') : t'.Mirrored := by
  induction hWrites with
  | refl => exact h
  | balance _ account n ih => exact ih.setBalance account n
  | allowance _ owner spender n ih => exact ih.approve owner spender n
  | supply _ n ih => exact ⟨ih.balances, ih.allowances, rfl⟩

/-- An operation of the stable token publishes all that it writes. -/
theorem operates (h : t.Mirrored) (hStep : t.Operates t') : t'.Mirrored := by
  cases hStep with
  | moved m hMove => exact h.writes (Move.onStable_writes hMove)
  | minted hMint => exact h.writes (mint_writes hMint)
  | burned hBurn => exact h.writes (burn_writes hBurn)
  | minters hSet =>
    obtain ⟨-, _, rfl⟩ := setMinter_spec hSet
    exact ⟨h.balances, h.allowances, h.supply⟩

end Mirrored

/-- A stable token that is set up has published its supply, and nothing else is there to publish. -/
theorem mirrored_construct (admin : Address) (name symbol : String) (decimals : Nat) :
    (({} : Stable).construct admin name symbol decimals).Mirrored :=
  ⟨fun _ => rfl, fun _ _ => rfl, rfl⟩

end Stable

end Token

section Runs

variable {May : Address → Prop} {Kept : Chain → Prop} {c c' : Chain} {t : Address}
  {u : Token.Stable}

/-- A new stable token that was not left blank has published what there is. -/
theorem Chain.Gains.mirrored {x : Contract} (h : c.Gains t x c')
    (hStands : c'.contract? t = some (.stable u)) (hBuilt : t ∉ c'.blank) : u.Mirrored := by
  rw [h.contracts, if_pos rfl, Option.some.injEq] at hStands
  subst hStands
  obtain ⟨kind, hBuilds | ⟨hBlank, hIn | hAlone⟩⟩ := h.new
  · cases kind <;> cases hBuilds
    exact Token.Stable.mirrored_construct _ _ _ _
  · exact absurd hIn hBuilt
  · cases kind <;> cases hBlank
    simp at hAlone

/-- In any run, what a stable token has published is what its books say. -/
theorem Run.mirrored (h : Run May Kept c) (hStands : c.contract? t = some (.stable u))
    (hBuilt : t ∉ c.blank) : u.Mirrored := by
  induction h generalizing u with
  | start => cases hStands
  | step hRun hMay hLeads hKept ih =>
    have hBuilt' := mt hLeads.advances.blank hBuilt
    rcases hLeads.stood hStands with ⟨u₀, hStood⟩ | ⟨x, hGains⟩
    · rcases hLeads.operates (t := t) with hOperates | ⟨hBlank, -⟩
      · obtain ⟨u', hu', hPasses⟩ := hOperates u₀ hStood
        obtain ⟨⟩ := Option.some.inj (hu'.symm.trans hStands)
        exact Token.Stable.Operates.keeps (fun _ _ hStep hAgrees => hAgrees.operates hStep) hPasses
          (ih hStood hBuilt')
      · exact absurd hBlank hBuilt'
    · exact hGains.mirrored hStands hBuilt

/-- The copy that a stable token publishes agrees with the token, whoever has called what. What its
dictionaries hold under the keys of addresses and of pairs, read as nothing where nothing was ever
written, are the balances and allowances that it answers; the published supply is the one that it
answers; and different addresses and pairs have different keys. -/
theorem Reachable.copy_agrees (hRun : Reachable c) (hStands : c.kind? t = some .stable)
    (hBuilt : t ∉ c.blank) (caller : Address) :
    (∀ x, ∃ entry n, c.ask caller t (.published "balances" x.keyText) =
        .ok (.optional .amount entry) ∧
      c.ask caller t (.balanceOf x) = .ok (.amount n) ∧ entry.getD 0 = n) ∧
    (∀ o s, ∃ entry n, c.ask caller t (.published "allowances" (o.pairKeyText s)) =
        .ok (.optional .amount entry) ∧
      c.ask caller t (.allowance o s) = .ok (.amount n) ∧ entry.getD 0 = n) ∧
    (∃ n, c.ask caller t (.publishedValue "total_supply") = .ok (.amount n) ∧
      c.ask caller t .totalSupply = .ok (.amount n)) ∧
    (∀ x y : Address, x.keyText = y.keyText → x = y) ∧
    ∀ o s o' s' : Address, o.pairKeyText s = o'.pairKeyText s' → o = o' ∧ s = s' := by
  obtain ⟨u, hu⟩ := exists_stable hStands
  have hAgrees := hRun.mirrored hu hBuilt
  have hField : ∀ entry (read : Token.Stable → Answer),
      Query.field entry t read c = .ok (read u) := fun entry read =>
    View.bind_eq_ok.2 ⟨u, View.callee_eq_ok.2 hu, rfl⟩
  have hBooks : c.books? t = some u.ledger := books?_of_contract? hu
  refine ⟨fun x => ?_, fun o s => ?_, ?_, fun x y => Address.keyText_inj.1,
    fun o s o' s' => Address.pairKeyText_inj.1⟩
  · exact ⟨_, _, hField _ _, ask_balanceOf hBooks caller x, hAgrees.balances x⟩
  · exact ⟨_, _, hField _ _, ask_allowance hBooks caller o s, hAgrees.allowances o s⟩
  · refine ⟨u.ledger.supply, (hField _ _).trans ?_, ?_⟩
    · simp [Query.valueNamed, hAgrees.supply, Answer.optional]
    · exact ask_totalSupply hBooks caller

/-- After the router has taken a part of what a saver owns, and the saver has given some to itself,
what is published of the saver is what is left. -/
theorem Reachable.copy_agrees_deposited : ∃ c, Reachable c ∧
    c.kind? Standard.stable = some .stable ∧ Standard.stable ∉ c.blank ∧
    c.ask default Standard.stable (.balanceOf (.account 1)) = .ok (.amount 60) ∧
    ∃ entry, c.ask default Standard.stable
      (.published "balances" (Address.account 1).keyText) = .ok (.optional .amount entry) ∧
      entry.getD 0 = 60 := by
  have hEnd : (Standard.places.follow {} (Standard.pooled 0 1 { admin := .account 0 } rateScale
      100 ++ [.call 1 Standard.share (.share (.deposit 40 (.account 1))),
        .call 1 Standard.stable (.token (.transfer (.account 1) 30))])).any (fun c =>
      Standard.places.completes c && (c.ask default Standard.stable
        (.balanceOf (.account 1))).toOption.any fun answer => answer.amount? == some 60) =
          true := by
    decide +kernel
  obtain ⟨c, hRun, hComplete, hHolds⟩ := Wiring.exists_reached hEnd
  obtain ⟨answer, hAnswer, hAmount⟩ := (Option.any_eq_true _ _).1 hHolds
  obtain rfl := Answer.of_amount? (eq_of_beq hAmount)
  have hOwns := Result.of_toOption hAnswer
  obtain ⟨u, hu⟩ : ∃ u, c.contract? Standard.stable = some (.stable u) := hComplete.stable
  have hStands : c.kind? Standard.stable = some .stable := kind?_of_contract? hu
  have hBuilt : Standard.stable ∉ c.blank := hRun.kept.constructed _ List.mem_cons_self
  obtain ⟨entry, n, hEntry, hBalance, hSame⟩ :=
    (hRun.reachable.copy_agrees hStands hBuilt default).1 (.account 1)
  obtain ⟨⟩ := Except.ok.inj (hBalance.symm.trans hOwns)
  exact ⟨c, hRun.reachable, hStands, hBuilt, hOwns, entry, hEntry, hSame⟩

end Runs

end Treasury
