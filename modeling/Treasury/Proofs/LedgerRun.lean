import Treasury.Proofs.Course
import Treasury.Proofs.LedgerSums
import Treasury.Proofs.Operations
import Treasury.Proofs.TokenFaults

/-! Books at any moment, of tokens and of ledgers that stand by themselves. What everyone owns adds
up to the supply, whoever makes calls, as long as no stable token is set up over again while it has
units. So a transfer is turned down for want of a balance or of an allowance, or is carried out; no
amount ever leaves its range by it. -/
namespace Treasury

open Exec Chain

namespace Token

namespace Ledger

variable {l l' : Ledger} {giver taker owner spender : Address} {n : Amount} {e : Fault}

namespace Balanced

/-- Every operation of a ledger leaves books that add up. -/
theorem operates (hl : l.Balanced) (h : l.Operates l') : l'.Balanced := by
  cases h with
  | moved m h => exact hl.move h
  | spent h =>
    simp only [spendAllowance, Result.bind_eq_ok] at h
    obtain ⟨_, -, ⟨⟩⟩ := h
    exact hl.approve
  | minted h => exact hl.mint h
  | burned h => exact hl.burn h

/-- A transfer is turned down for want of a balance, and for nothing else. -/
theorem transfer_eq_error (hl : l.Balanced) (h : l.transfer giver taker n = .error e) :
    e = .refused .insufficientBalance := by
  rcases Nat.lt_or_ge (l.balanceOf giver) n with hPoor | hOwns
  · rw [Ledger.transfer, debit_eq_error.2 ⟨hPoor, rfl⟩] at h
    cases h
    rfl
  · obtain ⟨l', hDone⟩ := hl.transfer_ok hOwns taker
    rw [hDone] at h
    cases h

theorem transferFrom_eq_error (hl : l.Balanced)
    (h : l.transferFrom spender owner taker n = .error e) :
    e = .refused .insufficientBalance ∨ e = .refused .insufficientAllowance := by
  rcases Result.bind_eq_error.1 h with hSpend | ⟨spent, hSpend, hTransfer⟩
  · exact .inr (spendAllowance_eq_error.1 hSpend).2
  · exact .inl ((hl.operates (.spent hSpend)).transfer_eq_error hTransfer)

end Balanced

end Ledger

namespace Stable

variable {t t' : Stable}

/-- Every operation of a stable token leaves books that add up. -/
theorem Operates.balanced (h : t.Operates t') (ht : t.ledger.Balanced) : t'.ledger.Balanced := by
  cases h with
  | moved m h => exact ht.move (Move.onStable_spec h).1
  | minted h =>
    obtain ⟨_, _, hMint, rfl⟩ := mint_spec h
    exact ht.mint hMint
  | burned h =>
    obtain ⟨_, _, hBurn, rfl⟩ := burn_spec h
    exact ht.burn hBurn
  | minters h =>
    obtain ⟨-, _, rfl⟩ := setMinter_spec h
    exact ht

/-- To set up a stable token that has no units leaves its books as they are. -/
theorem ledger_construct (h : t.ledger.supply = 0) (admin : Address) (name symbol : String)
    (decimals : Nat) : (t.construct admin name symbol decimals).ledger = t.ledger := by
  rw [construct, ← h]

end Stable

end Token

/-- The stable token at `t` is set up over again while it has units. -/
def Chain.Restarts (t : Address) (c c' : Chain) : Prop :=
  ∃ u admin name symbol decimals, c.contract? t = some (.stable u) ∧ u.ledger.supply ≠ 0 ∧
    c' = c.put t (.stable (u.construct admin name symbol decimals))

section Runs

variable {May : Address → Prop} {Kept : Chain → Prop} {c c' : Chain} {t : Address}
  {u : Token.Stable} {l : Token.Ledger}

/-- In any run, the books of a ledger that stands by itself add up. -/
theorem Run.ledger_balanced (h : Run May Kept c) (hStands : c.contract? t = some (.ledger l)) :
    l.Balanced := by
  induction h generalizing l with
  | start => cases hStands
  | step _ _ hLeads _ ih =>
    rcases hLeads.kind_before (kind?_of_contract? hStands) with hKind | ⟨x, hGains⟩
    · obtain ⟨x, hx, hLedger⟩ := Option.map_eq_some_iff.1 hKind
      cases x <;> cases hLedger
      obtain ⟨l', hl', hSame | hOperates⟩ := hLeads.ledger hx
      · obtain ⟨⟩ := Option.some.inj (hl'.symm.trans hStands)
        exact hSame ▸ ih hx
      · obtain ⟨⟩ := Option.some.inj (hl'.symm.trans hStands)
        exact (ih hx).operates hOperates
    · exact hGains.balanced l (books?_of_contract? hStands)

/-- The books of a stable token add up along a course on which none is set up over again while it
has units. -/
theorem Course.stable_balanced (h : Course May (fun _ c c' => ∀ a, ¬Restarts a c c') c)
    (hStands : c.contract? t = some (.stable u)) : u.ledger.Balanced := by
  induction h generalizing u with
  | start => cases hStands
  | step _ _ hLeads hAdmits ih =>
    rcases hLeads.stood hStands with ⟨u₀, hStood⟩ | ⟨x, hGains⟩
    · rcases hLeads.operates (t := t) with hOperates | hAgain
      · obtain ⟨u', hu', hPasses⟩ := hOperates u₀ hStood
        obtain ⟨⟩ := Option.some.inj (hu'.symm.trans hStands)
        exact Token.Stable.Operates.keeps (P := fun u => u.ledger.Balanced)
          (fun _ _ hStep => hStep.balanced) hPasses (ih hStood)
      · obtain ⟨-, u₁, admin, name, symbol, decimals, hu₁, hPut⟩ := hAgain
        have hNone : u₁.ledger.supply = 0 := by
          by_contra hUnits
          exact hAdmits t ⟨u₁, admin, name, symbol, decimals, hu₁, hUnits, hPut⟩
        rw [hPut, contract?_put_self _ hu₁] at hStands
        obtain ⟨⟩ := Option.some.inj hStands
        rw [Token.Stable.ledger_construct hNone]
        exact ih hu₁
    · exact hGains.balanced _ (books?_of_contract? hStands)

/-- All books add up along such a course. -/
theorem Course.balanced (h : Course May (fun _ c c' => ∀ a, ¬Restarts a c c') c) :
    c.Balanced t := by
  intro l hl
  cases hx : c.contract? t with
  | none => simp [Chain.books?, hx] at hl
  | some x =>
    have hBooks := (books?_of_contract? hx).symm.trans hl
    cases x with
    | stable u =>
      cases hBooks
      exact h.stable_balanced hx
    | ledger l =>
      cases hBooks
      exact h.run.ledger_balanced hx
    | _ => exact h.run.balanced (.of_kind (kind?_of_contract? hx) (by simp [Contract.kind])) l hl

end Runs

namespace Chain

variable {c : Chain} {t caller giver taker owner spender : Address} {n : Amount}
  {l : Token.Ledger} {r : Result Outcome} {act : Token.Ledger → Result Token.Ledger}

/-- What is asked of books is read off them. -/
theorem ask_books (hl : c.books? t = some l) (entry : String) (read : Token.Ledger → Amount) :
    (.amount <$> (do pure (read (← View.books entry t)) : View Amount) : View Answer) c =
      .ok (.amount (read l)) := by
  obtain ⟨x, hx, hSome⟩ := Option.bind_eq_some_iff.1 hl
  have hBooks : View.books entry t c = .ok l :=
    View.bind_eq_ok.2 ⟨x, View.contract_eq_ok.2 hx, by rw [hSome]; rfl⟩
  have hRead : (do pure (read (← View.books entry t)) : View Amount) c = .ok (read l) :=
    View.bind_eq_ok.2 ⟨l, hBooks, rfl⟩
  exact congrArg (Answer.amount <$> ·) hRead

theorem ask_totalSupply (hl : c.books? t = some l) (caller : Address) :
    c.ask caller t .totalSupply = .ok (.amount l.supply) := ask_books hl _ _

theorem ask_balanceOf (hl : c.books? t = some l) (caller a : Address) :
    c.ask caller t (.balanceOf a) = .ok (.amount (l.balanceOf a)) := ask_books hl _ _

theorem ask_allowance (hl : c.books? t = some l) (caller owner spender : Address) :
    c.ask caller t (.allowance owner spender) = .ok (.amount (l.allowance owner spender)) :=
  ask_books hl _ _

/-- What a transfer from `giver` to `taker` of the token at `t` may come to. It is turned down for
want of a balance or of an allowance, or it is carried out, and changes neither the supply nor what
others own. -/
def Settles (c : Chain) (t giver taker : Address) : Result Outcome → Prop
  | .error e => e = .refused .insufficientBalance ∨ e = .refused .insufficientAllowance
  | .ok out => out.chain.supply t = c.supply t ∧
    ∀ a, a ≠ giver → a ≠ taker → out.chain.balance t a = c.balance t a

/-- A call does with the books at an address what `act` does with them. -/
def Posts (t : Address) (act : Token.Ledger → Result Token.Ledger) (l : Token.Ledger) :
    Result Outcome → Prop
  | .error e => act l = .error e
  | .ok out => ∃ l', act l = .ok l' ∧ out.chain.books? t = some l'

/-- What a call comes to that moves an amount in books that add up. -/
theorem Posts.settles (h : Posts t act l r) (hl : c.books? t = some l)
    (hErrors : ∀ e, act l = .error e →
      e = .refused .insufficientBalance ∨ e = .refused .insufficientAllowance)
    (hMoves : ∀ l', act l = .ok l' → (∀ a, l'.balanceOf a + (if a = giver then n else 0) =
      l.balanceOf a + if a = taker then n else 0) ∧ l'.supply = l.supply) :
    c.Settles t giver taker r := by
  cases r with
  | error e => exact hErrors e h
  | ok out =>
    obtain ⟨l', hAct, hl'⟩ := h
    obtain ⟨hMoved, hSupply⟩ := hMoves l' hAct
    refine ⟨by rw [Chain.supply, Chain.supply, hl', hl]; exact hSupply, fun a hGiver hTaker => ?_⟩
    have hOwns := hMoved a
    rw [if_neg hGiver, if_neg hTaker] at hOwns
    rw [Chain.balance, Chain.balance, hl', hl]
    exact hOwns

theorem Posts.settles_transfer
    (h : Posts t (fun l => l.transfer giver taker n) l r) (hl : c.books? t = some l)
    (hBalanced : l.Balanced) : c.Settles t giver taker r :=
  h.settles hl (fun _ hError => .inl (hBalanced.transfer_eq_error hError)) fun _ hDone =>
    let ⟨hMoved, _, hSupply⟩ := Token.Ledger.transfer_spec hDone
    ⟨hMoved, hSupply⟩

theorem Posts.settles_transferFrom
    (h : Posts t (fun l => l.transferFrom spender owner taker n) l r) (hl : c.books? t = some l)
    (hBalanced : l.Balanced) : c.Settles t owner taker r :=
  h.settles hl (fun _ => hBalanced.transferFrom_eq_error) fun _ hDone =>
    let ⟨hMoved, _, hSupply⟩ := Token.Ledger.transferFrom_spec hDone
    ⟨hMoved, hSupply⟩

/-- What a call comes to that makes a move of a token. -/
theorem posts_move {m : Token.Move} {command : Command} (hl : c.books? t = some l)
    (hToken : c.kind? t ≠ some .ledger)
    (hDone : ∀ out, c.submit caller t command = .ok out → c.Moves t m out.chain)
    (hFails : ∀ e, Fails (command.run c.callback t caller) c e →
      ((e = .invalidContractAddress ∨ ∃ entry, e = .noSuchMethod entry) ∧ c.Tokenless t) ∨
        ∃ l, c.books? t = some l ∧ m.onLedger l = .error e) :
    Posts t m.onLedger l (c.submit caller t command) := by
  cases hCall : c.submit caller t command with
  | ok out =>
    obtain ⟨l₀, l', hl₀, hMove, hl'⟩ := (hDone out hCall).spec
    obtain rfl := Option.some.inj (hl.symm.trans hl₀)
    exact ⟨l', hMove, hl'⟩
  | error e =>
    rcases hFails e (submit_eq_error.1 hCall) with ⟨-, hNone | hLedger⟩ | ⟨l₀, hl₀, hMove⟩
    · rw [hl] at hNone
      cases hNone
    · exact absurd hLedger hToken
    · obtain rfl := Option.some.inj (hl.symm.trans hl₀)
      exact hMove

theorem posts_transfer (hl : c.books? t = some l) (hToken : c.kind? t ≠ some .ledger)
    (caller taker : Address) (n : Amount) : Posts t (fun l => l.transfer caller taker n) l
      (c.submit caller t (.token (.transfer taker n))) := by
  refine posts_move (m := .transfer caller taker n) hl hToken (fun out hCall => ?_) fun e h => ?_
  · refine of_submit (Q := fun _ v => c.Moves t (.transfer caller taker n) v.chain) ?_ hCall
    simp only [Command.run, Token.Command.run, after_bind, after_pure]
    exact Token.after_transfer
  · simp only [Command.run, Token.Command.run, fails_bind, fails_pure, and_false, exists_false,
      or_false] at h
    exact (Token.fails_transfer h).imp_left (And.imp_left (Or.imp_right fun h => ⟨_, h⟩))

theorem posts_transferFrom (hl : c.books? t = some l) (hToken : c.kind? t ≠ some .ledger)
    (caller owner taker : Address) (n : Amount) :
    Posts t (fun l => l.transferFrom caller owner taker n) l
      (c.submit caller t (.token (.transferFrom owner taker n))) := by
  refine posts_move (m := .transferFrom caller owner taker n) hl hToken (fun out hCall => ?_)
    fun e h => ?_
  · refine of_submit (Q := fun _ v => c.Moves t (.transferFrom caller owner taker n) v.chain) ?_
      hCall
    simp only [Command.run, Token.Command.run, after_bind, after_pure]
    exact Token.after_transferFrom
  · simp only [Command.run, Token.Command.run, fails_bind, fails_pure, and_false, exists_false,
      or_false] at h
    exact (Token.fails_transferFrom h).imp_left (And.imp_left (Or.imp_right fun h => ⟨_, h⟩))

/-- What a call comes to that changes a ledger that stands by itself. -/
theorem posts_ledger {command : Token.Ledger.Command} {entry : String}
    (hl : c.contract? t = some (.ledger l))
    (hRun : command.run t caller = amend caller t entry act) :
    Posts t act l (c.submit caller t (.ledger command)) := by
  cases hCall : c.submit caller t (.ledger command) with
  | ok out =>
    refine of_submit (Q := fun _ v => ∃ l', act l = .ok l' ∧ v.chain.books? t = some l') ?_ hCall
    simp only [Command.run, hRun, after_bind, after_pure]
    refine after_amend fun l₀ l' v hl₀ hAct hv => ?_
    obtain ⟨⟩ := Option.some.inj (hl.symm.trans hl₀)
    exact ⟨l', hAct, by rw [hv, books?_put hl, if_pos rfl]; rfl⟩
  | error e =>
    have h := submit_eq_error.1 hCall
    have : Additive (amend caller t entry act) := by
      unfold amend
      infer_instance
    simp only [Command.run, hRun, fails_bind, fails_pure, and_false, exists_false, or_false] at h
    exact (fails_amend hl).1 h

end Chain

open Chain

/-- Along a course on which no stable token is set up over again while it has units, all books add
up at every moment, of tokens and of ledgers that stand by themselves. What everyone owns, as it is
answered, adds up to the supply. A transfer, by whoever calls and between whomever, is turned down
for want of a balance or of an allowance, or is carried out; then the supply is what it was, and so
is what anybody owns who has no part in it. -/
theorem Course.books_add_up {c : Chain} {t : Address} {l : Token.Ledger}
    (hCourse : Course (fun _ => True) (fun _ c c' => ∀ a, ¬Restarts a c c') c)
    (hBooks : c.books? t = some l) :
    (∀ caller, c.ask caller t .totalSupply = .ok (.amount l.supply) ∧
      ∀ a, c.ask caller t (.balanceOf a) = .ok (.amount (l.balanceOf a))) ∧
    (∃ holders : Finset Address, (∀ a ∉ holders, l.balanceOf a = 0) ∧
      ∑ a ∈ holders, l.balanceOf a = l.supply) ∧
    (c.kind? t ≠ some .ledger → ∀ caller taker n,
      c.Settles t caller taker (c.submit caller t (.token (.transfer taker n))) ∧
      ∀ owner, c.Settles t owner taker
        (c.submit caller t (.token (.transferFrom owner taker n)))) ∧
    (c.kind? t = some .ledger → ∀ caller giver taker n,
      c.Settles t giver taker (c.submit caller t (.ledger (.transfer giver taker n))) ∧
      ∀ spender, c.Settles t giver taker
        (c.submit caller t (.ledger (.transferFrom spender giver taker n)))) := by
  have hBalanced := hCourse.balanced l hBooks
  refine ⟨fun caller => ⟨ask_totalSupply hBooks caller, ask_balanceOf hBooks caller⟩,
    hBalanced.adds, fun hToken caller taker n => ⟨?_, fun owner => ?_⟩,
    fun hLedger caller giver taker n => ?_⟩
  · exact (posts_transfer hBooks hToken caller taker n).settles_transfer hBooks hBalanced
  · exact (posts_transferFrom hBooks hToken caller owner taker n).settles_transferFrom hBooks
      hBalanced
  · obtain ⟨x, hx, hKind⟩ := Option.map_eq_some_iff.1 hLedger
    cases x <;> cases hKind
    obtain rfl := Option.some.inj ((books?_of_contract? hx).symm.trans hBooks)
    exact ⟨(posts_ledger hx rfl).settles_transfer hBooks hBalanced,
      fun spender => (posts_ledger hx rfl).settles_transferFrom hBooks hBalanced⟩

/-- Whether no token loses all of its units from one chain to another. -/
def Chain.keepsCount (c c' : Chain) : Bool :=
  c.contracts.all fun entry => c.supply entry.1 = 0 ∨ c'.supply entry.1 ≠ 0

theorem Chain.not_restarts_of_keepsCount {c c' : Chain} (h : c.keepsCount c' = true) (a : Address) :
    ¬Restarts a c c' := by
  rintro ⟨u, admin, name, symbol, decimals, hu, hUnits, rfl⟩
  have hKept := List.all_eq_true.1 h _ (mem_of_contract? hu)
  simp only [decide_eq_true_eq, Chain.supply, books?_put hu, books?_of_contract? hu, if_true,
    Contract.books?, Option.getD_some] at hKept
  exact hKept.elim hUnits fun hSome => hSome rfl

/-- A stable token is set up twice before it has units. Then a saver is given some, and gives a part
to itself. -/
theorem Course.books_add_up_minted : ∃ c l,
    Course (fun _ => True) (fun _ c c' => ∀ a, ¬Restarts a c c') c ∧
      c.books? Standard.stable = some l ∧ l.supply = 5 ∧
      (∃ holders : Finset Address, (∀ a ∉ holders, l.balanceOf a = 0) ∧
        ∑ a ∈ holders, l.balanceOf a = 5) ∧
      c.Settles Standard.stable (.account 1) (.account 1)
        (c.submit (.account 1) Standard.stable (.token (.transfer (.account 1) 3))) := by
  have hEnd : (Action.follow Chain.keepsCount {}
      [.deployBlank .stable,
        .call 0 Standard.stable (.construct (.stable (.account 0) "Stable" "STBL" 18)),
        .call 0 Standard.stable (.construct (.stable (.account 0) "Stable" "STBL" 18)),
        .call 0 Standard.stable (.stable (.mint (.account 1) 5)),
        .call 1 Standard.stable (.token (.transfer (.account 1) 2))]).any (fun c =>
      decide (c.kind? Standard.stable = some .stable) &&
        (c.books? Standard.stable).any (fun l => l.supply == 5)) = true := by
    decide +kernel
  obtain ⟨c, hCourse, hHolds⟩ :=
    Action.exists_course (fun _ _ _ => Chain.not_restarts_of_keepsCount) hEnd
  simp only [Bool.and_eq_true, decide_eq_true_eq] at hHolds
  obtain ⟨hKind, hSupply⟩ := hHolds
  obtain ⟨l, hl, hFive⟩ := (Option.any_eq_true _ _).1 hSupply
  have hFree : Course (fun _ => True) (fun _ c c' => ∀ a, ¬Restarts a c c') c :=
    hCourse.mono fun _ _ => trivial
  obtain ⟨-, hAdds, hMoves, -⟩ := hFree.books_add_up hl
  rw [eq_of_beq hFive] at hAdds
  refine ⟨c, l, hFree, hl, eq_of_beq hFive, hAdds, ?_⟩
  exact (hMoves (by rw [hKind]; decide) (.account 1) (.account 1) 3).1

/-- A stable token whose constructor was left for later can be set up over again while it has units,
and starts the count of its supply anew. Then what is owned does not add up to the supply, and a
balance can outgrow the range of amounts in a transfer. -/
theorem Run.restarted_uncounted : ∃ c l, Run (fun _ => True) (fun _ => True) c ∧
    c.books? Standard.stable = some l ∧
    (¬∃ holders : Finset Address, (∀ a ∉ holders, l.balanceOf a = 0) ∧
      ∑ a ∈ holders, l.balanceOf a = l.supply) ∧
    c.submit (.account 2) Standard.stable (.token (.transfer (.account 1) 1)) =
      .error .overflow := by
  have hEnd : (Action.follow (fun _ _ => true) {}
      [.deployBlank .stable,
        .call 0 Standard.stable (.construct (.stable (.account 0) "Stable" "STBL" 18)),
        .call 0 Standard.stable (.stable (.mint (.account 1) (Amount.bound - 1))),
        .call 0 Standard.stable (.construct (.stable (.account 0) "Stable" "STBL" 18)),
        .call 0 Standard.stable (.stable (.mint (.account 2) (Amount.bound - 1)))]).any (fun c =>
      (c.books? Standard.stable).any (fun l => l.supply == Amount.bound - 1 &&
          l.balanceOf (.account 1) == Amount.bound - 1 &&
          l.balanceOf (.account 2) == Amount.bound - 1) &&
        (c.submit (.account 2) Standard.stable
          (.token (.transfer (.account 1) 1))).fault? == some .overflow) = true := by
    decide +kernel
  obtain ⟨c, hCourse, hHolds⟩ :=
    @Action.exists_course (fun _ _ _ => True) _ _ _ (fun _ _ _ _ => trivial) hEnd
  simp only [Bool.and_eq_true] at hHolds
  obtain ⟨hCount, hOut⟩ := hHolds
  obtain ⟨l, hl, hOwn⟩ := (Option.any_eq_true _ _).1 hCount
  simp only [Bool.and_eq_true, beq_iff_eq] at hOwn
  obtain ⟨⟨hSupply, hFirst⟩, hSecond⟩ := hOwn
  refine ⟨c, l, hCourse.run.mono (fun _ _ => trivial) fun _ => id, hl, fun hAdds => ?_,
    Result.of_fault? (eq_of_beq hOut)⟩
  have hFits : l.supply < Amount.bound := by
    rw [hSupply]
    decide
  have hTwo := (Token.Ledger.Balanced.mk hFits hAdds).add_le_supply
    (a := .account 1) (b := .account 2) (by decide)
  rw [hFirst, hSecond, hSupply] at hTwo
  exact absurd hTwo (by decide)

end Treasury
