import Mathlib.Algebra.BigOperators.Group.Finset.Piecewise
import Mathlib.Algebra.Order.BigOperators.Group.Finset
import Treasury.Proofs.Run

/-! Books that add up. What everyone owns of a token adds up to its supply, whatever users do, so
that no balance can outgrow the range of amounts. Ledgers that stand by themselves are left out, and
so is a stable token whose constructor is left for later: it starts the count of its supply anew. -/
namespace Treasury

open Chain

namespace Token.Ledger

/-- The books add up: together the holders own the supply, and the supply is an amount. -/
structure Balanced (l : Ledger) : Prop where
  fits : l.supply < Amount.bound
  adds : ∃ holders : Finset Address, (∀ a ∉ holders, l.balanceOf a = 0) ∧
    ∑ a ∈ holders, l.balanceOf a = l.supply

variable {l l' : Ledger} {giver taker owner spender initiator account self a b : Address}
  {n given taken : Amount}

namespace Balanced

theorem of_empty (hBalances : l.balances = .const 0) (hSupply : l.supply = 0) : l.Balanced := by
  refine ⟨?_, ∅, fun a _ => by rw [balanceOf, hBalances, Table.read_const], ?_⟩
  · rw [hSupply]
    exact Nat.two_pow_pos 256
  · rw [Finset.sum_empty, hSupply]

/-- Any two addresses can be counted among the holders. -/
theorem holders_with (h : l.Balanced) (a b : Address) : ∃ holders : Finset Address,
    a ∈ holders ∧ b ∈ holders ∧ (∀ x ∉ holders, l.balanceOf x = 0) ∧
      ∑ x ∈ holders, l.balanceOf x = l.supply := by
  obtain ⟨holders, hOutside, hSum⟩ := h.adds
  have hMore : holders ⊆ insert a (insert b holders) := fun x hx =>
    Finset.mem_insert_of_mem (Finset.mem_insert_of_mem hx)
  refine ⟨_, Finset.mem_insert_self a _, Finset.mem_insert_of_mem (Finset.mem_insert_self b _),
    fun x hx => hOutside x fun hIn => hx (hMore hIn), ?_⟩
  rw [← hSum]
  exact (Finset.sum_subset hMore fun x _ hx => hOutside x hx).symm

/-- Books still add up when the supply changes by what balances change. -/
theorem of_change (giver taker : Address) (h : l.Balanced) (hBalances : ∀ a, l'.balanceOf a +
      (if a = giver then given else 0) = l.balanceOf a + if a = taker then taken else 0)
    (hSupply : l'.supply + given = l.supply + taken) (hFits : l'.supply < Amount.bound) :
    l'.Balanced := by
  obtain ⟨holders, hGiver, hTaker, hOutside, hSum⟩ := h.holders_with giver taker
  refine ⟨hFits, holders, fun a ha => ?_, ?_⟩
  · have hOwns := hBalances a
    rw [if_neg (ne_of_mem_of_not_mem hGiver ha).symm, if_neg (ne_of_mem_of_not_mem hTaker ha).symm,
      hOutside a ha] at hOwns
    exact hOwns
  · have hTotal := Finset.sum_congr (rfl : holders = holders) fun a _ => hBalances a
    simp only [Finset.sum_add_distrib, Finset.sum_ite_eq', hGiver, hTaker, if_true, hSum] at hTotal
    exact Nat.add_right_cancel (hTotal.trans hSupply.symm)

/-- Nobody owns more than the supply. -/
theorem le_supply (h : l.Balanced) (a : Address) : l.balanceOf a ≤ l.supply := by
  obtain ⟨holders, ha, -, -, hSum⟩ := h.holders_with a a
  rw [← hSum]
  exact Finset.single_le_sum (fun _ _ => Nat.zero_le _) ha

/-- No two own more than the supply between them. -/
theorem add_le_supply (h : l.Balanced) (hNe : a ≠ b) :
    l.balanceOf a + l.balanceOf b ≤ l.supply := by
  obtain ⟨holders, ha, hb, -, hSum⟩ := h.holders_with a b
  rw [← hSum, ← Finset.sum_pair hNe]
  exact Finset.sum_le_sum_of_subset (by simp [Finset.insert_subset_iff, ha, hb])

theorem transfer (hl : l.Balanced) (h : l.transfer giver taker n = .ok l') : l'.Balanced := by
  obtain ⟨hMoved, -, hSupply⟩ := transfer_spec h
  exact of_change giver taker hl hMoved (by rw [hSupply]) (hSupply ▸ hl.fits)

theorem approve (hl : l.Balanced) : (l.approve owner spender n).Balanced := ⟨hl.fits, hl.adds⟩

theorem transferFrom (hl : l.Balanced) (h : l.transferFrom spender owner taker n = .ok l') :
    l'.Balanced := by
  obtain ⟨hMoved, -, hSupply⟩ := transferFrom_spec h
  exact of_change owner taker hl hMoved (by rw [hSupply]) (hSupply ▸ hl.fits)

theorem mint (hl : l.Balanced) (h : l.mint account n = .ok l') : l'.Balanced := by
  obtain ⟨hMore, -, hSupply⟩ := mint_spec h
  refine of_change account account hl (fun a => ?_) ((Nat.add_zero _).trans hSupply) ?_
  · rw [ite_self, Nat.add_zero, hMore a]
  · simp only [Ledger.mint, Result.bind_eq_ok, Amount.add_eq_ok] at h
    obtain ⟨_, _, _, ⟨hFits, rfl⟩, ⟨⟩⟩ := h
    exact hFits

/-- Units that somebody owned are destroyed. -/
theorem of_burnt (hl : l.Balanced)
    (hLess : ∀ a, l'.balanceOf a + (if a = owner then n else 0) = l.balanceOf a)
    (hSupply : l'.supply + n = l.supply) : l'.Balanced := by
  refine of_change owner owner hl (fun a => ?_) (hSupply.trans (Nat.add_zero _).symm) ?_
  · rw [ite_self, Nat.add_zero, hLess a]
  · exact Nat.lt_of_le_of_lt (Nat.le_of_add_right_le (Nat.le_of_eq hSupply)) hl.fits

theorem burn (hl : l.Balanced) (h : l.burn owner n = .ok l') : l'.Balanced :=
  hl.of_burnt (burn_spec h).1 (burn_spec h).2.2

theorem burnFrom (hl : l.Balanced) (h : l.burnFrom initiator owner n = .ok l') : l'.Balanced :=
  hl.of_burnt (burnFrom_spec h).1 (burnFrom_spec h).2.2

theorem takeShares (hl : l.Balanced) (h : Strategy.takeShares self owner n l = .ok l') :
    l'.Balanced :=
  hl.of_burnt (takeShares_spec h).1 (takeShares_spec h).2.2

/-- Whoever owns an amount can give it away: nobody's balance can become too large by it. -/
theorem transfer_ok (hl : l.Balanced) (hOwns : n ≤ l.balanceOf giver) (taker : Address) :
    ∃ l', l.transfer giver taker n = .ok l' := by
  have hRoom : (if taker = giver then l.balanceOf giver - n else l.balanceOf taker) + n ≤
      l.supply := by
    by_cases hSelf : taker = giver
    · rw [if_pos hSelf, Nat.sub_add_cancel hOwns]
      exact hl.le_supply giver
    · rw [if_neg hSelf]
      exact Nat.le_trans (Nat.add_le_add_left hOwns _) (hl.add_le_supply hSelf)
  simp only [Ledger.transfer, debit, credit, Result.bind_eq_ok, ensure_eq_ok, Amount.add_eq_ok]
  exact ⟨_, _, ⟨(), hOwns, rfl⟩, _, ⟨Nat.lt_of_le_of_lt hRoom hl.fits, rfl⟩, rfl⟩

/-- Whoever owns an amount can have it destroyed. -/
theorem burn_ok (hl : l.Balanced) (hOwns : n ≤ l.balanceOf owner) :
    ∃ l', l.burn owner n = .ok l' := by
  simp only [Ledger.burn, debit, Result.bind_eq_ok, ensure_eq_ok, Amount.sub_eq_ok]
  exact ⟨_, _, ⟨(), hOwns, rfl⟩, _, ⟨Nat.le_trans hOwns (hl.le_supply owner), rfl⟩, rfl⟩

theorem move {m : Move} (hl : l.Balanced) (h : m.onLedger l = .ok l') : l'.Balanced := by
  cases m with
  | transfer => exact hl.transfer h
  | approve =>
    cases h
    exact hl.approve
  | transferFrom => exact hl.transferFrom h

end Balanced

end Token.Ledger

open Token (Ledger)

/-- The books at an address add up, if it has any. -/
def Chain.Balanced (c : Chain) (t : Address) : Prop := ∀ l, c.books? t = some l → l.Balanced

namespace Chain.Balanced

variable {c c' : Chain} {t b : Address}

theorem of_books (hc : c.Balanced t) (h : c'.books? t = c.books? t) : c'.Balanced t :=
  fun l hl => hc l (h ▸ hl)

theorem moves {m : Token.Move} (hc : c.Balanced t) (h : c.Moves b m c') : c'.Balanced t := by
  by_cases hb : t = b
  · subst hb
    obtain ⟨l, l', hl, hMove, hl'⟩ := h.spec
    intro l'' hl''
    obtain rfl := Option.some.inj (hl'.symm.trans hl'')
    exact (hc l hl).move hMove
  · exact hc.of_books (h.books_frame hb)

theorem poolKeeps {act : Ledger → Result Ledger} (hc : c.Balanced t) (h : c.PoolKeeps b act c')
    (hAct : ∀ l l', l.Balanced → act l = .ok l' → l'.Balanced) : c'.Balanced t := by
  by_cases hb : t = b
  · subst hb
    obtain ⟨l, l', hl, hKeep, hl'⟩ := h.spec
    intro l'' hl''
    obtain rfl := Option.some.inj (hl'.symm.trans hl'')
    exact hAct l l' (hc l hl) hKeep
  · exact hc.of_books (h.books_frame hb)

/-- A contract is replaced by one whose books add up if the old ones do. -/
theorem put {old new : Contract} (hc : c.Balanced t) (hOld : c.contract? b = some old)
    (hNew : ∀ l', new.books? = some l' → ∃ l, old.books? = some l ∧ (l.Balanced → l'.Balanced)) :
    (c.put b new).Balanced t := by
  intro l' hl'
  rw [books?_put hOld] at hl'
  split at hl'
  · next h =>
    subst h
    obtain ⟨l, hl, hKept⟩ := hNew l' hl'
    exact hKept (hc l ((books?_of_contract? hOld).trans hl))
  · exact hc l' hl'

end Chain.Balanced

variable {user t : Address} {c c' : Chain}

theorem Deal.balanced {May : Chain → Address → Prop} (h : Deal May user c c')
    (hc : c.Balanced t) : c'.Balanced t := by
  induction h with
  | refl => exact hc
  | trans _ _ ihFirst ihThen => exact ihThen (ihFirst hc)
  | sent _ hMove | allowed hMove | drawn hMove | collected _ _ hMove => exact hc.moves hMove
  | lent _ hAllow _ hEnd ih => exact (ih (hc.moves hAllow)).moves hEnd
  | joined _ _ hMove hMint =>
    exact (hc.moves hMove).poolKeeps hMint fun _ _ hl => hl.mint
  | left _ hTakes hTake hMove =>
    refine Chain.Balanced.moves (hc.poolKeeps hTake fun _ _ hl => ?_) hMove
    cases hTakes with
    | adapter => exact hl.takeShares
    | vault => exact hl.burnFrom

theorem Flow.balanced (h : Flow user c c') (hc : c.Balanced t) : c'.Balanced t := by
  induction h with
  | trade hTrade => exact hTrade.balanced hc
  | trans _ _ ihFirst ihThen => exact ihThen (ihFirst hc)
  | lent _ hAllow _ hEnd ih => exact (ih (hc.moves hAllow)).moves hEnd
  | issued hOld hMint =>
    refine hc.put hOld fun l' hl' => ⟨_, rfl, fun hl => ?_⟩
    cases hl'
    exact hl.mint hMint
  | retired hOld _ hRetire =>
    obtain ⟨_, hBurn, rfl⟩ := ShareToken.retire_spec hRetire
    refine hc.put hOld fun l' hl' => ⟨_, rfl, fun hl => ?_⟩
    cases hl'
    exact hl.burnFrom hBurn
  | recorded hOld | paused hOld => exact hc.of_books (books?_put_same hOld (by rfl) _)

/-- A constructor leaves the books of any contract but the stable token as they are. -/
theorem Construction.Builds.same_books {old new : Contract} (h : Construction.Builds c old new)
    (hKind : old.kind ≠ .stable) : new.books? = old.books? := by
  cases h with
  | fixedRate h =>
    simp only [Strategy.FixedRate.construct, Result.bind_eq_ok] at h
    obtain ⟨_, _, ⟨⟩⟩ := h
    rfl
  | stable => exact absurd rfl hKind
  | share | yieldVault | synthetic | wrapped | custody | router | roles => rfl

/-- What a constructor makes of a contract whose books are empty has empty books. -/
theorem Construction.Builds.empty_books {kind : Contract.Kind} {new : Contract} {l : Ledger}
    (h : Construction.Builds c kind.blank new) (hl : new.books? = some l) : l.Balanced := by
  by_cases hStable : kind = .stable
  · subst hStable
    cases h
    cases hl
    exact .of_empty rfl rfl
  · rw [h.same_books (by cases kind <;> simp_all [Contract.Kind.blank, Contract.kind])] at hl
    cases kind <;> cases hl <;> exact .of_empty rfl rfl

/-- A token that keeps its count: not a ledger by itself, nor a stable token that can be constructed
over again. -/
structure Chain.Counts (c : Chain) (t : Address) : Prop where
  not_ledger : c.kind? t ≠ some .ledger
  constructed : c.kind? t = some .stable → t ∉ c.blank

theorem Chain.Counts.of_kind {kind : Contract.Kind} (h : c.kind? t = some kind)
    (hKind : kind ∉ [.ledger, .stable]) : c.Counts t := by
  simp only [List.mem_cons, List.not_mem_nil, or_false, not_or] at hKind
  constructor
  · exact fun hLedger => hKind.1 (Option.some.inj (h.symm.trans hLedger))
  · exact fun hStable => absurd (Option.some.inj (h.symm.trans hStable)) hKind.2

theorem Chain.Counts.of_same (h : c'.Counts t) (hKind : c'.kind? t = c.kind? t)
    (hBlank : c'.blank = c.blank) : c.Counts t :=
  ⟨hKind ▸ h.not_ledger, hKind ▸ hBlank ▸ h.constructed⟩

theorem Deed.balanced (h : Deed user c c') (ht : c.Counts t) (hc : c.Balanced t) :
    c'.Balanced t := by
  cases h with
  | minted hOld hMint =>
    obtain ⟨_, _, hMinted, rfl⟩ := Token.Stable.mint_spec hMint
    refine hc.put hOld fun l' hl' => ⟨_, rfl, fun hl => ?_⟩
    cases hl'
    exact hl.mint hMinted
  | burned hOld hBurn =>
    obtain ⟨_, _, hBurnt, rfl⟩ := Token.Stable.burn_spec hBurn
    refine hc.put hOld fun l' hl' => ⟨_, rfl, fun hl => ?_⟩
    cases hl'
    exact hl.burn hBurnt
  | @standalone a old new hOld hKind hSame =>
    by_cases hAt : t = a
    · subst hAt
      -- A registry and a record of roles have no books, and a ledger by itself is left out.
      have hNot : new.kind ≠ .ledger := fun hLedger =>
        ht.not_ledger (by rw [kind?_of_contract? hOld, ← hSame, hLedger])
      intro l hl
      rw [books?_put hOld, if_pos rfl] at hl
      rw [← hSame] at hKind
      cases new with
      | registry | roles => cases hl
      | ledger => exact absurd rfl hNot
      | stable | share | yieldVault | fixedRate | synthetic | wrapped | custody | router =>
        simp [Contract.kind] at hKind
    · exact hc.of_books (by rw [books?_put hOld, if_neg hAt])
  | @constructed a old new hOld hBlank hBuilds =>
    by_cases hAt : t = a
    · subst hAt
      refine hc.of_books (books?_put_same hOld (hBuilds.same_books fun hStable => ?_) t)
      exact ht.constructed (by rw [kind?_of_contract? hOld, hStable]) hBlank
    · exact hc.of_books (by rw [books?_put hOld, if_neg hAt])

theorem Effect.balanced (h : Effect user c c') (ht : c.Counts t) (hc : c.Balanced t) :
    c'.Balanced t := by
  induction h with
  | flow hFlow => exact hFlow.balanced hc
  | trans hFirst _ ihFirst ihThen =>
    exact ihThen (ht.of_same (hFirst.kind? t).symm hFirst.blank.symm) (ihFirst ht hc)
  | deed h => exact h.balanced ht hc
  | configured h => exact hc.of_books (h.same t).2

/-- The books of a new contract add up. -/
theorem Chain.Gains.balanced {x : Contract} (h : c.Gains t x c') : c'.Balanced t := by
  intro l hl
  rw [Chain.books?, h.contracts, if_pos rfl, Option.bind_some] at hl
  obtain ⟨kind, hBuilds | ⟨rfl, -⟩⟩ := h.new
  · exact hBuilds.empty_books hl
  · cases kind <;> cases hl <;> exact .of_empty rfl rfl

/-- Whatever is done with a chain, books that add up go on to add up, and new books do. -/
theorem Chain.Advances.balanced (h : c.Advances user c') (ht : c'.Counts t)
    (hc : c.Counts t → c.Balanced t) : c'.Balanced t := by
  cases h with
  | effect h =>
    have hBefore := ht.of_same (h.kind? t) h.blank
    exact h.balanced hBefore (hc hBefore)
  | governed h | rewired h =>
    exact (hc (ht.of_same (h.same t).1 h.blank)).of_books (h.same t).2
  | @gains _ a x h =>
    by_cases hAt : t = a
    · exact hAt ▸ h.balanced
    · have hKind := h.kind? hAt
      refine (hc ⟨hKind ▸ ht.not_ledger, fun hStable hBlank => ?_⟩).of_books (h.books? hAt)
      exact ht.constructed (hKind ▸ hStable) (h.blank.1 t hBlank)
  | skipped => exact hc (ht.of_same (by rfl) (by rfl))

/-- The books of every token that keeps its count add up at every moment of a run. -/
theorem Run.balanced {May : Address → Prop} {Kept : Chain → Prop} (h : Run May Kept c)
    (ht : c.Counts t) : c.Balanced t := by
  refine h.invariant (P := fun c => c.Counts t → c.Balanced t) (fun _ l hl => ?_) ?_ ht
  · cases hl
  · exact fun c c' user _ _ _ hc hAdvances ht => hAdvances.balanced ht hc

end Treasury
