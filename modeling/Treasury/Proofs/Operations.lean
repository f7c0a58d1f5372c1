import Mathlib.Logic.Relation
import Treasury.Proofs.Run

/-! What becomes of a stable token, and of a ledger that stands by itself. Whatever is done with a
chain, a stable token goes through operations of its own, one after the other, unless its
constructor was left for later and runs now; and a ledger makes one operation of its own or stays
as it is. So what each operation keeps is kept throughout a run. -/
namespace Treasury

open Chain

namespace Token.Stable

/-- The operations of the stable token, of whoever may ask for them. -/
inductive Operates : Stable → Stable → Prop where
  | moved {t t' : Stable} (m : Move) (h : m.onStable t = .ok t') : Operates t t'
  | minted {t t' : Stable} {caller account : Address} {n : Amount}
      (h : t.mint caller account n = .ok t') : Operates t t'
  | burned {t t' : Stable} {caller : Address} {n : Amount} (h : t.burn caller n = .ok t') :
      Operates t t'
  | minters {t t' : Stable} {caller account : Address} {allowed : Bool}
      (h : t.setMinter caller account allowed = .ok t') : Operates t t'

/-- What every operation keeps is kept by any number of them. -/
theorem Operates.keeps {P : Stable → Prop} (hStep : ∀ t t', Operates t t' → P t → P t')
    {t t' : Stable} (h : Relation.ReflTransGen Operates t t') (ht : P t) : P t' := by
  induction h with
  | refl => exact ht
  | tail _ hThen ih => exact hStep _ _ hThen ih

end Token.Stable

namespace Chain

/-- The stable token at `t`, if one stands there, goes through operations of its own. -/
def Operates (t : Address) (c c' : Chain) : Prop :=
  ∀ u, c.contract? t = some (.stable u) →
    ∃ u', c'.contract? t = some (.stable u') ∧ Relation.ReflTransGen Token.Stable.Operates u u'

/-- The constructor of the stable token at `t` runs, which was left for later. -/
def Reconstructs (t : Address) (c c' : Chain) : Prop :=
  t ∈ c.blank ∧ ∃ u admin name symbol decimals, c.contract? t = some (.stable u) ∧
    c' = c.put t (.stable (u.construct admin name symbol decimals))

variable {c c₁ c' : Chain} {t a user : Address} {old new : Contract}

namespace Operates

theorem of_same (h : c'.contract? t = c.contract? t) : Operates t c c' :=
  fun u hu => ⟨u, h.trans hu, .refl⟩

theorem refl (c : Chain) : Operates t c c := of_same rfl

theorem trans (hFirst : Operates t c c₁) (hThen : Operates t c₁ c') : Operates t c c' := by
  intro u hu
  obtain ⟨u₁, hu₁, hPasses⟩ := hFirst u hu
  obtain ⟨u', hu', hPasses'⟩ := hThen u₁ hu₁
  exact ⟨u', hu', hPasses.trans hPasses'⟩

/-- A contract that is no stable token changes. -/
theorem put_other (hOld : c.contract? a = some old) (hKind : old.kind ≠ .stable) :
    Operates t c (c.put a new) := by
  intro u hu
  have hNe : t ≠ a := by
    rintro rfl
    obtain rfl := Option.some.inj (hOld.symm.trans hu)
    exact hKind rfl
  exact ⟨u, (contract?_put_of_ne c new hNe).trans hu, .refl⟩

/-- A stable token makes one operation. -/
theorem put_stable {x x' : Token.Stable} (hOld : c.contract? a = some (.stable x))
    (h : x.Operates x') : Operates t c (c.put a (.stable x')) := by
  by_cases hAt : t = a
  · subst hAt
    intro u hu
    obtain ⟨⟩ := Option.some.inj (hOld.symm.trans hu)
    exact ⟨x', contract?_put_self _ hOld, .single h⟩
  · exact of_same (contract?_put_of_ne c _ hAt)

/-- Stable tokens stay as they are. -/
theorem of_pick (h : (c'.contract? t).map (Storage.pick (σ := Token.Stable)) =
    (c.contract? t).map (Storage.pick (σ := Token.Stable))) : Operates t c c' := by
  intro u hu
  rw [hu] at h
  obtain ⟨x, hx, hPick⟩ := Option.map_eq_some_iff.1 h
  exact ⟨u, hx.trans (congrArg some ((Storage.pick_eq_some_iff x u).1 hPick)), .refl⟩

end Operates

theorem Moves.operates {m : Token.Move} (h : c.Moves a m c') : Operates t c c' := by
  obtain ⟨old, new, hOld, hKeep, rfl⟩ := h
  by_cases hKind : old.kind = .stable
  · cases old <;> cases hKind
    simp only [Contract.keepBooks, Option.some.injEq, Result.bind_eq_ok] at hKeep
    obtain ⟨x', hMove, ⟨⟩⟩ := hKeep
    exact .put_stable hOld (.moved m hMove)
  · exact .put_other hOld hKind

theorem PoolKeeps.operates {act : Token.Ledger → Result Token.Ledger} (h : c.PoolKeeps a act c') :
    Operates t c c' := by
  obtain ⟨old, new, hOld, hKept, rfl⟩ := h
  refine .put_other hOld fun hStable => ?_
  cases hKept <;> cases hStable

end Chain

section Steps

variable {user t : Address} {c c' : Chain}

theorem Deal.operates {May : Chain → Address → Prop} (h : Deal May user c c') :
    c.Operates t c' := by
  induction h with
  | refl => exact .refl _
  | trans _ _ ihFirst ihThen => exact ihFirst.trans ihThen
  | sent _ hMove | allowed hMove | drawn hMove | collected _ _ hMove => exact hMove.operates
  | lent _ hAllow _ hEnd ih => exact (hAllow.operates.trans ih).trans hEnd.operates
  | joined _ _ hMove hMint => exact hMove.operates.trans hMint.operates
  | left _ _ hTake hMove => exact hTake.operates.trans hMove.operates

theorem Flow.operates (h : Flow user c c') : c.Operates t c' := by
  induction h with
  | trade hTrade => exact hTrade.operates
  | trans _ _ ihFirst ihThen => exact ihFirst.trans ihThen
  | lent _ hAllow _ hEnd ih => exact (hAllow.operates.trans ih).trans hEnd.operates
  | issued hOld | retired hOld | recorded hOld | paused hOld =>
    exact .put_other hOld (by simp [Contract.kind])

theorem Configured.operates (h : Configured user c c') : c.Operates t c' := by
  cases h with
  | minters hOld h => exact .put_stable hOld (.minters h)
  | tuned hOld h =>
    refine .put_other hOld fun hStable => ?_
    cases h <;> cases hStable
  | ruled hOld | obeyed hOld | released _ _ hOld => exact .put_other hOld (by simp [Contract.kind])
  | bound h => exact .of_pick (h.map (fun _ _ => rfl) (fun _ _ => rfl) t)

theorem Chain.Arranged.operates (h : c.Arranged user c') : c.Operates t c' := by
  cases h with
  | settled h =>
    induction h with
    | refl => exact .refl _
    | step _ hThen ih => exact ih.trans hThen.operates
  | governed h =>
    refine .of_pick (h.map ?_ ?_ ?_ ?_ t)
    all_goals intros; rfl
  | rewired h =>
    cases h with
    | custody hOld | share hOld | router hOld => exact .put_other hOld (by simp [Contract.kind])

theorem Deed.operates (h : Deed user c c') : c.Operates t c' ∨ c.Reconstructs t c' := by
  cases h with
  | minted hOld h => exact .inl (.put_stable hOld (.minted h))
  | burned hOld h => exact .inl (.put_stable hOld (.burned h))
  | standalone hOld hKind =>
    refine .inl (.put_other hOld fun hStable => ?_)
    simp [hStable] at hKind
  | @constructed a old new hOld hBlank h =>
    by_cases hKind : old.kind = .stable
    · by_cases hAt : t = a
      · subst hAt
        cases h <;> cases hKind
        exact .inr ⟨hBlank, _, _, _, _, _, hOld, rfl⟩
      · exact .inl (.of_same (contract?_put_of_ne c _ hAt))
    · exact .inl (.put_other hOld hKind)

theorem Chain.Performs.operates (h : c.Performs user c') :
    c.Operates t c' ∨ c.Reconstructs t c' := by
  cases h with
  | dealt h => exact .inl h.operates
  | flowed _ h => exact .inl h.operates
  | issued hOld | retired hOld => exact .inl (.put_other hOld (by simp [Contract.kind]))
  | deed h => exact h.operates
  | arranged h => exact .inl h.operates

/-- Whatever a user does with a chain, a stable token that stands goes through operations of its
own, or is set up. -/
theorem Chain.Leads.operates (h : c.Leads user c') : c.Operates t c' ∨ c.Reconstructs t c' := by
  rcases h.performs_or_gains with hPerforms | ⟨a, x, hGains⟩ | rfl
  · exact hPerforms.operates
  · refine .inl fun u hu => ?_
    have hNe : t ≠ a := hGains.ne_of_stands (by simp [kind?_of_contract? hu])
    exact ⟨u, ((hGains.contracts t).trans (if_neg hNe)).trans hu, .refl⟩
  · exact .inl (.refl c)

/-- A stable token that stands after something was done with a chain stood there before, or it is
new. -/
theorem Chain.Leads.stood (h : c.Leads user c') {u' : Token.Stable}
    (hStands : c'.contract? t = some (.stable u')) :
    (∃ u, c.contract? t = some (.stable u)) ∨ ∃ x, c.Gains t x c' := by
  refine (h.kind_before (kind?_of_contract? hStands)).imp_left fun hKind => ?_
  obtain ⟨x, hx, hStable⟩ := Option.map_eq_some_iff.1 hKind
  cases x <;> cases hStable
  exact ⟨_, hx⟩

end Steps

namespace Contract

/-- A contract that stands by itself: a registry, a record of roles or a ledger. -/
def standalone? (x : Contract) : Option Contract :=
  if x.kind ∈ [.registry, .roles, .ledger] then some x else none

theorem standalone?_bare (x : Contract) : x.bare.standalone? = x.standalone? := by
  cases x <;> rfl

theorem eq_of_standalone? {x y : Contract} (h : x.standalone? = some y) : x = y := by
  unfold standalone? at h
  split at h <;> cases h
  rfl

end Contract

section Standalone

variable {user t : Address} {c c' : Chain} {l : Token.Ledger}

theorem Configured.standalone? (h : Configured user c c') (b : Address) :
    (c'.contract? b).map Contract.standalone? = (c.contract? b).map Contract.standalone? := by
  cases h with
  | minters hOld | ruled hOld | obeyed hOld | released _ _ hOld => exact map_put hOld (by rfl) b
  | tuned hOld h => cases h <;> exact map_put hOld (by rfl) b
  | bound h => exact h.map (fun _ _ => rfl) (fun _ _ => rfl) b

theorem Chain.Arranged.standalone? (h : c.Arranged user c') (b : Address) :
    (c'.contract? b).map Contract.standalone? = (c.contract? b).map Contract.standalone? := by
  cases h with
  | settled h =>
    induction h with
    | refl => rfl
    | step _ hThen ih => exact (hThen.standalone? b).trans ih
  | governed h =>
    refine h.map ?_ ?_ ?_ ?_ b
    all_goals intros; rfl
  | rewired h =>
    cases h with
    | custody hOld | share hOld | router hOld => exact map_put hOld (by rfl) b

/-- Whatever a user does with a chain, a ledger that stands by itself makes one operation of its
own, or stays as it is. -/
theorem Chain.Leads.ledger (h : c.Leads user c') (hl : c.contract? t = some (.ledger l)) :
    ∃ l', c'.contract? t = some (.ledger l') ∧ (l' = l ∨ l.Operates l') := by
  -- Contracts that stand by themselves are left alone, or another contract is replaced.
  have hAlone : (c'.contract? t).map Contract.standalone? =
      (c.contract? t).map Contract.standalone? → ∃ l', c'.contract? t = some (.ledger l') ∧
        (l' = l ∨ l.Operates l') := by
    intro hMap
    rw [hl] at hMap
    obtain ⟨x, hx, hSame⟩ := Option.map_eq_some_iff.1 hMap
    exact ⟨l, hx.trans (congrArg some (Contract.eq_of_standalone? hSame)), .inl rfl⟩
  have hOther : ∀ {a old new}, c.contract? a = some old → old.kind ≠ .ledger →
      ∃ l', (c.put a new).contract? t = some (.ledger l') ∧ (l' = l ∨ l.Operates l') := by
    intro a old new hOld hKind
    have hNe : t ≠ a := by
      rintro rfl
      obtain rfl := Option.some.inj (hOld.symm.trans hl)
      exact hKind rfl
    exact ⟨l, (contract?_put_of_ne c new hNe).trans hl, .inl rfl⟩
  rcases h.executes_or_gains with hExecutes | ⟨a, x, hGains⟩ | rfl
  · cases hExecutes with
    | dealt h => exact hAlone (h.alike.map Contract.standalone?_bare t)
    | flowed _ h => exact hAlone (h.map Contract.standalone?_bare (fun _ _ => rfl) (fun _ => rfl) t)
    | amended h =>
      cases h with
      | issued hOld | retired hOld | minted hOld | burned hOld =>
        exact hOther hOld (by simp [Contract.kind])
      | @operated a l₀ l' hOld hOperates =>
        by_cases hAt : t = a
        · subst hAt
          obtain ⟨⟩ := Option.some.inj (hOld.symm.trans hl)
          exact ⟨l', contract?_put_self _ hOld, .inr hOperates⟩
        · exact ⟨l, (contract?_put_of_ne c _ hAt).trans hl, .inl rfl⟩
      | standalone hOld hKind =>
        exact hOther hOld fun hLedger => by simp [hLedger] at hKind
      | constructed hOld _ hBuilds =>
        refine hOther hOld fun hLedger => ?_
        cases hBuilds <;> cases hLedger
      | arranged h => exact hAlone (h.standalone? t)
  · have hNe : t ≠ a := hGains.ne_of_stands (by simp [kind?_of_contract? hl])
    exact ⟨l, ((hGains.contracts t).trans (if_neg hNe)).trans hl, .inl rfl⟩
  · exact ⟨l, hl, .inl rfl⟩

end Standalone

end Treasury
