import Treasury.Proofs.Run

/-! Which pools adapters serve. An adapter keeps to its pool whatever is done with the chain. Only a
wrapped-vault adapter that was deployed without its constructor can be given another vault. -/
namespace Treasury

open Exec Chain

namespace Chain

/-- The vaults of wrapped-vault adapters are yield vaults. -/
def Vaulted (c : Chain) : Prop :=
  ∀ x v, c.kind? x = some .wrapped → c.pool? x = some v → c.kind? v = some .yieldVault

/-- An adapter serves a pool, or did so before it was set up anew. -/
def Serves (c : Chain) (x pool : Address) : Prop :=
  c.pool? x = some pool ∨
    x ∈ c.blank ∧ c.kind? x = some .wrapped ∧ c.kind? pool = some .yieldVault

variable {c c' : Chain} {x pool : Address}

/-- An adapter is its own pool, or it is a wrapped-vault adapter. -/
theorem pool?_eq_some (h : c.pool? x = some pool) :
    x = pool ∧ (c.kind? x = some .fixedRate ∨ c.kind? x = some .synthetic) ∨
      c.kind? x = some .wrapped := by
  obtain ⟨found, hFound, hServes⟩ := Option.bind_eq_some_iff.1 h
  rw [kind?_of_contract? hFound]
  cases found <;> simp_all [Contract.pool?, Contract.kind]

/-- An adapter that is its own pool says so for good. -/
theorem pool?_self (h : c.kind? x = some .fixedRate ∨ c.kind? x = some .synthetic) :
    c.pool? x = some x := by
  simp only [kind?, Option.map_eq_some_iff] at h
  rcases h with ⟨found, hFound, hKind⟩ | ⟨found, hFound, hKind⟩ <;>
    cases found <;> cases hKind <;> rw [pool?, hFound] <;> rfl

namespace Serves

/-- A pool is known by the token that its shares are: an adapter that is its own pool, or a yield
vault. -/
theorem kind (h : c.Serves x pool) (hVaulted : c.Vaulted) :
    c.kind? pool = some .fixedRate ∨ c.kind? pool = some .synthetic ∨
      c.kind? pool = some .yieldVault := by
  rcases h with hPool | ⟨-, -, hKind⟩
  · rcases pool?_eq_some hPool with ⟨rfl, hFixed | hSynthetic⟩ | hWrapped
    · exact .inl hFixed
    · exact .inr (.inl hSynthetic)
    · exact .inr (.inr (hVaulted _ _ hWrapped hPool))
  · exact .inr (.inr hKind)

theorem stands (h : c.Serves x pool) : c.kind? x ≠ none := by
  rcases h with hPool | ⟨-, hKind, -⟩
  · rcases pool?_eq_some hPool with ⟨-, hKind | hKind⟩ | hKind <;> simp [hKind]
  · simp [hKind]

/-- A fixed-rate adapter is its own pool. -/
theorem eq_of_fixedRate (h : c.Serves x pool) (hKind : c.kind? x = some .fixedRate) :
    x = pool := by
  rcases h with hPool | ⟨-, hWrapped, -⟩
  · rcases pool?_eq_some hPool with ⟨hSelf, -⟩ | hWrapped
    · exact hSelf
    · simp [hKind] at hWrapped
  · simp [hKind] at hWrapped

/-- An adapter serves its pool as long as contracts stay what they are. -/
theorem mono (h : c.Serves x pool) (hVaulted : c.Vaulted)
    (hKind : ∀ b k, c.kind? b = some k → c'.kind? b = some k) (hBlank : x ∈ c.blank → x ∈ c'.blank)
    (hPool : x ∉ c.blank → c.pool? x = some pool → c'.pool? x = some pool) :
    c'.Serves x pool := by
  rcases h with hServes | ⟨hIn, hWrapped, hVault⟩
  · by_cases hIn : x ∈ c.blank
    · rcases pool?_eq_some hServes with ⟨rfl, hOwn⟩ | hWrapped
      · exact .inl (pool?_self (hOwn.imp (hKind x _) (hKind x _)))
      · exact .inr ⟨hBlank hIn, hKind x _ hWrapped,
          hKind pool _ (hVaulted _ _ hWrapped hServes)⟩
    · exact .inl (hPool hIn hServes)
  · exact .inr ⟨hBlank hIn, hKind x _ hWrapped, hKind pool _ hVault⟩

theorem of_same (h : c.Serves x pool) (hKind : ∀ b, c'.kind? b = c.kind? b)
    (hBlank : c'.blank = c.blank) (hPool : c'.pool? x = c.pool? x) : c'.Serves x pool := by
  rw [Serves, hKind, hKind, hBlank, hPool]
  exact h

end Serves

/-- Wrapped-vault adapters have yield vaults if those that have changed do. -/
theorem Vaulted.mono (h : c.Vaulted) (hKind : ∀ b k, c.kind? b = some k → c'.kind? b = some k)
    (hEach : ∀ b, (c'.kind? b = c.kind? b ∧ c'.pool? b = c.pool? b) ∨
      ∀ v, c'.kind? b = some .wrapped → c'.pool? b = some v → c'.kind? v = some .yieldVault) :
    c'.Vaulted := by
  intro b v hWrapped hPool
  rcases hEach b with ⟨hSame, hServes⟩ | hNew
  · exact hKind v _ (h b v (hSame ▸ hWrapped) (hServes ▸ hPool))
  · exact hNew v hWrapped hPool

theorem Vaulted.alike (h : c.Vaulted) (hAlike : Alike c c') : c'.Vaulted :=
  h.mono (fun b _ hk => (hAlike.kind? b).trans hk) fun b =>
    .inl ⟨hAlike.kind? b, pool?_of_outline? (hAlike.map Contract.outline_bare b)⟩

theorem pool?_put {a : Address} {old new : Contract} (hOld : c.contract? a = some old)
    (hSame : new.pool? a = old.pool? a) (b : Address) : (c.put a new).pool? b = c.pool? b := by
  by_cases hb : b = a
  · subst hb
    rw [pool?, contract?_put_self new hOld, Option.bind_some, hSame, pool?, hOld, Option.bind_some]
  · rw [pool?, contract?_put_of_ne c new hb, pool?]

theorem Serves.put (h : c.Serves x pool) {a : Address} {old new : Contract}
    (hOld : c.contract? a = some old) (hKind : new.kind = old.kind)
    (hPool : new.pool? a = old.pool? a) : (c.put a new).Serves x pool :=
  h.of_same (kind?_put hOld hKind) rfl (pool?_put hOld hPool x)

end Chain

/-- A wrapped-vault adapter is set up over a yield vault. -/
theorem Construction.Builds.vaulted {c : Chain} {old new : Contract} {b v : Address}
    (h : Construction.Builds c old new) (hKind : new.kind = .wrapped)
    (hPool : new.pool? b = some v) : c.kind? v = some .yieldVault := by
  cases h with
  | wrapped hVault hConstruct =>
    simp only [Strategy.Wrapped.construct, Result.bind_eq_ok] at hConstruct
    obtain ⟨_, _, ⟨⟩⟩ := hConstruct
    cases hPool
    exact hVault
  | stable | share | yieldVault | fixedRate | synthetic | custody | router | roles => cases hKind

section Steps

variable {user a x pool : Address} {c c' : Chain}

theorem Effect.vaulted (h : Effect user c c') (hVaulted : c.Vaulted) : c'.Vaulted := by
  refine hVaulted.mono (fun b _ hk => (h.kind? b).trans hk) fun b => ?_
  rcases h.outline?_or_built b with hSame | ⟨-, old, new, hBuilds, hOutline⟩
  · exact .inl ⟨h.kind? b, pool?_of_outline? hSame⟩
  · refine .inr fun v hWrapped hPool => ?_
    obtain ⟨found, hFound, hServes⟩ := Option.bind_eq_some_iff.1 hPool
    rw [kind?_of_contract? hFound, Option.some.injEq] at hWrapped
    rw [Chain.outline?, hFound, Option.map_some, Option.some.injEq] at hOutline
    have hKind : new.kind = .wrapped := (congrArg (fun o => o.1.1) hOutline).symm.trans hWrapped
    exact hBuilds.vaulted hKind ((Contract.pool?_of_outline hOutline.symm).trans hServes)

theorem Effect.serves (h : Effect user c c') (hVaulted : c.Vaulted) (hServes : c.Serves x pool) :
    c'.Serves x pool :=
  hServes.mono hVaulted (fun b _ hk => (h.kind? b).trans hk) (fun hIn => h.blank.symm ▸ hIn)
    fun hIn hPool => (pool?_of_outline? (h.outline? hIn)).trans hPool

/-- No adapter is pointed at another vault. -/
theorem Rewired.pool? (h : Rewired user c c') (b : Address) : c'.pool? b = c.pool? b := by
  cases h with
  | custody hOld | share hOld | router hOld => exact pool?_put hOld (by rfl) b

namespace Chain

theorem Gains.pool? {new : Contract} (h : c.Gains a new c') {b : Address} (hb : b ≠ a) :
    c'.pool? b = c.pool? b := by
  rw [Chain.pool?, h.contracts, if_neg hb, Chain.pool?]

/-- A new adapter over a vault is set up over a yield vault, or has no vault yet. -/
theorem Gains.vaulted {new : Contract} (h : c.Gains a new c') {v : Address}
    (hWrapped : c'.kind? a = some .wrapped) (hPool : c'.pool? a = some v) :
    c'.kind? v = some .yieldVault := by
  have hAt : c'.contract? a = some new := (h.contracts a).trans (if_pos rfl)
  rw [kind?_of_contract? hAt, Option.some.injEq] at hWrapped
  rw [Chain.pool?, hAt, Option.bind_some] at hPool
  obtain ⟨kind, hBuilds | ⟨rfl, -⟩⟩ := h.new
  · exact hBuilds.vaulted hWrapped hPool
  · cases kind <;> cases hWrapped
    cases hPool

theorem Gains.serves {new : Contract} (h : c.Gains a new c') (hVaulted : c.Vaulted)
    (hServes : c.Serves x pool) : c'.Serves x pool := by
  have hNe : x ≠ a := h.ne_of_stands hServes.stands
  exact hServes.mono hVaulted (fun _ _ => h.kind?_of_stands) (h.blank.1 x)
    fun _ hPool => (h.pool? hNe).trans hPool

/-- Whatever a chain goes through, wrapped-vault adapters have yield vaults. -/
theorem Advances.vaulted (h : c.Advances user c') (hVaulted : c.Vaulted) : c'.Vaulted := by
  cases h with
  | effect h => exact h.vaulted hVaulted
  | governed h =>
    exact hVaulted.mono (fun b _ hk => (h.same b).1.trans hk) fun b =>
      .inl ⟨(h.same b).1, pool?_of_outline? (h.outline? b)⟩
  | rewired h =>
    exact hVaulted.mono (fun b _ hk => (h.same b).1.trans hk) fun b =>
      .inl ⟨(h.same b).1, h.pool? b⟩
  | @gains _ a new h =>
    refine hVaulted.mono (fun _ _ => h.kind?_of_stands) fun b => ?_
    by_cases hb : b = a
    · subst hb
      exact .inr fun v => h.vaulted
    · exact .inl ⟨h.kind? hb, h.pool? hb⟩
  | skipped => exact hVaulted

end Chain

end Steps

theorem Chain.vaulted_empty : Chain.Vaulted {} := fun _ _ hWrapped => by cases hWrapped

/-- In a run, wrapped-vault adapters have yield vaults. -/
theorem Run.vaulted {May : Address → Prop} {Kept : Chain → Prop} {c : Chain}
    (h : Run May Kept c) : c.Vaulted :=
  h.invariant (P := Chain.Vaulted) Chain.vaulted_empty
    fun _ _ _ _ _ _ ih hAdvances => hAdvances.vaulted ih

end Treasury
