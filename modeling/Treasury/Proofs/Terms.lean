import Treasury.Proofs.Service

/-! The terms on which pools deal: for which stable token and which custody contract an adapter was
set up, over which vault, and what a vault holds. They stay for good, unless a contract was deployed
without its constructor. The constructor of a wrapped-vault adapter sees to it that the vault holds
the adapter's stable token, so this stays too. -/
namespace Treasury

open Exec Chain

namespace Contract

/-- The terms on which a fixed-rate adapter, a wrapped-vault adapter or a yield vault deals. -/
def terms : Contract → Kind × List (Option Address)
  | fixedRate s => (.fixedRate, [s.stable, s.custody])
  | wrapped s => (.wrapped, [s.stable, s.custody, s.vault])
  | yieldVault v => (.yieldVault, [v.asset])
  | x => (x.kind, [])

theorem terms_bare (x : Contract) : x.bare.terms = x.terms := by cases x <;> rfl

variable {x : Contract}

theorem eq_of_terms_fixedRate {s : Strategy.FixedRate}
    (h : x.terms = (Contract.fixedRate s).terms) :
    ∃ s', x = .fixedRate s' ∧ s'.stable = s.stable ∧ s'.custody = s.custody := by
  cases x <;> simp only [terms, kind, Prod.mk.injEq, List.cons.injEq, reduceCtorEq, false_and] at h
  exact ⟨_, rfl, h.2.1, h.2.2.1⟩

theorem eq_of_terms_wrapped {s : Strategy.Wrapped} (h : x.terms = (Contract.wrapped s).terms) :
    ∃ s', x = .wrapped s' ∧ s'.stable = s.stable ∧ s'.custody = s.custody ∧ s'.vault = s.vault := by
  cases x <;> simp only [terms, kind, Prod.mk.injEq, List.cons.injEq, reduceCtorEq, false_and] at h
  exact ⟨_, rfl, h.2.1, h.2.2.1, h.2.2.2.1⟩

theorem eq_of_terms_yieldVault {y : Yield.Vault} (h : x.terms = (Contract.yieldVault y).terms) :
    ∃ y', x = .yieldVault y' ∧ y'.asset = y.asset := by
  cases x <;> simp only [terms, kind, Prod.mk.injEq, List.cons.injEq, reduceCtorEq, false_and] at h
  exact ⟨_, rfl, h.2.1⟩

end Contract

/-- The terms of the contract at an address. -/
def Chain.terms? (c : Chain) (a : Address) : Option (Contract.Kind × List (Option Address)) :=
  (c.contract? a).map Contract.terms

theorem Chain.exists_of_terms? {c c' : Chain} {a : Address} {x : Contract}
    (h : c'.terms? a = c.terms? a) (hx : c.contract? a = some x) :
    ∃ x', c'.contract? a = some x' ∧ x'.terms = x.terms := by
  rw [terms?, terms?, hx, Option.map_some] at h
  exact Option.map_eq_some_iff.1 h

section Steps

variable {user : Address} {c c' : Chain}

theorem Chain.Alike.terms? (h : Alike c c') (b : Address) : c'.terms? b = c.terms? b :=
  h.map Contract.terms_bare b

theorem Flow.terms? (h : Flow user c c') (b : Address) : c'.terms? b = c.terms? b :=
  h.map Contract.terms_bare (fun _ _ => rfl) (fun _ => rfl) b

theorem Strategy.Tuned.terms {old new : Contract} (h : Strategy.Tuned user old new) :
    new.terms = old.terms := by
  cases h with
  | fixedRate h =>
    simp only [FixedRate.setRate, Result.bind_eq_ok] at h
    obtain ⟨_, _, _, _, ⟨⟩⟩ := h
    rfl
  | fixedRatePaused h | wrappedPaused h =>
    simp only [FixedRate.setPaused, Wrapped.setPaused, Result.bind_eq_ok] at h
    obtain ⟨_, _, ⟨⟩⟩ := h
    rfl
  | syntheticRate | turned => rfl

theorem Configured.terms? (h : Configured user c c') (b : Address) :
    c'.terms? b = c.terms? b := by
  cases h with
  | minters hOld | ruled hOld | obeyed hOld | released _ _ hOld => exact map_put hOld (by rfl) b
  | tuned hOld h => exact map_put hOld h.terms b
  | bound h => exact h.map (fun _ _ => rfl) (fun _ _ => rfl) b

theorem Chain.Governs.terms? {a : Address} (h : c.Governs user a c') (b : Address) :
    c'.terms? b = c.terms? b :=
  h.map (fun _ _ _ => rfl) (fun _ _ => rfl) (fun _ _ => rfl) (fun _ _ => rfl) b

theorem Rewired.terms? (h : Rewired user c c') (b : Address) : c'.terms? b = c.terms? b := by
  cases h with
  | custody hOld | share hOld | router hOld => exact map_put hOld (by rfl) b

theorem Deed.terms? (h : Deed user c c') {b : Address} (hBuilt : b ∉ c.blank) :
    c'.terms? b = c.terms? b := by
  cases h with
  | minted hOld | burned hOld => exact map_put hOld (by rfl) b
  | @standalone _ old new hOld hKind hSame =>
    refine map_put hOld ?_ b
    cases old <;> cases new <;> simp_all [Contract.kind, Contract.terms]
  | @constructed a old new hOld hIn =>
    have hNe : b ≠ a := by
      rintro rfl
      exact hBuilt hIn
    rw [Chain.terms?, contract?_put_of_ne _ _ hNe, Chain.terms?]

/-- An effect leaves the terms of contracts that were constructed when they were deployed. -/
theorem Effect.terms? (h : Effect user c c') {b : Address} (hBuilt : b ∉ c.blank) :
    c'.terms? b = c.terms? b := by
  induction h with
  | flow hFlow => exact hFlow.terms? b
  | trans hFirst _ ihFirst ihThen => exact (ihThen (hFirst.blank ▸ hBuilt)).trans (ihFirst hBuilt)
  | deed h => exact h.terms? hBuilt
  | configured h => exact h.terms? b

theorem Chain.Undergoes.terms? (h : c.Undergoes user c') {b : Address} (hBuilt : b ∉ c.blank) :
    c'.terms? b = c.terms? b := by
  cases h with
  | effect h => exact h.terms? hBuilt
  | governed h | rewired h => exact h.terms? b

end Steps

/-- The vault of a wrapped-vault adapter holds the adapter's stable token, if both were constructed
when they were deployed. -/
def Chain.Matched (c : Chain) : Prop :=
  ∀ x v s, c.contract? x = some (.wrapped s) → s.vault = some v → x ∉ c.blank → v ∉ c.blank →
    ∃ y, c.contract? v = some (.yieldVault y) ∧ y.asset = s.stable

namespace Chain.Matched

variable {c c' : Chain}

/-- Nothing is constructed anew but what was deployed without its constructor. -/
theorem of_terms (h : c.Matched) (hBlank : c'.blank = c.blank)
    (hTerms : ∀ b, b ∉ c.blank → c'.terms? b = c.terms? b) : c'.Matched := by
  intro x v s hx hVault hBuilt hBuilt'
  rw [hBlank] at hBuilt hBuilt'
  obtain ⟨_, hOld, hSame⟩ := exists_of_terms? (hTerms x hBuilt).symm hx
  obtain ⟨s₀, rfl, hStable, -, hVault₀⟩ := Contract.eq_of_terms_wrapped hSame
  obtain ⟨y₀, hy₀, hAsset⟩ := h x v s₀ hOld (hVault₀.trans hVault) hBuilt hBuilt'
  obtain ⟨_, hy, hSame⟩ := exists_of_terms? (hTerms v hBuilt') hy₀
  obtain ⟨y, rfl, hAsset'⟩ := Contract.eq_of_terms_yieldVault hSame
  exact ⟨y, hy, hAsset'.trans (hAsset.trans hStable)⟩

/-- A new wrapped-vault adapter has a vault that holds its stable token, or none. -/
theorem gains {a : Address} {new : Contract} (h : c.Matched) (hGains : c.Gains a new c')
    (hNew : ∀ s v, new = .wrapped s → s.vault = some v →
      ∃ y, c'.contract? v = some (.yieldVault y) ∧ y.asset = s.stable) : c'.Matched := by
  intro x v s hx hVault hBuilt hBuilt'
  have hx' := hx
  rw [hGains.contracts] at hx'
  split at hx'
  · exact hNew s v (Option.some.inj hx') hVault
  · obtain ⟨y, hy, hAsset⟩ := h x v s hx' hVault (mt (hGains.blank.1 x) hBuilt)
      (mt (hGains.blank.1 v) hBuilt')
    have hNe := hGains.ne_of_stands (b := v) (by simp [kind?_of_contract? hy])
    exact ⟨y, by rw [hGains.contracts, if_neg hNe, hy], hAsset⟩

end Chain.Matched

/-- The constructor of a wrapped-vault adapter checks what the vault holds. -/
theorem Construction.after_run_wrapped {self caller admin asset custodian vault : Address}
    {w : World} : After ((wrapped admin asset custodian vault).run self caller) w fun _ v =>
      ∃ s y, v.chain.contract? self = some (.wrapped s) ∧ s.vault = some vault ∧
        v.chain.contract? vault = some (.yieldVault y) ∧ y.asset = s.stable := by
  simp only [run, after_entering, after_bind, after_view, after_result, View.callee_eq_ok,
    after_put]
  intro s₀ hOld held hHeld s hConstruct
  simp only [Yield.asset, View.bind_eq_ok, View.callee_eq_ok, View.lift_apply, known_eq_ok]
    at hHeld
  obtain ⟨y, hVault, hAsset⟩ := hHeld
  simp only [Strategy.Wrapped.construct, Result.bind_eq_ok, ensure_eq_ok] at hConstruct
  obtain ⟨_, rfl, ⟨⟩⟩ := hConstruct
  have hNe : vault ≠ self := by
    rintro rfl
    simp [hOld, Storage.wrap] at hVault
  exact ⟨_, y, contract?_put_self _ hOld, rfl, (contract?_put_of_ne _ _ hNe).trans hVault, hAsset⟩

/-- A wrapped-vault adapter is deployed over a vault that holds its stable token. -/
theorem Chain.deploy_wrapped {c c' : Chain} {user v : Address} {construction : Construction}
    {s : Strategy.Wrapped} (h : c.deploy user construction = .ok c')
    (hs : c'.contract? c.nextAddress = some (.wrapped s)) (hVault : s.vault = some v) :
    ∃ y, c'.contract? v = some (.yieldVault y) ∧ y.asset = s.stable := by
  obtain ⟨placed, hPlace, h⟩ := Result.bind_eq_ok.1 h
  obtain ⟨⟨_, world⟩, hRun, ⟨⟩⟩ := Result.bind_eq_ok.1 h
  obtain ⟨-, -, hContracts⟩ := place_spec hPlace
  obtain ⟨old, new, hOld, hBuilds, hWorld⟩ :=
    Construction.after_run construction (w := { chain := placed }) () world hRun
  have hNew : new.kind = construction.kind := by
    rw [hBuilds.keeps.1]
    cases Option.some.inj (hOld.symm.trans ((hContracts _).trans (if_pos rfl)))
    generalize construction.kind = kind
    cases kind <;> rfl
  rw [hWorld, contract?_put_self _ hOld, Option.some.injEq] at hs
  subst hs
  cases construction with
  | wrapped admin asset custodian vault =>
    obtain ⟨s', y, hs', hVault', hy, hAsset⟩ :=
      Construction.after_run_wrapped (w := { chain := placed }) () world hRun
    rw [hWorld, contract?_put_self _ hOld] at hs'
    cases hs'
    obtain rfl : vault = v := Option.some.inj (hVault'.symm.trans hVault)
    exact ⟨y, hy, hAsset⟩
  | stable | share | yieldVault | fixedRate | synthetic | custody | router | roles => cases hNew

/-- Whatever is done with a chain, the vaults of wrapped-vault adapters hold what they should. -/
theorem Chain.Leads.matched {c c' : Chain} {user : Address} (h : c.Leads user c')
    (hMatched : c.Matched) : c'.Matched := by
  have hPlaced : ∀ {a kind}, c.Gains a (Contract.Kind.blank kind) c' → c'.Matched := by
    intro a kind hGains
    refine hMatched.gains hGains fun s v hNew hVault => ?_
    cases kind <;> cases hNew
    cases hVault
  cases h with
  | called hCall =>
    have hUndergoes := (submit_performs hCall).undergoes
    exact hMatched.of_terms hUndergoes.blank fun b hBuilt => hUndergoes.terms? hBuilt
  | deployed hDeploy =>
    obtain ⟨new, hGains⟩ := gains_of_deploy hDeploy
    refine hMatched.gains hGains fun s v hNew hVault => deploy_wrapped hDeploy ?_ hVault
    rw [hGains.contracts, if_pos rfl, hNew]
  | deployedBlank hDeploy => exact hPlaced (gains_of_deployBlank hDeploy)
  | placed hKind hPlace => exact hPlaced (gains_of_place hKind hPlace)
  | skipped => exact hMatched

/-- In a run, the vaults of wrapped-vault adapters hold the adapters' stable token. -/
theorem Run.matched {May : Address → Prop} {Kept : Chain → Prop} {c : Chain}
    (h : Run May Kept c) : c.Matched := by
  induction h with
  | start => exact fun _ _ _ hx => by cases hx
  | step _ _ hLeads _ ih => exact hLeads.matched ih

end Treasury
