import Treasury.Proofs.Wiring
import Treasury.Standard

/-! Runs: everything that can happen to a chain from outside. Calls and deployments come in any
number and order, and may deploy and use any contracts. In a wired run they come from accounts, the
wiring of a treasury is not changed and there is no second router. -/
namespace Treasury

open Exec Chain

/-- What can be done with a chain from outside by a user, or by anyone. -/
inductive Chain.Leads (user : Address) (c : Chain) : Chain → Prop where
  | called {target : Address} {command : Command} {out : Outcome}
      (h : c.submit user target command = .ok out) : Leads user c out.chain
  | deployed {construction : Construction} {c' : Chain} (h : c.deploy user construction = .ok c') :
      Leads user c c'
  /-- A contract is deployed whose constructor is left for later. -/
  | deployedBlank {kind : Contract.Kind} {c' : Chain} (h : c.deployBlank kind = .ok c') :
      Leads user c c'
  /-- A registry or a ledger is deployed that stands by itself. It has no constructor. -/
  | placed {kind : Contract.Kind} {c' : Chain} (hKind : kind ∈ [.registry, .ledger])
      (h : c.place kind = .ok c') : Leads user c c'
  | skipped : Leads user c c.skip

/-- The chains that can be reached from the empty one by users who may use it, as long as something
is kept that has to be. -/
inductive Run (May : Address → Prop) (Kept : Chain → Prop) : Chain → Prop where
  | start (hKept : Kept {}) : Run May Kept {}
  | step {c c' : Chain} {user : Address} (hRun : Run May Kept c) (hMay : May user)
      (hLeads : c.Leads user c') (hKept : Kept c') : Run May Kept c'

/-- What an account can do with a chain from outside. -/
inductive Action where
  | call (user : Digest) (target : Address) (command : Command)
  | deploy (user : Digest) (construction : Construction)
  /-- Deploy a contract whose constructor is left for later. -/
  | deployBlank (kind : Contract.Kind)
  /-- Deploy a registry that stands by itself. It has no constructor. -/
  | placeRegistry
  /-- Deploy a ledger that stands by itself. It has no constructor. -/
  | placeLedger
  /-- Fail to deploy a contract. -/
  | skip

/-- Do something with a chain. -/
def Action.run (c : Chain) : Action → Result Chain
  | call user target command => do
    pure (← c.submit (.account user) target command).chain
  | deploy user construction => c.deploy (.account user) construction
  | deployBlank kind => c.deployBlank kind
  | placeRegistry => c.place .registry
  | placeLedger => c.place .ledger
  | skip => pure c.skip

/-- The chains that can be reached from the empty one without changing the wiring. -/
inductive WiredRun (w : Wiring) : Chain → Prop where
  | start : WiredRun w {}
  | step {c c' : Chain} {action : Action} (hRun : WiredRun w c) (hAction : action.run c = .ok c')
      (hKept : w.Kept c') : WiredRun w c'

/-- A contract appears at an address that had none. It has just been constructed, or is left blank,
or has no constructor. -/
structure Chain.Gains (c : Chain) (a : Address) (x : Contract) (c' : Chain) : Prop where
  free : c.contract? a = none
  address : ∃ d, a = .contract d
  new : ∃ kind : Contract.Kind, Construction.Builds c' kind.blank x ∨
    x = kind.blank ∧ (a ∈ c'.blank ∨ kind ∈ [.registry, .ledger])
  contracts : ∀ b, c'.contract? b = if b = a then some x else c.contract? b
  blank : (∀ b ∈ c.blank, b ∈ c'.blank) ∧ ∀ b ∈ c'.blank, b = a ∨ b ∈ c.blank

/-- What a chain goes through when a user does something with it. -/
inductive Chain.Advances (user : Address) (c : Chain) : Chain → Prop where
  | effect {c' : Chain} (h : Effect user c c') : Advances user c c'
  | governed {c' : Chain} {a : Address} (h : c.Governs user a c') : Advances user c c'
  | rewired {c' : Chain} (h : Rewired user c c') : Advances user c c'
  | gains {c' : Chain} {a : Address} {x : Contract} (h : c.Gains a x c') : Advances user c c'
  | skipped : Advances user c c.skip

namespace Chain

variable {c c' : Chain} {user : Address}

/-- What is placed stands at the next address, and no other contract changes. -/
theorem place_spec {kind : Contract.Kind} (h : c.place kind = .ok c') :
    c.contract? c.nextAddress = none ∧ c'.blank = c.blank ∧
      ∀ b, c'.contract? b = if b = c.nextAddress then some kind.blank else c.contract? b := by
  unfold place at h
  split at h
  · next hFree =>
    cases h
    refine ⟨hFree, rfl, fun b => ?_⟩
    change List.lookup b (c.contracts ++ [(c.nextAddress, kind.blank)]) = _
    rw [List.lookup_append]
    split
    · next hb =>
      subst hb
      simp [show c.contracts.lookup c.nextAddress = none from hFree]
    · next hb =>
      simp [List.lookup_cons, beq_false_of_ne hb, contract?]
  · cases h

theorem gains_of_place {kind : Contract.Kind} (hKind : kind ∈ [.registry, .ledger])
    (h : c.place kind = .ok c') : c.Gains c.nextAddress kind.blank c' := by
  obtain ⟨hFree, hBlank, hContracts⟩ := place_spec h
  refine ⟨hFree, ⟨_, rfl⟩, ⟨kind, .inr ⟨rfl, .inr hKind⟩⟩, hContracts, ?_⟩
  rw [hBlank]
  exact ⟨fun _ => id, fun _ => .inr⟩

theorem gains_of_deployBlank {kind : Contract.Kind} (h : c.deployBlank kind = .ok c') :
    c.Gains c.nextAddress kind.blank c' := by
  obtain ⟨placed, hPlace, ⟨⟩⟩ := Result.bind_eq_ok.1 h
  obtain ⟨hFree, -, hContracts⟩ := place_spec hPlace
  exact ⟨hFree, ⟨_, rfl⟩, ⟨kind, .inr ⟨rfl, .inl List.mem_cons_self⟩⟩, hContracts,
    fun _ => List.mem_cons_of_mem _, fun _ => List.mem_cons.1⟩

theorem gains_of_deploy {construction : Construction}
    (h : c.deploy user construction = .ok c') : ∃ x, c.Gains c.nextAddress x c' := by
  obtain ⟨placed, hPlace, h⟩ := Result.bind_eq_ok.1 h
  obtain ⟨⟨_, v⟩, hRun, ⟨⟩⟩ := Result.bind_eq_ok.1 h
  obtain ⟨hFree, hBlank, hContracts⟩ := place_spec hPlace
  obtain ⟨old, new, hOld, hBuilds, hv⟩ :=
    Construction.after_run construction (w := { chain := placed }) () v hRun
  obtain rfl : construction.kind.blank = old :=
    Option.some.inj (((hContracts _).trans (if_pos rfl)).symm.trans hOld)
  have hBuilt : Construction.Builds v.chain construction.kind.blank new :=
    hBuilds.of_kinds fun b => hv ▸ kind?_put hOld hBuilds.keeps.1 b
  refine ⟨new, hFree, ⟨_, rfl⟩, ⟨_, .inl hBuilt⟩, fun b => ?_, ?_⟩
  · rw [hv]
    split
    · next hb => rw [hb, contract?_put_self new hOld]
    · next hb => rw [contract?_put_of_ne _ new hb, hContracts, if_neg hb]
  · have hSame : v.chain.blank = c.blank := by rw [hv]; exact hBlank
    rw [hSame]
    exact ⟨fun _ => id, fun _ => .inr⟩

/-- A user makes a call, or has a contract deployed, or fails to. -/
theorem Leads.calls_or_gains (h : c.Leads user c') :
    (∃ target command out, c.submit user target command = .ok out ∧ c' = out.chain) ∨
      (∃ a x, c.Gains a x c') ∨ c' = c.skip := by
  cases h with
  | called h => exact .inl ⟨_, _, _, h, rfl⟩
  | deployed h =>
    obtain ⟨x, hGains⟩ := gains_of_deploy h
    exact .inr (.inl ⟨_, x, hGains⟩)
  | deployedBlank h => exact .inr (.inl ⟨_, _, gains_of_deployBlank h⟩)
  | placed hKind h => exact .inr (.inl ⟨_, _, gains_of_place hKind h⟩)
  | skipped => exact .inr (.inr rfl)

theorem Leads.executes_or_gains (h : c.Leads user c') :
    c.Executes user c' ∨ (∃ a x, c.Gains a x c') ∨ c' = c.skip := by
  refine h.calls_or_gains.imp_left fun hCalled => ?_
  obtain ⟨target, command, out, hCall, rfl⟩ := hCalled
  exact submit_executes hCall

theorem Leads.performs_or_gains (h : c.Leads user c') :
    c.Performs user c' ∨ (∃ a x, c.Gains a x c') ∨ c' = c.skip :=
  h.executes_or_gains.imp_left Executes.performs

/-- Whatever is done with a chain, it goes through one of five things. -/
theorem Leads.advances (h : c.Leads user c') : c.Advances user c' := by
  rcases h.performs_or_gains with hPerforms | ⟨a, x, hGains⟩ | rfl
  · cases hPerforms.undergoes with
    | effect h => exact .effect h
    | governed h => exact .governed h
    | rewired h => exact .rewired h
  · exact .gains hGains
  · exact .skipped

end Chain

namespace Run

variable {May : Address → Prop} {Kept : Chain → Prop} {c : Chain}

theorem kept (h : Run May Kept c) : Kept c := by
  cases h with
  | start hKept => exact hKept
  | step _ _ _ hKept => exact hKept

theorem mono {May' : Address → Prop} {Kept' : Chain → Prop} (h : Run May Kept c)
    (hMay : ∀ user, May user → May' user) (hKept : ∀ c, Kept c → Kept' c) : Run May' Kept' c := by
  induction h with
  | start hStart => exact .start (hKept _ hStart)
  | step _ hUser hLeads hThen ih => exact .step ih (hMay _ hUser) hLeads (hKept _ hThen)

/-- What holds of the empty chain and is kept by all that users may do holds throughout a run. -/
theorem invariant {P : Chain → Prop} (hStart : P {})
    (hStep : ∀ c c' user, May user → Kept c → Kept c' → P c → c.Advances user c' → P c')
    (h : Run May Kept c) : P c := by
  induction h with
  | start => exact hStart
  | step hRun hMay hLeads hKept ih =>
    exact hStep _ _ _ hMay hRun.kept hKept ih hLeads.advances

end Run

/-- An account can do with a chain what actions do. -/
theorem Action.leads {c c' : Chain} {action : Action} (h : action.run c = .ok c') :
    ∃ d, c.Leads (.account d) c' := by
  cases action with
  | call user target command =>
    obtain ⟨out, hCall, ⟨⟩⟩ := Result.bind_eq_ok.1 h
    exact ⟨user, .called hCall⟩
  | deploy user construction => exact ⟨user, .deployed h⟩
  | deployBlank kind => exact ⟨0, .deployedBlank h⟩
  | placeRegistry | placeLedger => exact ⟨0, .placed (by simp) h⟩
  | skip =>
    cases h
    exact ⟨0, .skipped⟩

/-- An address at which no contract can stand. -/
def Address.IsAccount (a : Address) : Prop := ∃ d, a = .account d

namespace WiredRun

variable {w : Wiring} {c : Chain}

theorem kept (h : WiredRun w c) : w.Kept c := by
  cases h with
  | start => exact ⟨by simp [contract?], by simp⟩
  | step _ _ hKept => exact hKept

/-- A wired run is a run of accounts. -/
theorem run (h : WiredRun w c) : Run Address.IsAccount w.Kept c := by
  induction h with
  | start => exact .start WiredRun.start.kept
  | step _ hAction hKept ih =>
    obtain ⟨d, hLeads⟩ := Action.leads hAction
    exact .step ih ⟨d, rfl⟩ hLeads hKept

end WiredRun

namespace Rewired

variable {user : Address} {c c' : Chain}

theorem same (h : Rewired user c c') (b : Address) :
    c'.kind? b = c.kind? b ∧ c'.books? b = c.books? b := by
  cases h with
  | custody hOld h | router hOld => exact kind_books_put hOld (by rfl) (by rfl) b
  | share hOld h =>
    simp only [ShareToken.setRouter, Result.bind_eq_ok] at h
    obtain ⟨_, _, ⟨⟩⟩ := h
    exact kind_books_put hOld (by rfl) (by rfl) b

theorem blank (h : Rewired user c c') : c'.blank = c.blank := by
  cases h <;> rfl

end Rewired

namespace Chain.Undergoes

variable {user : Address} {c c' : Chain}

theorem kind? (h : c.Undergoes user c') (a : Address) : c'.kind? a = c.kind? a := by
  cases h with
  | effect h => exact h.kind? a
  | governed h | rewired h => exact (h.same a).1

theorem blank (h : c.Undergoes user c') : c'.blank = c.blank := by
  cases h with
  | effect h | governed h | rewired h => exact h.blank

end Chain.Undergoes

namespace Chain.Gains

variable {c c' : Chain} {a : Address} {x : Contract}

theorem kind? (h : c.Gains a x c') {b : Address} (hb : b ≠ a) : c'.kind? b = c.kind? b := by
  rw [Chain.kind?, h.contracts, if_neg hb, Chain.kind?]

theorem books? (h : c.Gains a x c') {b : Address} (hb : b ≠ a) : c'.books? b = c.books? b := by
  rw [Chain.books?, h.contracts, if_neg hb, Chain.books?]

theorem ne_of_stands (h : c.Gains a x c') {b : Address} (hb : c.kind? b ≠ none) : b ≠ a := by
  rintro rfl
  exact hb (by rw [Chain.kind?, h.free, Option.map_none])

theorem kind?_of_stands (h : c.Gains a x c') {b : Address} {k : Contract.Kind}
    (hk : c.kind? b = some k) : c'.kind? b = some k := by
  rw [h.kind? (h.ne_of_stands (by simp [hk])), hk]

/-- The books of a new contract are empty. -/
theorem books_new (h : c.Gains a x c') {l : Token.Ledger} (hl : c'.books? a = some l) :
    l.balances = .const 0 ∧ l.allowances = .const 0 := by
  rw [Chain.books?, h.contracts, if_pos rfl, Option.bind_some] at hl
  obtain ⟨kind, hBuilds | ⟨rfl, -⟩⟩ := h.new
  · have hOld : ∃ l₀, kind.blank.books? = some l₀ ∧ l₀.balances = .const 0 ∧
        l₀.allowances = .const 0 := by
      cases kind <;> first
        | exact ⟨_, rfl, rfl, rfl⟩
        | (cases hBuilds <;> cases hl)
    obtain ⟨l₀, hl₀, hBalances, hAllowances⟩ := hOld
    obtain ⟨l', hl', hSame, hSame'⟩ := hBuilds.keeps.2 l₀ hl₀
    obtain rfl : l = l' := Option.some.inj (hl.symm.trans hl')
    exact ⟨hSame.trans hBalances, hSame'.trans hAllowances⟩
  · cases kind <;> cases hl <;> exact ⟨rfl, rfl⟩

end Chain.Gains

/-- Whatever a chain goes through, contracts stay, and keep their kind. -/
theorem Chain.Advances.kind? {user : Address} {c c' : Chain} (h : c.Advances user c') {a : Address}
    {k : Contract.Kind} (hk : c.kind? a = some k) : c'.kind? a = some k := by
  cases h with
  | effect h => rw [h.kind?, hk]
  | governed h | rewired h => rw [(h.same a).1, hk]
  | gains h => exact h.kind?_of_stands hk
  | skipped => exact hk

/-- A contract that stands after something was done with a chain stood there before, as one of the
same kind, or it is new. -/
theorem Chain.Leads.kind_before {user : Address} {c c' : Chain} (h : c.Leads user c') {a : Address}
    {k : Contract.Kind} (hk : c'.kind? a = some k) :
    c.kind? a = some k ∨ ∃ x, c.Gains a x c' := by
  rcases h.performs_or_gains with hPerforms | ⟨b, x, hGains⟩ | rfl
  · exact .inl ((hPerforms.undergoes.kind? a).symm.trans hk)
  · by_cases hAt : a = b
    · exact .inr ⟨x, hAt ▸ hGains⟩
    · exact .inl ((hGains.kind? hAt).symm.trans hk)
  · exact .inl hk

/-- Whatever a chain goes through, what is blank stays so. -/
theorem Chain.Advances.blank {user : Address} {c c' : Chain} (h : c.Advances user c') {a : Address}
    (ha : a ∈ c.blank) : a ∈ c'.blank := by
  cases h with
  | effect h | governed h | rewired h =>
    rw [h.blank]
    exact ha
  | gains h => exact h.blank.1 a ha
  | skipped => exact ha

namespace Run

variable {May : Address → Prop} {Kept : Chain → Prop} {c : Chain}

/-- Contracts stand at the addresses of contracts. -/
theorem address_of_contract (h : Run May Kept c) {a : Address} (ha : c.kind? a ≠ none) :
    ∃ d, a = .contract d := by
  refine h.invariant (P := fun c => ∀ a, c.kind? a ≠ none → ∃ d, a = .contract d) ?_ ?_ a ha
  · exact fun a ha => absurd rfl ha
  · intro c c' user _ _ _ ih hAdvances a ha
    cases hAdvances with
    | effect hEffect => exact ih a (hEffect.kind? a ▸ ha)
    | governed h | rewired h => exact ih a ((h.same a).1 ▸ ha)
    | @gains _ b x hGains =>
      by_cases hb : a = b
      · exact hb ▸ hGains.address
      · exact ih a (hGains.kind? hb ▸ ha)
    | skipped => exact ih a ha

/-- No contract stands at the address of an account. -/
theorem account_free (h : Run May Kept c) (d : Digest) : c.kind? (.account d) = none := by
  cases hStands : c.kind? (.account d) with
  | none => rfl
  | some kind =>
    obtain ⟨_, hd⟩ := h.address_of_contract (a := .account d) (by simp [hStands])
    cases hd

/-- An account is not a contract that stands. -/
theorem ne_of_stands (h : Run May Kept c) {user a : Address} (hUser : user.IsAccount)
    (ha : c.kind? a ≠ none) : user ≠ a := by
  obtain ⟨d, rfl⟩ := hUser
  rintro rfl
  exact ha (h.account_free d)

end Run

namespace WiredRun

variable {w : Wiring} {c : Chain}

theorem address_of_contract (h : WiredRun w c) {a : Address} (ha : c.kind? a ≠ none) :
    ∃ d, a = .contract d :=
  h.run.address_of_contract ha

theorem account_free (h : WiredRun w c) (d : Digest) : c.kind? (.account d) = none :=
  h.run.account_free d

theorem router_place (h : WiredRun w c) (hComplete : w.Complete c) :
    ∃ d, w.router = .contract d := by
  obtain ⟨s, hs, -⟩ := hComplete.router
  exact h.address_of_contract (by simp [kind?_of_contract? hs])

end WiredRun

theorem Chain.mem_of_contract? {c : Chain} {a : Address} {x : Contract}
    (h : c.contract? a = some x) : (a, x) ∈ c.contracts := by
  obtain ⟨before, after, hSplit, -⟩ := List.lookup_eq_some_iff.1 h
  simp [hSplit]

theorem Result.of_toOption {α : Type} {r : Result α} {a : α} (h : r.toOption = some a) :
    r = .ok a := by
  cases r <;> cases h
  rfl

/-- The fault that a result is, if it is one. -/
def Result.fault? {α : Type} : Result α → Option Fault
  | .ok _ => none
  | .error e => some e

theorem Result.of_fault? {α : Type} {r : Result α} {e : Fault} (h : r.fault? = some e) :
    r = .error e := by
  cases r <;> cases h
  rfl

/-- The amount that is all of an answer. -/
def Answer.amount? : Answer → Option Amount
  | amount n => some n
  | _ => none

theorem Answer.of_amount? {a : Answer} {n : Amount} (h : a.amount? = some n) : a = .amount n := by
  cases a <;> cases h
  rfl

/-- The two amounts that are all of an answer. -/
def Answer.amounts? : Answer → Option (Amount × Amount)
  | list [amount first, amount second] => some (first, second)
  | _ => none

theorem Answer.of_amounts? {a : Answer} {first second : Amount}
    (h : a.amounts? = some (first, second)) : a = .amounts first second := by
  unfold amounts? at h
  split at h <;> cases h
  rfl

/-- The fees that an answer reports. -/
def Answer.fees? : Answer → Option Router.FeeStats
  | fees stats => some stats
  | _ => none

namespace Wiring

variable {w : Wiring} {c c' : Chain}

/-- Whether the wiring is kept, found out contract by contract. -/
def keeps (w : Wiring) (c : Chain) : Bool :=
  c.contracts.all (fun entry => w.Admits entry.1 entry.2) && w.places.all (· ∉ c.blank)

theorem kept_of_keeps (h : w.keeps c = true) : w.Kept c := by
  simp only [keeps, Bool.and_eq_true, List.all_eq_true, decide_eq_true_eq] at h
  exact ⟨fun a x hx => h.1 (a, x) (mem_of_contract? hx), h.2⟩

/-- Take actions one after the other, as long as the wiring is kept. -/
def follow (w : Wiring) (c : Chain) : List Action → Option Chain
  | [] => some c
  | action :: rest =>
    match action.run c with
    | .ok next => if w.keeps next then w.follow next rest else none
    | .error _ => none

/-- What is reached by following actions is reached by a wired run. -/
theorem wiredRun_of_follow {actions : List Action} (hRun : WiredRun w c)
    (h : w.follow c actions = some c') : WiredRun w c' := by
  induction actions generalizing c with
  | nil =>
    cases h
    exact hRun
  | cons action rest ih =>
    simp only [follow] at h
    split at h
    · next next hAction =>
      split at h
      · next hKeeps => exact ih (.step hRun hAction (kept_of_keeps hKeeps)) h
      · cases h
    · cases h

/-- Whether the wiring is complete, found out contract by contract. -/
def completes (w : Wiring) (c : Chain) : Bool :=
  c.face? w.stable = some (.stable, []) && c.face? w.custody = some (.custody, [some w.router]) &&
    c.face? w.router = some (.router, [some w.stable, some w.custody, some w.share]) &&
    c.face? w.share = some (.share, [some w.router])

theorem complete_of_completes (h : w.completes c = true) : w.Complete c := by
  simp only [completes, Bool.and_eq_true, decide_eq_true_eq] at h
  exact complete_iff_faces.2 ⟨h.1.1.1, h.1.1.2, h.1.2, h.2⟩

/-- What is found out about a chain at the end of a list of actions holds at the end of a wired
run. -/
theorem exists_reached {actions : List Action} {P : Chain → Bool}
    (h : (w.follow {} actions).any (fun c => w.completes c && P c) = true) :
    ∃ c, WiredRun w c ∧ w.Complete c ∧ P c = true := by
  obtain ⟨c, hFollow, hBoth⟩ := (Option.any_eq_true _ _).1 h
  obtain ⟨hComplete, hHolds⟩ := Bool.and_eq_true_iff.1 hBoth
  exact ⟨c, wiredRun_of_follow .start hFollow, complete_of_completes hComplete, hHolds⟩

/-- What is found out about a call by making it at the end of a list of actions, holds of that call
at the end of a wired run. -/
theorem exists_submit {actions : List Action} {user : Digest} {target : Address}
    {command : Command} {P : Chain → Outcome → Bool}
    (h : (w.follow {} actions).any (fun c => w.completes c &&
      (c.submit (.account user) target command).toOption.any (P c)) = true) :
    ∃ c out, WiredRun w c ∧ w.Complete c ∧ c.submit (.account user) target command = .ok out ∧
      P c out = true := by
  obtain ⟨c, hRun, hComplete, hOut⟩ := exists_reached h
  obtain ⟨out, hCall, hHolds⟩ := (Option.any_eq_true _ _).1 hOut
  exact ⟨c, out, hRun, hComplete, Result.of_toOption hCall, hHolds⟩

end Wiring

namespace Standard

/-- Where the four contracts of a standard treasury stand. -/
def places : Wiring := ⟨stable, custody, router, share⟩

/-- Deploy a standard treasury. -/
def opening (admin : Digest) (p : Parameters) : List Action :=
  p.constructions.map (.deploy admin) ++
    Parameters.wiring.map fun call => .call admin call.1 call.2

/-- The address of the contract that is deployed after a standard treasury. -/
def pool : Address := .ofNumber 5

/-- Deploy a standard treasury with one pool of a fixed rate, and give an account stable that the
router may take. -/
def pooled (admin saver : Digest) (p : Parameters) (rate amount : Amount) : List Action :=
  opening admin p ++
    [.deploy admin (.fixedRate p.admin stable custody rate),
      .call admin router (.router (.registerAdapter pool pool)),
      .call admin router (.router (.addPool pool weightScale)),
      .call admin stable (.stable (.mint (.account saver) amount)),
      .call saver stable (.token (.approve router amount))]

/-- Deploy a standard treasury with two pools that are to hold as much as each other, one of some
rate and one at a rate of 1, and let a solver deposit in both. -/
def paired (p : Parameters) (rate first second : Amount) : List Action :=
  pooled 0 1 p rate (first + second) ++
    [.call 0 router (.router (.updatePoolTarget pool 500_000)),
      .deploy 0 (.fixedRate p.admin stable custody rateScale),
      .call 0 router (.router (.registerAdapter (.ofNumber 6) (.ofNumber 6))),
      .call 0 router (.router (.addPool (.ofNumber 6) 500_000)),
      .call 0 router (.router (.grantRole Roles.solver (.account 1))),
      .call 1 router (.router (.solverDepositByAssets [⟨pool, first⟩, ⟨.ofNumber 6, second⟩] 0
        (.account 1)))]

end Standard

end Treasury
