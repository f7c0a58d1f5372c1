import Treasury.Proofs.Additive
import Treasury.Proofs.Tally

/-! The calls that a call is made of. Its record says which calls were running when one began, and
so what may not be: that a router is called which is running already, and that a router deposits
into an adapter that is set to call it back. A computation that minds this can be put together from
others that do, with the routers at hand that are locked. -/
namespace Treasury

open Exec Chain

/-- The calls that are running after one more moment, the last one first. -/
def Mark.follow (running : List Call) : Mark → List Call
  | entered caller callee entry => ⟨caller, callee, entry⟩ :: running
  | left _ => running.tail
  | credited .. => running

/-- The calls that have begun and not come to their end. -/
def runningCalls (marks : List Mark) : List Call := marks.foldl Mark.follow []

/-- What matters of a contract for calls that come back: its kind, and the router that it is set to
call back in the middle of a deposit. -/
def Contract.guise : Contract → Contract.Kind × Option Address
  | synthetic s => (.synthetic, s.callbackTarget)
  | x => (x.kind, none)

namespace Chain

/-- All contracts are of the kinds that they were, and set to call back the same routers. -/
def SameGuise (c c' : Chain) : Prop :=
  ∀ a, (c'.contract? a).map Contract.guise = (c.contract? a).map Contract.guise

/-- An adapter is set to call a router back in the middle of a deposit. -/
def Armed (c : Chain) (adapter router : Address) : Prop :=
  ∃ s, c.contract? adapter = some (.synthetic s) ∧ s.callbackTarget = some router

/-- A call may begin while others are running: it is not a call to a router that is running, and not
a router's deposit into an adapter that is set to call it back. -/
structure MayBegin (c : Chain) (running : List Call) (call : Call) : Prop where
  callee : c.kind? call.callee = some .router → ∀ other ∈ running, other.callee ≠ call.callee
  deposit : call.entry = "deposit_into_strategy" → c.kind? call.caller = some .router →
    ¬c.Armed call.callee call.caller

/-- Each call of a record began when it might. -/
def Orderly (c : Chain) (marks : List Mark) : Prop :=
  ∀ before caller callee entry after, marks = before ++ .entered caller callee entry :: after →
    c.MayBegin (runningCalls before) ⟨caller, callee, entry⟩

end Chain

section Records

variable {c c' : Chain} {marks : List Mark} {caller callee : Address} {entry : String}

theorem runningCalls_append (m : Mark) :
    runningCalls (marks ++ [m]) = m.follow (runningCalls marks) := by
  simp only [runningCalls, List.foldl_append, List.foldl_cons, List.foldl_nil]

theorem orderly_nil : c.Orderly [] := by
  intro before caller callee entry after h
  cases before <;> cases h

/-- A record goes on. -/
theorem Chain.Orderly.append (h : c.Orderly marks) {m : Mark}
    (hLast : ∀ caller callee entry, m = .entered caller callee entry →
      c.MayBegin (runningCalls marks) ⟨caller, callee, entry⟩) : c.Orderly (marks ++ [m]) := by
  intro before caller callee entry after hMarks
  rcases after.eq_nil_or_concat with rfl | ⟨rest, last, rfl⟩
  · obtain ⟨rfl, hm⟩ := List.append_inj' hMarks rfl
    exact hLast caller callee entry (List.singleton_inj.1 hm)
  · rw [List.concat_eq_append, ← List.cons_append, ← List.append_assoc] at hMarks
    exact h before caller callee entry rest (List.append_inj' hMarks rfl).1

theorem Contract.guise_kind (x : Contract) : x.guise.1 = x.kind := by cases x <;> rfl

/-- The guise of an adapter says whether it is set to call a router back. -/
theorem Chain.armed_iff {adapter router : Address} : c.Armed adapter router ↔
    (c.contract? adapter).map Contract.guise = some (.synthetic, some router) := by
  constructor
  · rintro ⟨s, hs, hTarget⟩
    rw [hs, Option.map_some, Contract.guise, hTarget]
  · intro hGuise
    obtain ⟨x, hx, hSame⟩ := Option.map_eq_some_iff.1 hGuise
    cases x <;> simp only [Contract.guise, Contract.kind, Prod.mk.injEq, reduceCtorEq, false_and]
      at hSame
    exact ⟨_, hx, hSame.2⟩

instance Chain.decidableArmed (c : Chain) (adapter router : Address) :
    Decidable (c.Armed adapter router) :=
  decidable_of_iff _ armed_iff.symm

namespace Chain.SameGuise

variable {c₁ : Chain} {a adapter router : Address} {old new : Contract}

theorem refl (c : Chain) : c.SameGuise c := fun _ => rfl

theorem trans (hFirst : c.SameGuise c₁) (hThen : c₁.SameGuise c') : c.SameGuise c' :=
  fun a => (hThen a).trans (hFirst a)

theorem put (h : c.SameGuise c₁) (hOld : c₁.contract? a = some old)
    (hSame : new.guise = old.guise) : c.SameGuise (c₁.put a new) :=
  h.trans (map_put hOld hSame)

theorem kind? (h : c.SameGuise c') (a : Address) : c'.kind? a = c.kind? a := by
  have hFirst := congrArg (Option.map Prod.fst) (h a)
  simpa only [Chain.kind?, Option.map_map, Function.comp_def, Contract.guise_kind] using hFirst

theorem kind?_of_contract? (h : c.SameGuise c') {x : Contract} (hx : c'.contract? a = some x) :
    c.kind? a = some x.kind := (h.kind? a).symm.trans (Chain.kind?_of_contract? hx)

/-- An adapter that is set to call a router back stays so. -/
theorem armed (h : c.SameGuise c') (hArmed : c.Armed adapter router) :
    c'.Armed adapter router :=
  armed_iff.2 ((h adapter).trans (armed_iff.1 hArmed))

end Chain.SameGuise

end Records

/-- What a call has come to that started on the chain `c`: contracts are of the same guise, all
routers that are running are among the locked ones, and no call has begun that might not. -/
structure Chain.Stage (c : Chain) (locked : List Address) (u : World) : Prop where
  guise : c.SameGuise u.chain
  locked : ∀ call ∈ runningCalls u.marks, c.kind? call.callee = some .router → call.callee ∈ locked
  orderly : c.Orderly u.marks

/-- A computation that minds which calls may begin: however far a call has come that it is a part
of, it begins none that might not, and all that it begins come to their end. -/
class Exec.Heedful (c : Chain) (locked : List Address) {α : Type} (m : Exec α) : Prop where
  after : ∀ u, c.Stage locked u →
    After m u fun _ v => c.Stage locked v ∧ runningCalls v.marks = runningCalls u.marks

/-- A call to a contract that is no router, and no router's deposit into an adapter that is set to
call it back, may begin whatever is running. -/
structure Chain.Apart (c : Chain) (call : Call) : Prop where
  callee : c.kind? call.callee ≠ some .router
  deposit : call.entry = "deposit_into_strategy" → c.kind? call.caller = some .router →
    ¬c.Armed call.callee call.caller

theorem Chain.Apart.mayBegin {c : Chain} {call : Call} (h : c.Apart call) (running : List Call) :
    c.MayBegin running call :=
  ⟨fun hRouter => absurd hRouter h.callee, h.deposit⟩

namespace Chain.Stage

variable {c : Chain} {locked locked' : List Address} {u v : World} {caller callee : Address}
  {entry : String}

/-- Contracts are replaced by others of the same guise. -/
theorem of_chain (h : c.Stage locked u) {c' : Chain} (hGuise : c.SameGuise c') :
    c.Stage locked { u with chain := c' } :=
  ⟨hGuise, h.locked, h.orderly⟩

/-- A call begins that may, with more routers locked. -/
theorem enter (h : c.Stage locked u)
    (hMay : c.MayBegin (runningCalls u.marks) ⟨caller, callee, entry⟩)
    (hLocked : c.kind? callee = some .router → callee ∈ locked') (hMore : locked ⊆ locked') :
    c.Stage locked' { u with marks := u.marks ++ [.entered caller callee entry] } where
  guise := h.guise
  locked := by
    intro call hCall hRouter
    rw [runningCalls_append, Mark.follow, List.mem_cons] at hCall
    obtain rfl | hCall := hCall
    · exact hLocked hRouter
    · exact hMore (h.locked call hCall hRouter)
  orderly := h.orderly.append fun _ _ _ hm => by
    cases hm
    exact hMay

/-- The call that began last comes to its end. -/
theorem leave (h : c.Stage locked' v) (hStart : c.Stage locked u)
    (hRunning : runningCalls v.marks = ⟨caller, callee, entry⟩ :: runningCalls u.marks) :
    c.Stage locked { v with marks := v.marks ++ [.left callee] } ∧
      runningCalls (v.marks ++ [.left callee]) = runningCalls u.marks := by
  have hSame : runningCalls (v.marks ++ [.left callee]) = runningCalls u.marks := by
    rw [runningCalls_append, hRunning]
    rfl
  exact ⟨⟨h.guise, hSame ▸ hStart.locked, h.orderly.append nofun⟩, hSame⟩

end Chain.Stage

/-- Contracts with such storages are all of the same guise. -/
class Storage.Steady (σ : Type) [Storage σ] : Prop where
  guise : ∀ s t : σ, (Storage.wrap s).guise = (Storage.wrap t).guise

/-- Contracts with such storages do not matter for calls that come back. -/
class Storage.Plain (σ : Type) [Storage σ] : Prop where
  kind : ∃ k, k ≠ .router ∧ k ≠ .synthetic ∧ ∀ s : σ, (Storage.wrap s).guise = (k, none)

namespace Storage

instance {σ : Type} [Storage σ] [hPlain : Plain σ] : Steady σ where
  guise s t := by
    obtain ⟨k, -, -, hGuise⟩ := hPlain.kind
    rw [hGuise s, hGuise t]

instance : Steady Router.State := ⟨fun _ _ => rfl⟩
instance : Plain ShareToken := ⟨_, by decide, by decide, fun _ => rfl⟩
instance : Plain Yield.Vault := ⟨_, by decide, by decide, fun _ => rfl⟩
instance : Plain Strategy.FixedRate := ⟨_, by decide, by decide, fun _ => rfl⟩
instance : Plain Custody := ⟨_, by decide, by decide, fun _ => rfl⟩

end Storage

namespace Exec.Heedful

variable {α β σ : Type} [Storage σ] {c : Chain} {locked : List Address} {caller callee : Address}
  {entry : String}

instance pure (a : α) : Heedful c locked (pure a : Exec α) :=
  ⟨fun _ hu => after_pure.2 ⟨hu, rfl⟩⟩

instance throw (e : Fault) : Heedful c locked (throw e : Exec α) :=
  ⟨fun _ _ => after_throw.2 trivial⟩

instance bind {m : Exec α} {f : α → Exec β} [hm : Heedful c locked m]
    [hf : ∀ a, Heedful c locked (f a)] : Heedful c locked (m >>= f) where
  after u hu := after_bind.2 <| (hm.after u hu).mono fun a v ⟨hv, hRunning⟩ =>
    ((hf a).after v hv).mono fun _ _ hThen => ⟨hThen.1, hThen.2.trans hRunning⟩

instance map {m : Exec α} {f : α → β} [Heedful c locked m] : Heedful c locked (f <$> m) := by
  rw [map_eq_pure_bind]
  infer_instance

instance discard {m : Exec α} [Heedful c locked m] : Heedful c locked (discard m) := map

instance view (view : View α) : Heedful c locked (liftM view : Exec α) :=
  ⟨fun _ hu => after_view.2 fun _ _ => ⟨hu, rfl⟩⟩

instance result (r : Result α) : Heedful c locked (liftM r : Exec α) :=
  ⟨fun _ hu => after_result.2 fun _ _ => ⟨hu, rfl⟩⟩

/-- What a call reads or works out on the way begins no call, so only what comes after it counts. -/
instance (priority := high) view_bind (view : View α) {f : α → Exec β}
    [∀ a, Heedful c locked (f a)] : Heedful c locked ((liftM view : Exec α) >>= f) := bind

instance (priority := high) result_bind (r : Result α) {f : α → Exec β}
    [∀ a, Heedful c locked (f a)] : Heedful c locked ((liftM r : Exec α) >>= f) := bind

instance emit (self : Address) (event : Event) : Heedful c locked (emit self event) :=
  ⟨fun _ hu => after_emit.2 ⟨⟨hu.guise, hu.locked, hu.orderly⟩, rfl⟩⟩

instance credited (token account : Address) (n : Amount) :
    Heedful c locked (mark (.credited token account n)) where
  after u hu := after_mark.2 <| by
    have hSame : runningCalls (u.marks ++ [.credited token account n]) = runningCalls u.marks :=
      runningCalls_append _
    exact ⟨⟨hu.guise, hSame ▸ hu.locked, hu.orderly.append nofun⟩, hSame⟩

instance ite {p : Prop} [Decidable p] {m m' : Exec α} [Heedful c locked m] [Heedful c locked m'] :
    Heedful c locked (if p then m else m') := by
  split <;> infer_instance

instance foldlM {f : β → α → Exec β} [hf : ∀ b a, Heedful c locked (f b a)] (as : List α) (b : β) :
    Heedful c locked (as.foldlM f b) := by
  induction as generalizing b with
  | nil => exact pure b
  | cons a rest ih =>
    rw [List.foldlM_cons]
    infer_instance

instance forM {f : α → Exec Unit} [hf : ∀ a, Heedful c locked (f a)] (as : List α) :
    Heedful c locked (as.forM f) := by
  induction as with
  | nil => exact pure ()
  | cons a rest ih =>
    change Heedful c locked (f a >>= fun _ => rest.forM f)
    infer_instance

/-- A change of storage that leaves the guise as it is. -/
theorem update_of_guise {x : Address} {change : σ → Result σ}
    (h : ∀ s t, change s = .ok t → (Storage.wrap t).guise = (Storage.wrap s).guise) :
    Heedful c locked (update x change) :=
  ⟨fun _ hu => after_update.2 fun s t hs ht => ⟨hu.of_chain (hu.guise.put hs (h s t ht)), rfl⟩⟩

instance update [Storage.Steady σ] {x : Address} {change : σ → Result σ} :
    Heedful c locked (update x change) :=
  update_of_guise fun s t _ => Storage.Steady.guise t s

/-- A call minds what may begin if its body does, and if the call may begin wherever its body comes
to an end. -/
theorem entering {body : Exec α} [hBody : Heedful c locked body]
    (hApart : ∀ u, c.SameGuise u.chain → After body u fun _ _ => c.Apart ⟨caller, callee, entry⟩) :
    Heedful c locked (entering caller callee entry body) where
  after u hu := after_entering.2 <| by
    by_cases h : c.Apart ⟨caller, callee, entry⟩
    · have hStart := hu.enter (h.mayBegin _) (fun hRouter => absurd hRouter h.callee)
        (List.Subset.refl locked)
      refine (hBody.after _ hStart).mono fun _ v ⟨hv, hRunning⟩ => ?_
      exact hv.leave hu (hRunning.trans (runningCalls_append _))
    · exact fun a v hEnd => absurd
        (hApart { u with marks := u.marks ++ [.entered caller callee entry] } hu.guise a v hEnd) h

/-- The call finds a contract that does not matter for calls that come back. -/
instance entering_callee [hPlain : Storage.Plain σ] {f : σ → Exec α}
    [Heedful c locked (liftM (View.callee entry callee) >>= f)] :
    Heedful c locked (Exec.entering caller callee entry (liftM (View.callee entry callee) >>= f)) := by
  refine entering fun u hu => after_bind.2 (after_view.2 fun s hs => ?_)
  rw [View.callee_eq_ok] at hs
  have hKind := hu.kind?_of_contract? hs
  obtain ⟨k, hRouter, hSynthetic, hGuise⟩ := hPlain.kind
  rw [← Contract.guise_kind, hGuise s] at hKind
  refine fun _ _ _ => ⟨?_, ?_⟩
  · rw [hKind]
    exact fun h => hRouter (Option.some.inj h)
  · rintro - - ⟨t, ht, -⟩
    exact hSynthetic (Option.some.inj (hKind.symm.trans (kind?_of_contract? ht)))

/-- A contract is replaced by another of the same kind. -/
instance put_callee [Storage.Steady σ] {change : σ → Result σ} :
    Heedful c locked (do
      let s : σ ← View.callee entry callee
      put callee (Storage.wrap (← change s))) where
  after u hu := by
    simp only [after_bind, after_view, View.callee_eq_ok, after_result, after_put]
    exact fun s hs t _ => ⟨hu.of_chain (hu.guise.put hs (Storage.Steady.guise t s)), trivial⟩

instance amend [Storage.Plain σ] {change : σ → Result σ} :
    Heedful c locked (amend caller callee entry change) := by
  unfold Exec.amend
  infer_instance

end Exec.Heedful

end Treasury
