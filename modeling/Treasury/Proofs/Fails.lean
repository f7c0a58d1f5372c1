import Treasury.Proofs.Ends
import Treasury.Submission

/-! How a call fails, as a relation between a chain and a fault. It is the other side of `Ends`. A
sequence fails where its first part does, or where the first part ends and the rest fails from
there. What is submitted ends or fails as the call does, and leaves the chain as it is if it
fails. -/
namespace Treasury

theorem Result.map_eq_error {α β : Type} {x : Result α} {f : α → β} {e : Fault} :
    (f <$> x) = .error e ↔ x = .error e := by
  cases x <;> simp [Functor.map, Except.map]

namespace Exec

variable {α β σ : Type} [Storage σ] {c : Chain} {e : Fault}

/-- From a chain, the call fails with a fault. -/
def Fails (m : Exec α) (c : Chain) (e : Fault) : Prop := m.run { chain := c } = .error e

/-- A call fails in the same way whatever has been recorded. -/
theorem run_eq_error {m : Exec α} [hm : Additive m] {w : World} :
    m.run w = .error e ↔ Fails m w.chain e := by
  rw [hm.run_eq w, Result.map_eq_error, Fails]

@[simp] theorem fails_pure {a : α} : Fails (pure a : Exec α) c e ↔ False :=
  ⟨fun h => (by cases h), False.elim⟩

@[simp] theorem fails_throw {e' : Fault} : Fails (throw e' : Exec α) c e ↔ e' = e :=
  ⟨fun h => Except.error.inj h, fun h => congrArg Except.error h⟩

@[simp] theorem fails_view {view : View α} : Fails (liftM view) c e ↔ view c = .error e := by
  rw [Fails, run_view, Result.map_eq_error]

@[simp] theorem fails_result {r : Result α} : Fails (liftM r) c e ↔ r = .error e := by
  rw [Fails, run_result, Result.map_eq_error]

@[simp] theorem fails_mark {m : Mark} : Fails (mark m) c e ↔ False :=
  ⟨fun h => (by cases h), False.elim⟩

@[simp] theorem fails_emit {self : Address} {event : Event} :
    Fails (emit self event) c e ↔ False :=
  ⟨fun h => (by cases h), False.elim⟩

@[simp] theorem fails_put {x : Address} {new : Contract} : Fails (put x new) c e ↔ False :=
  ⟨fun h => (by cases h), False.elim⟩

theorem fails_bind {m : Exec α} {f : α → Exec β} [hf : ∀ a, Additive (f a)] :
    Fails (m >>= f) c e ↔ Fails m c e ∨ ∃ a c₁ es, Ends m c a c₁ es ∧ Fails (f a) c₁ e := by
  rw [Fails, StateT.run_bind, Result.bind_eq_error]
  refine or_congr Iff.rfl ⟨?_, ?_⟩
  · rintro ⟨⟨a, u⟩, hm, hRest⟩
    exact ⟨a, u.chain, u.events, ⟨u.marks, hm⟩, run_eq_error.1 hRest⟩
  · rintro ⟨a, c₁, es, ⟨marks, hm⟩, hRest⟩
    exact ⟨_, hm, run_eq_error.2 hRest⟩

section Bind

variable {f : α → Exec β} {g : Unit → Exec β}

@[simp] theorem fails_view_bind {view : View α} : Fails (liftM view >>= f) c e ↔
    view c = .error e ∨ ∃ a, view c = .ok a ∧ Fails (f a) c e := by
  rw [Fails, StateT.run_bind, Result.bind_eq_error]
  refine or_congr fails_view ⟨?_, ?_⟩
  · rintro ⟨⟨a, u⟩, hView, hRest⟩
    rw [run_view, Result.map_eq_ok] at hView
    obtain ⟨_, hView, ⟨⟩⟩ := hView
    exact ⟨a, hView, hRest⟩
  · rintro ⟨a, hView, hRest⟩
    exact ⟨(a, { chain := c }), by rw [run_view, Result.map_eq_ok]; exact ⟨a, hView, rfl⟩, hRest⟩

@[simp] theorem fails_result_bind {r : Result α} : Fails (liftM r >>= f) c e ↔
    r = .error e ∨ ∃ a, r = .ok a ∧ Fails (f a) c e := by
  rw [Fails, StateT.run_bind, Result.bind_eq_error]
  refine or_congr fails_result ⟨?_, ?_⟩
  · rintro ⟨⟨a, u⟩, hResult, hRest⟩
    rw [run_result, Result.map_eq_ok] at hResult
    obtain ⟨_, hResult, ⟨⟩⟩ := hResult
    exact ⟨a, hResult, hRest⟩
  · rintro ⟨a, hResult, hRest⟩
    refine ⟨(a, { chain := c }), ?_, hRest⟩
    rw [run_result, Result.map_eq_ok]
    exact ⟨a, hResult, rfl⟩

@[simp] theorem fails_update {x : Address} {change : σ → Result σ} : Fails (update x change) c e ↔
    (View.load x : View σ) c = .error e ∨
      ∃ s, c.contract? x = some (Storage.wrap s) ∧ change s = .error e := by
  simp only [update, fails_view_bind, fails_result_bind, fails_put, and_false, exists_false,
    or_false, View.load_eq_ok]

@[simp] theorem fails_update_bind {x : Address} {change : σ → Result σ}
    [hg : Additive (g ())] : Fails (update x change >>= g) c e ↔
      (View.load x : View σ) c = .error e ∨ ∃ s, c.contract? x = some (Storage.wrap s) ∧
        (change s = .error e ∨ ∃ t, change s = .ok t ∧
          Fails (g ()) (c.put x (Storage.wrap t)) e) := by
  have : ∀ u, Additive (g u) := fun _ => hg
  rw [fails_bind, fails_update]
  simp only [ends_update]
  constructor
  · rintro ((hLoad | ⟨s, hs, hChange⟩) | ⟨_, _, _, ⟨s, t, hs, hChange, rfl, -⟩, hRest⟩)
    · exact .inl hLoad
    · exact .inr ⟨s, hs, .inl hChange⟩
    · exact .inr ⟨s, hs, .inr ⟨t, hChange, hRest⟩⟩
  · rintro (hLoad | ⟨s, hs, hChange | ⟨t, hChange, hRest⟩⟩)
    · exact .inl (.inl hLoad)
    · exact .inl (.inr ⟨s, hs, hChange⟩)
    · exact .inr ⟨(), _, _, ⟨s, t, hs, hChange, rfl, rfl⟩, hRest⟩

end Bind

@[simp] theorem fails_map {m : Exec α} {f : α → β} : Fails (f <$> m) c e ↔ Fails m c e := by
  rw [map_eq_pure_bind, fails_bind]
  simp only [fails_pure, and_false, exists_false, or_false]

/-- The marks around the body of an entry point do not make it fail. -/
@[simp] theorem fails_entering {caller callee : Address} {entry : String} {body : Exec α}
    [Additive body] : Fails (entering caller callee entry body) c e ↔ Fails body c e := by
  rw [entering, fails_bind]
  simp only [fails_mark, ends_mark, false_or]
  constructor
  · rintro ⟨_, _, _, ⟨rfl, rfl⟩, hRest⟩
    rw [fails_bind] at hRest
    rcases hRest with hBody | ⟨_, _, _, -, hEnd⟩
    · exact hBody
    · rw [fails_bind] at hEnd
      simp only [fails_mark, fails_pure, and_false, exists_false, or_false] at hEnd
  · exact fun hBody => ⟨(), c, [], ⟨rfl, rfl⟩, fails_bind.2 (.inl hBody)⟩

/-- An entry point that does nothing but change the storage of its contract fails if the change
does. -/
theorem fails_amend {caller self : Address} {entry : String} {change : σ → Result σ} {s : σ}
    (hs : c.contract? self = some (Storage.wrap s)) :
    Fails (amend caller self entry change) c e ↔ change s = .error e := by
  have hCallee : (View.callee entry self : View σ) c = .ok s := View.callee_eq_ok.2 hs
  simp only [amend, fails_entering, fails_view_bind, fails_result_bind, fails_put, hCallee,
    reduceCtorEq, false_or, and_false, exists_false, or_false, Except.ok.injEq, exists_eq_left']

end Exec

open Exec

/-- A guarded body fails where there is no router, or the router is locked, or the body itself
does. -/
theorem Router.fails_guarded {α : Type} {f : Frame} {entry : String}
    {body : Frame → State → Exec α} [∀ f s, Additive (body f s)] {c : Chain} {e : Fault} {s : State}
    (hs : c.contract? f.self = some (.router s)) (hFree : f.self ∉ f.locked) :
    Fails (guarded f entry body) c e ↔
      Fails (body { f with locked := f.self :: f.locked } s) c e := by
  have hRouter : (View.callee entry f.self : View State) c = .ok s := View.callee_eq_ok.2 hs
  simp only [guarded, fails_entering, fails_view_bind, hRouter, reduceCtorEq, false_or,
    Except.ok.injEq, exists_eq_left', if_neg hFree]

namespace Chain

variable {c c' : Chain} {caller target : Address} {command : Command} {e : Fault}

/-- What has been submitted has ended. -/
theorem ends_of_submit {out : Outcome} (h : c.submit caller target command = .ok out) :
    Ends (command.run c.callback target caller) c out.answer out.chain out.events := by
  obtain ⟨⟨answer, w⟩, hRun, ⟨⟩⟩ := Result.bind_eq_ok.1 h
  exact ⟨w.marks, hRun⟩

theorem submit_of_ends {a : Answer} {es : List (Address × Event)}
    (h : Ends (command.run c.callback target caller) c a c' es) :
    ∃ marks, c.submit caller target command = .ok ⟨a, c', es, marks⟩ := by
  obtain ⟨marks, h⟩ := h
  exact ⟨marks, Result.bind_eq_ok.2 ⟨_, h, rfl⟩⟩

/-- What has been submitted is refused where it fails. -/
theorem submit_eq_error : c.submit caller target command = .error e ↔
    Fails (command.run c.callback target caller) c e := by
  rw [submit, Result.bind_eq_error, Fails]
  refine or_iff_left ?_
  rintro ⟨_, _, h⟩
  cases h

/-- The chain after a call, which leaves it as it is if it fails. -/
def after (c : Chain) (caller target : Address) (command : Command) : Chain :=
  match c.submit caller target command with
  | .ok out => out.chain
  | .error _ => c

theorem after_of_ok {out : Outcome} (h : c.submit caller target command = .ok out) :
    c.after caller target command = out.chain := by
  rw [after, h]

theorem after_of_error (h : c.submit caller target command = .error e) :
    c.after caller target command = c := by
  rw [after, h]

end Chain

end Treasury
