import Treasury.Router.Command

/-! What holds after a call. `After` speaks of the calls that end with a value: one lemma for each
way of building a call says what has to hold after its parts. Nothing is said of a call that ends
with a fault, since it leaves the chain as it was. -/
namespace Treasury

namespace Exec

/-- Whenever the call ends with a value, `Q` holds of the value and the world. -/
def After {α : Type} (m : Exec α) (w : World) (Q : α → World → Prop) : Prop :=
  ∀ a v, m.run w = .ok (a, v) → Q a v

variable {α β σ : Type} [Storage σ] {w : World}

theorem After.mono {m : Exec α} {Q R : α → World → Prop} (h : After m w Q)
    (hImp : ∀ a v, Q a v → R a v) : After m w R :=
  fun a v hRun => hImp a v (h a v hRun)

theorem After.and {m : Exec α} {Q R : α → World → Prop} (h : After m w Q) (h' : After m w R) :
    After m w fun a v => Q a v ∧ R a v :=
  fun a v hRun => ⟨h a v hRun, h' a v hRun⟩

@[simp] theorem after_bind {m : Exec α} {f : α → Exec β} {Q : β → World → Prop} :
    After (m >>= f) w Q ↔ After m w fun a u => After (f a) u Q := by
  constructor
  · intro h a u hm b v hf
    exact h b v (bind_eq_ok.2 ⟨a, u, hm, hf⟩)
  · intro h b v hRun
    obtain ⟨a, u, hm, hf⟩ := bind_eq_ok.1 hRun
    exact h a u hm b v hf

@[simp] theorem after_pure {a : α} {Q : α → World → Prop} : After (pure a) w Q ↔ Q a w := by
  constructor
  · exact fun h => h a w rfl
  · rintro h _ _ ⟨⟩
    exact h

@[simp] theorem after_throw {e : Fault} {Q : α → World → Prop} : After (throw e) w Q ↔ True := by
  constructor
  · exact fun _ => trivial
  · rintro - a v hRun
    cases hRun

@[simp] theorem after_map {m : Exec α} {f : α → β} {Q : β → World → Prop} :
    After (f <$> m) w Q ↔ After m w fun a v => Q (f a) v := by
  rw [map_eq_pure_bind, after_bind]
  simp only [after_pure]

@[simp] theorem after_discard {m : Exec α} {Q : Unit → World → Prop} :
    After (discard m) w Q ↔ After m w fun _ v => Q () v :=
  after_map

/-- What holds of the world after a call still holds when its answer has been given. -/
theorem After.answered {m : Exec α} {answer : α → β} {P : World → Prop}
    (h : After m w fun _ v => P v) :
    After (do let a ← m; pure (answer a)) w fun _ v => P v :=
  after_bind.2 (h.mono fun _ _ hDone => after_pure.2 hDone)

@[simp] theorem after_view {view : View α} {Q : α → World → Prop} :
    After (liftM view) w Q ↔ ∀ a, view w.chain = .ok a → Q a w := by
  simp only [After, run_view, Result.map_eq_ok]
  constructor
  · exact fun h a ha => h a w ⟨a, ha, rfl⟩
  · rintro h a v ⟨b, hb, hv⟩
    cases hv
    exact h a hb

@[simp] theorem after_result {r : Result α} {Q : α → World → Prop} :
    After (liftM r) w Q ↔ ∀ a, r = .ok a → Q a w := by
  simp only [After, run_result, Result.map_eq_ok]
  constructor
  · exact fun h a ha => h a w ⟨a, ha, rfl⟩
  · rintro h a v ⟨b, hb, hv⟩
    cases hv
    exact h a hb

theorem after_get {Q : World → World → Prop} : After get w Q ↔ Q w w := by
  constructor
  · exact fun h => h w w rfl
  · rintro h _ _ ⟨⟩
    exact h

@[simp] theorem after_emit {self : Address} {event : Event} {Q : Unit → World → Prop} :
    After (emit self event) w Q ↔ Q () { w with events := w.events ++ [(self, event)] } := by
  constructor
  · exact fun h => h () _ rfl
  · rintro h _ _ ⟨⟩
    exact h

@[simp] theorem after_mark {m : Mark} {Q : Unit → World → Prop} :
    After (mark m) w Q ↔ Q () { w with marks := w.marks ++ [m] } := by
  constructor
  · exact fun h => h () _ rfl
  · rintro h _ _ ⟨⟩
    exact h

@[simp] theorem after_put {a : Address} {new : Contract} {Q : Unit → World → Prop} :
    After (put a new) w Q ↔ Q () { w with chain := w.chain.put a new } := by
  constructor
  · exact fun h => h () _ rfl
  · rintro h _ _ ⟨⟩
    exact h

@[simp] theorem after_update {a : Address} {change : σ → Result σ} {Q : Unit → World → Prop} :
    After (update a change) w Q ↔
      ∀ s t, w.chain.contract? a = some (Storage.wrap s) → change s = .ok t →
        Q () { w with chain := w.chain.put a (Storage.wrap t) } := by
  constructor
  · exact fun h s t hs ht => h () _ (update_eq_ok.2 ⟨s, t, hs, ht, rfl⟩)
  · intro h _ v hRun
    obtain ⟨s, t, hs, ht, rfl⟩ := update_eq_ok.1 hRun
    exact h s t hs ht

@[simp] theorem after_ite {p : Prop} [Decidable p] {m m' : Exec α} {Q : α → World → Prop} :
    After (if p then m else m') w Q ↔ (p → After m w Q) ∧ (¬p → After m' w Q) := by
  split
  · next h => simp only [h, true_implies, not_true_eq_false, false_implies, and_true]
  · next h => simp only [h, false_implies, not_false_eq_true, true_implies, true_and]

/-- The marks around the body of an entry point are all that the entry point adds to it. -/
@[simp] theorem after_entering {caller callee : Address} {entry : String} {body : Exec α}
    {Q : α → World → Prop} :
    After (entering caller callee entry body) w Q ↔
      After body { w with marks := w.marks ++ [.entered caller callee entry] }
        fun a u => Q a { u with marks := u.marks ++ [.left callee] } := by
  constructor
  · exact fun h a u hBody => h a _ (entering_eq_ok.2 ⟨u, hBody, rfl⟩)
  · intro h a v hRun
    obtain ⟨u, hBody, rfl⟩ := entering_eq_ok.1 hRun
    exact h a u hBody

theorem after_amend {caller self : Address} {entry : String} {change : σ → Result σ}
    {Q : Unit → World → Prop}
    (h : ∀ s t v, w.chain.contract? self = some (Storage.wrap s) → change s = .ok t →
      v.chain = w.chain.put self (Storage.wrap t) → Q () v) :
    After (amend caller self entry change) w Q := by
  simp only [amend, after_entering, after_bind, after_view, View.callee_eq_ok, after_result,
    after_put]
  exact fun s hs t ht => h s t _ hs ht rfl

/-- What each step of a fold keeps, the whole fold keeps. -/
theorem after_foldlM {f : β → α → Exec β} {I : World → Prop} (as : List α)
    (hStep : ∀ a ∈ as, ∀ b u, I u → After (f b a) u fun _ v => I v) (b : β) (hStart : I w) :
    After (as.foldlM f b) w fun _ v => I v := by
  induction as generalizing b w with
  | nil => exact after_pure.2 hStart
  | cons a rest ih =>
    rw [List.foldlM_cons, after_bind]
    refine (hStep a List.mem_cons_self b w hStart).mono fun b u hu => ?_
    exact ih (fun a ha => hStep a (List.mem_cons_of_mem _ ha)) b hu

/-- A fold that only asks questions leaves the world as it is. -/
theorem after_foldlM_view {γ : Type} {ask : α → View γ} {combine : β → γ → Result β}
    (as : List α) (b : β) {Q : β → World → Prop} :
    After (as.foldlM (fun b a => do combine b (← ask a)) b : Exec β) w Q ↔
      ∀ r, (as.foldlM (fun b a => do combine b (← ask a)) b : View β) w.chain = .ok r → Q r w := by
  induction as generalizing b with
  | nil => simp only [List.foldlM_nil, after_pure, View.pure_apply, Except.ok.injEq, forall_eq']
  | cons a rest ih =>
    simp only [List.foldlM_cons, after_bind, after_view, after_result, ih]
    constructor
    · intro h r hr
      obtain ⟨next, hNext, hRest⟩ := View.bind_eq_ok.1 hr
      obtain ⟨x, hx, hCombine⟩ := View.bind_eq_ok.1 hNext
      exact h x hx next hCombine r hRest
    · intro h x hx next hCombine r hRest
      exact h r (View.bind_eq_ok.2 ⟨next, View.bind_eq_ok.2 ⟨x, hx, hCombine⟩, hRest⟩)

/-- What each step of a loop keeps, the whole loop keeps. -/
theorem after_forM {f : α → Exec Unit} {I : World → Prop} (as : List α)
    (hStep : ∀ a ∈ as, ∀ u, I u → After (f a) u fun _ v => I v) (hStart : I w) :
    After (as.forM f) w fun _ v => I v := by
  induction as generalizing w with
  | nil => exact after_pure.2 hStart
  | cons a rest ih =>
    change After (f a >>= fun _ => rest.forM f) w _
    rw [after_bind]
    refine (hStep a List.mem_cons_self w hStart).mono fun _ u hu => ?_
    exact ih (fun a ha => hStep a (List.mem_cons_of_mem _ ha)) hu

end Exec

open Exec

/-- A guarded body runs with its router locked, which it was not before. -/
@[simp] theorem Router.after_guarded {α : Type} {f : Frame} {entry : String}
    {body : Frame → State → Exec α} {w : World} {Q : α → World → Prop} :
    After (guarded f entry body) w Q ↔
      ∀ s, w.chain.contract? f.self = some (.router s) → f.self ∉ f.locked →
        After (body { f with locked := f.self :: f.locked } s)
          { w with marks := w.marks ++ [.entered f.caller f.self entry] }
          fun a u => Q a { u with marks := u.marks ++ [.left f.self] } := by
  simp only [guarded, after_entering, after_bind, after_view, View.callee_eq_ok]
  refine forall_congr' fun s => forall_congr' fun _ => ?_
  by_cases h : f.self ∈ f.locked
  · simp only [h, if_true, after_throw, not_true_eq_false, false_implies]
  · simp only [h, if_false, not_false_eq_true, true_implies]

end Treasury
