import Treasury.Proofs.After

/-! What a call comes to, as a relation between chains. A call never looks at the record that has
been kept so far, but adds to it; so the chain alone decides whether it ends with a value, with
which one, on which chain and with which announcements. `Ends` says so, with an equivalence for each
way of building a call, which is read both ways: what has happened if the call has ended, and that
it does end. -/
namespace Treasury

/-- A world followed by what a call has added to the record. -/
def World.extend (w v : World) : World :=
  { chain := v.chain, events := w.events ++ v.events, marks := w.marks ++ v.marks }

theorem World.extend_assoc (u v w : World) : u.extend (v.extend w) = (u.extend v).extend w := by
  simp only [World.extend, List.append_assoc]

namespace Exec

variable {α β σ : Type} [Storage σ] {c c' : Chain} {a : α} {b : β}
  {es : List (Address × Event)}

/-- A call that adds to the record without looking at it. -/
class Additive (m : Exec α) : Prop where
  run_eq : ∀ w, m.run w = (fun r => (r.1, w.extend r.2)) <$> m.run { chain := w.chain }

namespace Additive

instance pure (a : α) : Additive (pure a : Exec α) where
  run_eq w := by
    change Except.ok _ = Except.ok _
    simp only [World.extend, List.append_nil]

instance throw (e : Fault) : Additive (throw e : Exec α) where
  run_eq _ := rfl

instance bind {m : Exec α} {f : α → Exec β} [hm : Additive m] [hf : ∀ a, Additive (f a)] :
    Additive (m >>= f) where
  run_eq w := by
    rw [StateT.run_bind, StateT.run_bind, hm.run_eq w]
    cases m.run { chain := w.chain } with
    | error e => rfl
    | ok r =>
      change (f r.1).run (w.extend r.2) = _ <$> (f r.1).run r.2
      rw [(hf r.1).run_eq (w.extend r.2), (hf r.1).run_eq r.2]
      change _ <$> (f r.1).run { chain := r.2.chain } =
        _ <$> _ <$> (f r.1).run { chain := r.2.chain }
      cases (f r.1).run { chain := r.2.chain } with
      | error e => rfl
      | ok s =>
        change Except.ok (s.1, _) = Except.ok (s.1, _)
        rw [World.extend_assoc]

instance map {m : Exec α} {f : α → β} [Additive m] : Additive (f <$> m) := by
  rw [map_eq_pure_bind]
  infer_instance

instance discard {m : Exec α} [Additive m] : Additive (discard m) := map

instance view (view : View α) : Additive (liftM view : Exec α) where
  run_eq w := by
    rw [run_view, run_view]
    change _ <$> view w.chain = _ <$> _ <$> view w.chain
    cases view w.chain with
    | error e => rfl
    | ok a =>
      change Except.ok _ = Except.ok _
      simp only [World.extend, List.append_nil]

instance result (r : Result α) : Additive (liftM r : Exec α) where
  run_eq w := by
    rw [run_result, run_result]
    cases r with
    | error e => rfl
    | ok a =>
      change Except.ok _ = Except.ok _
      simp only [World.extend, List.append_nil]

/-- What a call reads or works out on the way adds nothing, so only what comes after it counts. -/
instance (priority := high) view_bind (view : View α) {f : α → Exec β} [∀ a, Additive (f a)] :
    Additive ((liftM view : Exec α) >>= f) := bind

instance (priority := high) result_bind (r : Result α) {f : α → Exec β} [∀ a, Additive (f a)] :
    Additive ((liftM r : Exec α) >>= f) := bind

instance emit (self : Address) (event : Event) : Additive (emit self event) where
  run_eq w := by
    change Except.ok _ = Except.ok _
    simp only [World.extend, List.append_nil, List.nil_append]

instance mark (m : Mark) : Additive (mark m) where
  run_eq w := by
    change Except.ok _ = Except.ok _
    simp only [World.extend, List.append_nil, List.nil_append]

instance put (x : Address) (new : Contract) : Additive (put x new) where
  run_eq w := by
    change Except.ok _ = Except.ok _
    simp only [World.extend, List.append_nil]

instance ite {p : Prop} [Decidable p] {m m' : Exec α} [Additive m] [Additive m'] :
    Additive (if p then m else m') := by
  split <;> infer_instance

instance entering {caller callee : Address} {entry : String} {body : Exec α} [Additive body] :
    Additive (entering caller callee entry body) := by
  unfold Exec.entering
  infer_instance

instance update {x : Address} {change : σ → Result σ} : Additive (update x change) := by
  unfold Exec.update
  infer_instance

instance amend {caller self : Address} {entry : String} {change : σ → Result σ} :
    Additive (amend caller self entry change) := by
  unfold Exec.amend
  infer_instance

instance foldlM {f : β → α → Exec β} [hf : ∀ b a, Additive (f b a)] (as : List α) (b : β) :
    Additive (as.foldlM f b) := by
  induction as generalizing b with
  | nil => exact pure b
  | cons a rest ih =>
    rw [List.foldlM_cons]
    infer_instance

instance forM {f : α → Exec Unit} [hf : ∀ a, Additive (f a)] (as : List α) :
    Additive (as.forM f) := by
  induction as with
  | nil => exact pure ()
  | cons a rest ih =>
    change Additive (f a >>= fun _ => rest.forM f)
    infer_instance

end Additive

/-- From a chain, the call ends with a value on another chain, and makes announcements. -/
def Ends (m : Exec α) (c : Chain) (a : α) (c' : Chain) (es : List (Address × Event)) : Prop :=
  ∃ marks, m.run { chain := c } = .ok (a, ⟨c', es, marks⟩)

@[simp] theorem ends_pure {x : α} :
    Ends (pure x : Exec α) c a c' es ↔ x = a ∧ c = c' ∧ [] = es := by
  constructor
  · rintro ⟨marks, ⟨⟩⟩
    exact ⟨rfl, rfl, rfl⟩
  · rintro ⟨rfl, rfl, rfl⟩
    exact ⟨[], rfl⟩

@[simp] theorem ends_throw {e : Fault} : Ends (throw e : Exec α) c a c' es ↔ False := by
  constructor
  · rintro ⟨marks, ⟨⟩⟩
  · exact False.elim

theorem ends_bind {m : Exec α} {f : α → Exec β} [hf : ∀ a, Additive (f a)] :
    Ends (m >>= f) c b c' es ↔ ∃ a c₁ es₁ es₂, Ends m c a c₁ es₁ ∧ Ends (f a) c₁ b c' es₂ ∧
      es₁ ++ es₂ = es := by
  constructor
  · rintro ⟨marks, h⟩
    obtain ⟨a, u, hm, hRest⟩ := bind_eq_ok.1 h
    rw [(hf a).run_eq u] at hRest
    obtain ⟨⟨_, v⟩, hv, hSame⟩ := Result.map_eq_ok.1 hRest
    cases hSame
    exact ⟨a, u.chain, u.events, v.events, ⟨u.marks, hm⟩, ⟨v.marks, hv⟩, rfl⟩
  · rintro ⟨a, c₁, es₁, es₂, ⟨marks, hm⟩, ⟨marks', hRest⟩, rfl⟩
    refine ⟨marks ++ marks', bind_eq_ok.2 ⟨a, _, hm, ?_⟩⟩
    rw [(hf a).run_eq, hRest]
    rfl

@[simp] theorem ends_view {view : View α} :
    Ends (liftM view) c a c' es ↔ view c = .ok a ∧ c = c' ∧ [] = es := by
  simp only [Ends, run_view, Result.map_eq_ok]
  constructor
  · rintro ⟨marks, x, hx, ⟨⟩⟩
    exact ⟨hx, rfl, rfl⟩
  · rintro ⟨hx, rfl, rfl⟩
    exact ⟨[], a, hx, rfl⟩

@[simp] theorem ends_result {r : Result α} :
    Ends (liftM r) c a c' es ↔ r = .ok a ∧ c = c' ∧ [] = es := by
  simp only [Ends, run_result, Result.map_eq_ok]
  constructor
  · rintro ⟨marks, x, hx, ⟨⟩⟩
    exact ⟨hx, rfl, rfl⟩
  · rintro ⟨hx, rfl, rfl⟩
    exact ⟨[], a, hx, rfl⟩

@[simp] theorem ends_emit {self : Address} {event : Event} {u : Unit} :
    Ends (emit self event) c u c' es ↔ c = c' ∧ [(self, event)] = es := by
  constructor
  · rintro ⟨marks, ⟨⟩⟩
    exact ⟨rfl, rfl⟩
  · rintro ⟨rfl, rfl⟩
    exact ⟨[], rfl⟩

@[simp] theorem ends_mark {m : Mark} {u : Unit} : Ends (mark m) c u c' es ↔ c = c' ∧ [] = es := by
  constructor
  · rintro ⟨marks, ⟨⟩⟩
    exact ⟨rfl, rfl⟩
  · rintro ⟨rfl, rfl⟩
    exact ⟨[m], rfl⟩

@[simp] theorem ends_put {x : Address} {new : Contract} {u : Unit} :
    Ends (put x new) c u c' es ↔ c.put x new = c' ∧ [] = es := by
  constructor
  · rintro ⟨marks, ⟨⟩⟩
    exact ⟨rfl, rfl⟩
  · rintro ⟨rfl, rfl⟩
    exact ⟨[], rfl⟩

@[simp] theorem ends_map {m : Exec α} {f : α → β} :
    Ends (f <$> m) c b c' es ↔ ∃ a, Ends m c a c' es ∧ f a = b := by
  rw [map_eq_pure_bind, ends_bind]
  simp only [ends_pure]
  constructor
  · rintro ⟨a, c₁, es₁, es₂, hm, ⟨rfl, rfl, rfl⟩, rfl⟩
    rw [List.append_nil]
    exact ⟨a, hm, rfl⟩
  · rintro ⟨a, hm, rfl⟩
    exact ⟨a, c', es, [], hm, ⟨rfl, rfl, rfl⟩, List.append_nil _⟩

/-! A call that announces nothing can be followed by another. -/

section Bind

variable {f : α → Exec β} {g : Unit → Exec β}

/-- What follows a call that announces nothing makes all the announcements. -/
theorem ends_bind_of_quiet {m : Exec α} {R : α → Chain → Prop} [∀ a, Additive (f a)]
    (h : ∀ a c₁ es, Ends m c a c₁ es ↔ R a c₁ ∧ [] = es) :
    Ends (m >>= f) c b c' es ↔ ∃ a c₁, R a c₁ ∧ Ends (f a) c₁ b c' es := by
  rw [ends_bind]
  constructor
  · rintro ⟨a, c₁, es₁, es₂, hm, hRest, rfl⟩
    obtain ⟨hDone, rfl⟩ := (h a c₁ es₁).1 hm
    exact ⟨a, c₁, hDone, hRest⟩
  · rintro ⟨a, c₁, hDone, hRest⟩
    exact ⟨a, c₁, [], es, (h a c₁ []).2 ⟨hDone, rfl⟩, hRest, rfl⟩

@[simp] theorem ends_view_bind {view : View α} :
    Ends (liftM view >>= f) c b c' es ↔ ∃ a, view c = .ok a ∧ Ends (f a) c b c' es := by
  simp only [Ends, bind_eq_ok, run_view, Result.map_eq_ok]
  constructor
  · rintro ⟨marks, x, _, ⟨_, hx, ⟨⟩⟩, hRest⟩
    exact ⟨x, hx, marks, hRest⟩
  · rintro ⟨x, hx, marks, hRest⟩
    exact ⟨marks, x, _, ⟨x, hx, rfl⟩, hRest⟩

@[simp] theorem ends_result_bind {r : Result α} :
    Ends (liftM r >>= f) c b c' es ↔ ∃ a, r = .ok a ∧ Ends (f a) c b c' es := by
  simp only [Ends, bind_eq_ok, run_result, Result.map_eq_ok]
  constructor
  · rintro ⟨marks, x, _, ⟨_, hx, ⟨⟩⟩, hRest⟩
    exact ⟨x, hx, marks, hRest⟩
  · rintro ⟨x, hx, marks, hRest⟩
    exact ⟨marks, x, _, ⟨x, hx, rfl⟩, hRest⟩

@[simp] theorem ends_put_bind {x : Address} {new : Contract} :
    Ends (put x new >>= g) c b c' es ↔ Ends (g ()) (c.put x new) b c' es := by
  simp only [Ends, bind_eq_ok, run_put]
  constructor
  · rintro ⟨marks, _, _, ⟨⟩, hRest⟩
    exact ⟨marks, hRest⟩
  · rintro ⟨marks, hRest⟩
    exact ⟨marks, (), _, rfl, hRest⟩

@[simp] theorem ends_update_bind {x : Address} {change : σ → Result σ} :
    Ends (update x change >>= g) c b c' es ↔
      ∃ s t, c.contract? x = some (Storage.wrap s) ∧ change s = .ok t ∧
        Ends (g ()) (c.put x (Storage.wrap t)) b c' es := by
  simp only [update, bind_assoc, ends_view_bind, ends_result_bind, ends_put_bind, View.load_eq_ok]
  exact ⟨fun ⟨s, hs, t, ht, hRest⟩ => ⟨s, t, hs, ht, hRest⟩,
    fun ⟨s, t, hs, ht, hRest⟩ => ⟨s, hs, t, ht, hRest⟩⟩

@[simp] theorem ends_mark_bind {m : Mark} [hg : Additive (g ())] :
    Ends (mark m >>= g) c b c' es ↔ Ends (g ()) c b c' es := by
  have : ∀ u, Additive (g u) := fun _ => hg
  rw [ends_bind_of_quiet (R := fun _ c₁ => c = c₁) fun _ _ _ => ends_mark]
  exact ⟨fun ⟨_, _, hc, h⟩ => hc ▸ h, fun h => ⟨(), c, rfl, h⟩⟩

end Bind

@[simp] theorem ends_update {x : Address} {change : σ → Result σ} {u : Unit} :
    Ends (update x change) c u c' es ↔
      ∃ s t, c.contract? x = some (Storage.wrap s) ∧ change s = .ok t ∧
        c.put x (Storage.wrap t) = c' ∧ [] = es := by
  simp only [update, ends_view_bind, ends_result_bind, ends_put, View.load_eq_ok]
  exact ⟨fun ⟨s, hs, t, ht, hRest⟩ => ⟨s, t, hs, ht, hRest⟩,
    fun ⟨s, t, hs, ht, hRest⟩ => ⟨s, hs, t, ht, hRest⟩⟩

/-- The marks around the body of an entry point are no part of what it comes to. -/
@[simp] theorem ends_entering {caller callee : Address} {entry : String} {body : Exec α}
    [Additive body] : Ends (entering caller callee entry body) c a c' es ↔ Ends body c a c' es := by
  rw [entering, ends_mark_bind, ends_bind]
  simp only [ends_mark_bind, ends_pure]
  constructor
  · rintro ⟨_, c₁, es₁, _, hBody, ⟨rfl, rfl, rfl⟩, rfl⟩
    rw [List.append_nil]
    exact hBody
  · exact fun hBody => ⟨a, c', es, [], hBody, ⟨rfl, rfl, rfl⟩, List.append_nil _⟩

@[simp] theorem ends_amend {caller self : Address} {entry : String} {change : σ → Result σ}
    {u : Unit} : Ends (amend caller self entry change) c u c' es ↔
      ∃ s t, c.contract? self = some (Storage.wrap s) ∧ change s = .ok t ∧
        c.put self (Storage.wrap t) = c' ∧ [] = es := by
  simp only [amend, ends_entering, ends_view_bind, ends_result_bind, ends_put, View.callee_eq_ok]
  exact ⟨fun ⟨s, hs, t, ht, hRest⟩ => ⟨s, t, hs, ht, hRest⟩,
    fun ⟨s, t, hs, ht, hRest⟩ => ⟨s, hs, t, ht, hRest⟩⟩

end Exec

open Exec

instance Router.additive_guarded {α : Type} {f : Frame} {entry : String}
    {body : Frame → State → Exec α} [∀ f s, Additive (body f s)] :
    Additive (guarded f entry body) := by
  unfold Router.guarded
  infer_instance

/-- A guarded body runs with its router locked, which it was not before. -/
@[simp] theorem Router.ends_guarded {α : Type} {f : Frame} {entry : String}
    {body : Frame → State → Exec α} [∀ f s, Additive (body f s)] {c c' : Chain} {a : α}
    {es : List (Address × Event)} :
    Ends (guarded f entry body) c a c' es ↔
      ∃ s, c.contract? f.self = some (.router s) ∧ f.self ∉ f.locked ∧
        Ends (body { f with locked := f.self :: f.locked } s) c a c' es := by
  simp only [guarded, ends_entering, ends_view_bind, View.callee_eq_ok]
  refine exists_congr fun s => and_congr_right fun _ => ?_
  by_cases h : f.self ∈ f.locked
  · simp only [h, if_true, ends_throw, not_true_eq_false, false_and]
  · simp only [h, if_false, not_false_eq_true, true_and]

end Treasury
