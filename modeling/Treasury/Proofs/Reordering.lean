import Mathlib.Data.List.Perm.Basic
import Treasury.Proofs.Ends

/-! Calls made one after the other, in another order. If any two of them can be swapped, a list of
calls ends with the same value on the same chain in whatever order it stands; only announcements
come in another order, too. -/
namespace Treasury.Exec

variable {α β γ : Type} {c : Chain} {I : Chain → Prop}

/-- Whenever the call ends from a chain, the other one does so with the same value on the same
chain. It announces the same things, maybe in another order. -/
def Reorders (m m' : Exec α) (c : Chain) : Prop :=
  ∀ a c' es, Ends m c a c' es → ∃ es', es'.Perm es ∧ Ends m' c a c' es'

/-- What is called first may as well be called second. -/
def CanFollow (I : Chain → Prop) (m : Exec α) (m' : Exec β) : Prop :=
  ∀ c a b c₁ c₂ es es', I c → Ends m c a c₁ es → Ends m' c₁ b c₂ es' →
    ∃ c₃, Ends m' c b c₃ es' ∧ Ends m c₃ a c₂ es

/-- Questions can be asked in any order. -/
theorem canFollow_views (I : Chain → Prop) (view : View α) (view' : View β) :
    CanFollow I (liftM view : Exec α) (liftM view' : Exec β) := by
  rintro c a b c₁ c₂ es es' - hFirst hThen
  obtain ⟨ha, rfl, rfl⟩ := ends_view.1 hFirst
  obtain ⟨hb, rfl, rfl⟩ := ends_view.1 hThen
  exact ⟨c, ends_view.2 ⟨hb, rfl, rfl⟩, ends_view.2 ⟨ha, rfl, rfl⟩⟩

theorem Reorders.refl (m : Exec α) (c : Chain) : Reorders m m c := fun _ _ es h => ⟨es, .rfl, h⟩

theorem Reorders.trans {m m' m'' : Exec α} (h : Reorders m m' c) (h' : Reorders m' m'' c) :
    Reorders m m'' c := by
  intro a c' es hEnds
  obtain ⟨es', hPerm, hEnds⟩ := h a c' es hEnds
  obtain ⟨es'', hPerm', hEnds⟩ := h' a c' es' hEnds
  exact ⟨es'', hPerm'.trans hPerm, hEnds⟩

theorem Reorders.bind {m m' : Exec α} {f f' : α → Exec β} [∀ a, Additive (f a)]
    [∀ a, Additive (f' a)] (h : Reorders m m' c)
    (hRest : ∀ a c₁ es, Ends m c a c₁ es → Reorders (f a) (f' a) c₁) :
    Reorders (m >>= f) (m' >>= f') c := by
  intro b c' es hEnds
  obtain ⟨a, c₁, es₁, es₂, hFirst, hThen, rfl⟩ := ends_bind.1 hEnds
  obtain ⟨es₁', hPerm, hFirst'⟩ := h a c₁ es₁ hFirst
  obtain ⟨es₂', hPerm', hThen'⟩ := hRest a c₁ es₁ hFirst b c' es₂ hThen
  exact ⟨es₁' ++ es₂', hPerm.append hPerm', ends_bind.2 ⟨a, c₁, es₁', es₂', hFirst', hThen', rfl⟩⟩

theorem Reorders.bind_right {m : Exec α} {f f' : α → Exec β} [∀ a, Additive (f a)]
    [∀ a, Additive (f' a)] (h : ∀ a c₁ es, Ends m c a c₁ es → Reorders (f a) (f' a) c₁) :
    Reorders (m >>= f) (m >>= f') c :=
  (Reorders.refl m c).bind h

theorem Reorders.map {m m' : Exec α} (h : Reorders m m' c) (f : α → β) :
    Reorders (f <$> m) (f <$> m') c := by
  intro b c' es hEnds
  obtain ⟨a, ha, rfl⟩ := ends_map.1 hEnds
  obtain ⟨es', hPerm, ha'⟩ := h a c' es ha
  exact ⟨es', hPerm, ends_map.2 ⟨a, ha', rfl⟩⟩

/-- Two questions may be asked that have different answers. -/
theorem Reorders.views_bind {view view' : View α} {f f' : α → Exec β}
    (h : ∀ a, view c = .ok a → ∃ a', view' c = .ok a' ∧ Reorders (f a) (f' a') c) :
    Reorders (liftM view >>= f) (liftM view' >>= f') c := by
  intro b c' es hEnds
  obtain ⟨a, ha, hRest⟩ := ends_view_bind.1 hEnds
  obtain ⟨a', ha', hReorders⟩ := h a ha
  obtain ⟨es', hPerm, hRest'⟩ := hReorders b c' es hRest
  exact ⟨es', hPerm, ends_view_bind.2 ⟨a', ha', hRest'⟩⟩

theorem Reorders.view_bind {view : View α} {f f' : α → Exec β}
    (h : ∀ a, view c = .ok a → Reorders (f a) (f' a) c) :
    Reorders (liftM view >>= f) (liftM view >>= f') c :=
  .views_bind fun a ha => ⟨a, ha, h a ha⟩

theorem Reorders.results_bind {r r' : Result α} {f f' : α → Exec β}
    (h : ∀ a, r = .ok a → ∃ a', r' = .ok a' ∧ Reorders (f a) (f' a') c) :
    Reorders (liftM r >>= f) (liftM r' >>= f') c := by
  intro b c' es hEnds
  obtain ⟨a, ha, hRest⟩ := ends_result_bind.1 hEnds
  obtain ⟨a', ha', hReorders⟩ := h a ha
  obtain ⟨es', hPerm, hRest'⟩ := hReorders b c' es hRest
  exact ⟨es', hPerm, ends_result_bind.2 ⟨a', ha', hRest'⟩⟩

theorem Reorders.result_bind {r : Result α} {f f' : α → Exec β}
    (h : ∀ a, r = .ok a → Reorders (f a) (f' a) c) :
    Reorders (liftM r >>= f) (liftM r >>= f') c :=
  .results_bind fun a ha => ⟨a, ha, h a ha⟩

/-- Guarded bodies are reordered with their router locked. -/
theorem Reorders.guarded {f : Router.Frame} {entry : String}
    {body body' : Router.Frame → Router.State → Exec α} [∀ f s, Additive (body f s)]
    [∀ f s, Additive (body' f s)] (h : ∀ s, c.contract? f.self = some (.router s) →
      Reorders (body { f with locked := f.self :: f.locked } s)
        (body' { f with locked := f.self :: f.locked } s) c) :
    Reorders (Router.guarded f entry body) (Router.guarded f entry body') c := by
  intro a c' es hEnds
  obtain ⟨s, hs, hFree, hBody⟩ := Router.ends_guarded.1 hEnds
  obtain ⟨es', hPerm, hBody'⟩ := h s hs a c' es hBody
  exact ⟨es', hPerm, Router.ends_guarded.2 ⟨s, hs, hFree, hBody'⟩⟩

section Fold

variable {as bs : List α} {m : α → Exec β} [∀ a, Additive (m a)] {g : γ → β → Result γ}
  {Apart : α → α → Prop}

/-- Values that are combined one after the other can be combined in any order. -/
theorem reorders_foldlM (hPerm : as.Perm bs)
    (hCombine : ∀ s x y t u, g s x = .ok t → g t y = .ok u →
      ∃ t', g s y = .ok t' ∧ g t' x = .ok u)
    (hKept : ∀ a ∈ as, ∀ c x c' es, I c → Ends (m a) c x c' es → I c')
    (hFollow : ∀ a ∈ as, ∀ b ∈ as, Apart a b → CanFollow I (m a) (m b))
    (hSymm : ∀ a b, Apart a b → Apart b a) (hApart : as.Pairwise Apart) (start : γ) (hStart : I c) :
    Reorders (as.foldlM (fun s a => do g s (← m a)) start : Exec γ)
      (bs.foldlM (fun s a => do g s (← m a)) start) c := by
  induction hPerm generalizing c start with
  | nil => exact .refl _ c
  | @cons a as bs _ ih =>
    simp only [List.foldlM_cons, bind_assoc]
    refine .bind_right fun x c₁ es hEnds => .bind_right fun s c₂ es' hCombined => ?_
    obtain ⟨-, rfl, -⟩ := ends_result.1 hCombined
    exact ih (fun b hb => hKept b (List.mem_cons_of_mem _ hb))
      (fun b hb d hd => hFollow b (List.mem_cons_of_mem _ hb) d (List.mem_cons_of_mem _ hd))
      hApart.of_cons s (hKept a List.mem_cons_self c x c₁ es hStart hEnds)
  | swap a b rest =>
    have hFirst : Apart b a := List.rel_of_pairwise_cons hApart List.mem_cons_self
    intro t c' es hEnds
    simp only [List.foldlM_cons, bind_assoc, ends_bind (m := m _), ends_result_bind] at hEnds ⊢
    obtain ⟨x, c₁, es₁, _, hB, ⟨s₁, hs₁, y, c₂, es₂, es₃, hA, ⟨s₂, hs₂, hRest⟩, rfl⟩, rfl⟩ := hEnds
    obtain ⟨s₁', hs₁', hs₂'⟩ := hCombine _ _ _ _ _ hs₁ hs₂
    obtain ⟨d, hA', hB'⟩ := hFollow b List.mem_cons_self a
      (List.mem_cons_of_mem _ List.mem_cons_self) hFirst c x y c₁ c₂ es₁ es₂ hStart hB hA
    refine ⟨es₂ ++ (es₁ ++ es₃), ?_, y, d, es₂, _, hA', ⟨s₁', hs₁', x, c₂, es₁, es₃, hB',
      ⟨s₂, hs₂', hRest⟩, rfl⟩, rfl⟩
    simp only [← List.append_assoc]
    exact List.perm_append_comm.append_right es₃
  | @trans as bs ds hPerm _ ih ih' =>
    refine (ih hKept hFollow hApart start hStart).trans (ih' ?_ ?_ ?_ start hStart)
    · exact fun a ha => hKept a (hPerm.mem_iff.2 ha)
    · exact fun a ha b hb => hFollow a (hPerm.mem_iff.2 ha) b (hPerm.mem_iff.2 hb)
    · exact hPerm.pairwise hApart (fun {a b} => hSymm a b)

/-- A loop whose rounds answer nothing can be gone through in any order. -/
theorem reorders_forM {m : α → Exec Unit} [∀ a, Additive (m a)] (hPerm : as.Perm bs)
    (hKept : ∀ a ∈ as, ∀ c x c' es, I c → Ends (m a) c x c' es → I c')
    (hFollow : ∀ a ∈ as, ∀ b ∈ as, Apart a b → CanFollow I (m a) (m b))
    (hSymm : ∀ a b, Apart a b → Apart b a) (hApart : as.Pairwise Apart) (hStart : I c) :
    Reorders (as.forM m) (bs.forM m) c := by
  have hLoop : ∀ cs : List α, cs.forM m =
      cs.foldlM (fun _ a => do (pure (← m a) : Result Unit)) () := by
    intro cs
    induction cs with
    | nil => rfl
    | cons a rest ih =>
      rw [List.foldlM_cons, bind_assoc]
      change (m a >>= fun _ => rest.forM m) = m a >>= fun x => pure x >>= fun _ => _
      simp only [pure_bind, ih]
  rw [hLoop, hLoop]
  exact reorders_foldlM hPerm (fun _ _ _ _ _ _ _ => ⟨_, rfl, rfl⟩) hKept hFollow hSymm hApart ()
    hStart

end Fold

end Treasury.Exec
