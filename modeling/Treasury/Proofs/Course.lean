import Treasury.Proofs.Run

/-! Courses: runs of which each step is admitted. What has to hold of every step, and not only of
the chains in between, is said of the chain before a step and the chain after it. -/
namespace Treasury

/-- The chains that can be reached from the empty one by users who may use it, in steps that are
admitted. -/
inductive Course (May : Address → Prop) (Admits : Address → Chain → Chain → Prop) :
    Chain → Prop where
  | start : Course May Admits {}
  | step {c c' : Chain} {user : Address} (hCourse : Course May Admits c) (hMay : May user)
      (hLeads : c.Leads user c') (hAdmits : Admits user c c') : Course May Admits c'

/-- A course is a run. -/
theorem Course.run {May : Address → Prop} {Admits : Address → Chain → Chain → Prop} {c : Chain}
    (h : Course May Admits c) : Run May (fun _ => True) c := by
  induction h with
  | start => exact .start trivial
  | step _ hMay hLeads _ ih => exact .step ih hMay hLeads trivial

theorem Course.mono {May May' : Address → Prop} {Admits : Address → Chain → Chain → Prop}
    {c : Chain} (h : Course May Admits c) (hMay : ∀ user, May user → May' user) : Course May' Admits c := by
  induction h with
  | start => exact .start
  | step _ hUser hLeads hAdmits ih => exact .step ih (hMay _ hUser) hLeads hAdmits

namespace Action

variable {Admits : Address → Chain → Chain → Prop} {guard : Chain → Chain → Bool} {c c' : Chain}
  {actions : List Action}

/-- Take actions one after the other, as long as each is let through. -/
def follow (guard : Chain → Chain → Bool) (c : Chain) : List Action → Option Chain
  | [] => some c
  | action :: rest =>
    match action.run c with
    | .ok next => if guard c next then follow guard next rest else none
    | .error _ => none

/-- What is let through only if it is admitted leads along a course. -/
theorem course_of_follow (hGuard : ∀ user c c', guard c c' = true → Admits user c c')
    (hCourse : Course Address.IsAccount Admits c) (h : follow guard c actions = some c') :
    Course Address.IsAccount Admits c' := by
  induction actions generalizing c with
  | nil =>
    cases h
    exact hCourse
  | cons action rest ih =>
    simp only [follow] at h
    split at h
    · next next hAction =>
      split at h
      · next hPasses =>
        obtain ⟨d, hLeads⟩ := Action.leads hAction
        exact ih (.step hCourse ⟨d, rfl⟩ hLeads (hGuard _ _ _ hPasses)) h
      · cases h
    · cases h

/-- What is found out about a chain at the end of a list of actions holds at the end of a course. -/
theorem exists_course {P : Chain → Bool}
    (hGuard : ∀ user c c', guard c c' = true → Admits user c c')
    (h : (follow guard {} actions).any P = true) :
    ∃ c, Course Address.IsAccount Admits c ∧ P c = true := by
  obtain ⟨c, hFollow, hHolds⟩ := (Option.any_eq_true _ _).1 h
  exact ⟨c, course_of_follow hGuard .start hFollow, hHolds⟩

end Action

end Treasury
