import Treasury.Proofs.Fails
import Treasury.Proofs.RegistryList

/-! A registry that stands by itself, seen from outside. Whoever calls it in whatever order, it
answers as an ordered list of configs would that went through the same calls. -/
namespace Treasury

open Exec Chain

namespace Pool.Registry

/-- The entry of a pool in a list of configs, with its position. -/
def listed? (l : List Config) (p : Address) : Option (Config × Nat) :=
  l.zipIdx.find? fun entry => entry.1.pool = p

/-- What a call makes of a list of configs, and what it answers. -/
def Command.onList (l : List Config) : Command → Result (Answer × List Config)
  | push config =>
    if config.pool ∈ l.map Config.pool then refuse .poolAlreadyExists
    else .ok (.unit, l ++ [config])
  | update config =>
    match listed? l config.pool with
    | some (_, i) => .ok (.unit, l.set i config)
    | none => refuse .poolNotFound
  | swapRemove pool =>
    match listed? l pool with
    | some (removed, i) => .ok (.config removed, closeGap l i)
    | none => refuse .poolNotFound

/-- A list of configs after a call, which leaves it as it is if it is refused. -/
def Command.after (l : List Config) (command : Command) : List Config :=
  match command.onList l with
  | .ok (_, l') => l'
  | .error _ => l

variable {l : List Config} {config : Config} {p : Address} {i : Nat}

theorem listed?_eq_some (h : listed? l p = some (config, i)) :
    l[i]? = some config ∧ config.pool = p := by
  have hPool := List.find?_some h
  have hMem := List.mem_of_find?_eq_some h
  exact ⟨List.mem_zipIdx_iff_getElem?.1 hMem, by simpa using hPool⟩

theorem listed?_eq_none : listed? l p = none ↔ p ∉ l.map Config.pool := by
  simp only [listed?, List.find?_eq_none, List.mem_map, decide_eq_true_eq]
  constructor
  · rintro h ⟨config, hMem, hPool⟩
    obtain ⟨i, hi⟩ := List.mem_iff_getElem?.1 hMem
    exact h (config, i) (List.mem_zipIdx_iff_getElem?.2 hi) hPool
  · rintro h ⟨config, i⟩ hMem hPool
    exact h ⟨config, List.mem_of_getElem? (List.mem_zipIdx_iff_getElem?.1 hMem), hPool⟩

end Pool.Registry

open Pool (Registry Config)

/-- The registry at an address answers every question as a list of configs, in which no pool occurs
twice, says. -/
structure Chain.ListsPools (c : Chain) (a : Address) (l : List Config) : Prop where
  distinct : (l.map Config.pool).Nodup
  size : ∀ user, c.ask user a .registrySize = .ok (.count l.length)
  empty : ∀ user, c.ask user a .registryIsEmpty = .ok (.flag (l = []))
  all : ∀ user, c.ask user a .registryAll = .ok (.listOf .config l)
  at_place : ∀ user i config, l[i]? = some config →
    c.ask user a (.registryAt i) = .ok (.config config)
  past_end : ∀ user i, l.length ≤ i → c.ask user a (.registryAt i) = refuse .indexOutOfRange
  contains : ∀ user p, c.ask user a (.registryContains p) = .ok (.flag (p ∈ l.map Config.pool))
  found : ∀ user i config, l[i]? = some config →
    c.ask user a (.registryIndex config.pool) = .ok (.count i) ∧
    c.ask user a (.registryGet config.pool) = .ok (.config config) ∧
    c.ask user a (.registryRequire config.pool) = .ok (.config config)
  missing : ∀ user p, p ∉ l.map Config.pool →
    c.ask user a (.registryIndex p) = .ok .absent ∧
    c.ask user a (.registryGet p) = .ok .absent ∧
    c.ask user a (.registryRequire p) = refuse .poolNotFound

section Questions

variable {c : Chain} {a : Address} {r : Registry} {l : List Config}

theorem Query.registryField_eq (hr : c.contract? a = some (.registry r)) (entry : String)
    (read : Registry → Answer) : Query.registryField entry a read c = .ok (read r) :=
  View.bind_eq_ok.2 ⟨r, View.callee_eq_ok.2 hr, rfl⟩

theorem Query.registryConfig_eq (hr : c.contract? a = some (.registry r)) (entry : String)
    (read : Registry → Result Config) :
    ((do let r : Registry ← View.callee entry a
         Answer.config <$> read r) : View Answer) c = Answer.config <$> read r := by
  rw [View.bind_apply, View.callee_eq_ok.2 hr]
  rfl

theorem Chain.listsPools (hr : c.contract? a = some (.registry r)) (h : r.Lists l) :
    c.ListsPools a l where
  distinct := h.distinct
  size user := by
    rw [← h.size_eq]
    exact Query.registryField_eq hr _ _
  empty user := by
    have hEmpty : decide (l = []) = decide (r.size = 0) := by
      rw [h.size_eq, decide_eq_decide, List.length_eq_zero_iff]
    rw [hEmpty]
    exact Query.registryField_eq hr _ _
  all user := by
    rw [← h.toList_eq]
    exact Query.registryField_eq hr _ _
  at_place user i config hi := by
    refine (Query.registryConfig_eq hr "at" fun r => r.at? i).trans ?_
    rw [h.at?_eq hi]
    rfl
  past_end user i hi := by
    refine (Query.registryConfig_eq hr "at" fun r => r.at? i).trans ?_
    rw [h.at?_eq_error hi]
    rfl
  contains user p := by
    have hIn : decide (p ∈ l.map Config.pool) = r.contains p := by
      rw [Bool.eq_iff_iff, decide_eq_true_iff, h.contains_iff]
    rw [hIn]
    exact Query.registryField_eq hr _ _
  found user i config hi := by
    have hGet := h.get?_of_mem (List.mem_of_getElem? hi)
    refine ⟨(Query.registryField_eq hr _ _).trans ?_, (Query.registryField_eq hr _ _).trans ?_,
      (Query.registryConfig_eq hr "require" fun r => r.require config.pool).trans ?_⟩
    · rw [h.index?_eq hi]
      rfl
    · rw [hGet]
      rfl
    · rw [Pool.Registry.require_eq_ok.2 hGet]
      rfl
  missing user p hp := by
    refine ⟨(Query.registryField_eq hr _ _).trans ?_, (Query.registryField_eq hr _ _).trans ?_,
      (Query.registryConfig_eq hr "require" fun r => r.require p).trans ?_⟩
    · rw [h.index?_eq_none hp]
      rfl
    · rw [h.get?_eq_none hp]
      rfl
    · rw [h.require_eq_error hp]
      rfl

end Questions

namespace Pool.Registry

variable {c : Chain} {a caller : Address} {r r' : Registry} {l l' : List Config}
  {command : Command} {answer : Answer} {e : Fault}

/-- What a call makes of a registry, and what it answers. -/
def Command.on (r : Registry) : Command → Result (Answer × Registry)
  | push config => do pure (.unit, ← r.push config)
  | update config => do pure (.unit, ← r.update config)
  | swapRemove pool => do
    let (removed, r') ← r.swapRemove pool
    pure (.config removed, r')

/-- A call to a registry changes nothing but the registry. -/
theorem submit_of_on (hr : c.contract? a = some (.registry r))
    (h : command.on r = .ok (answer, r')) :
    ∃ out, c.submit caller a (.registry command) = .ok out ∧ out.answer = answer ∧
      out.chain = c.put a (.registry r') := by
  suffices hEnds : Ends (command.run a caller) c answer (c.put a (.registry r')) [] by
    have hCall : ∃ marks, c.submit caller a (.registry command) = .ok ⟨_, _, _, marks⟩ :=
      submit_of_ends hEnds
    exact ⟨_, hCall.choose_spec, rfl, rfl⟩
  cases command with
  | push config | update config =>
    obtain ⟨_, hChange, ⟨⟩⟩ := Result.bind_eq_ok.1 h
    refine ends_bind.2 ⟨(), _, [], [], ?_, ends_pure.2 ⟨rfl, rfl, rfl⟩, rfl⟩
    exact ends_amend.2 ⟨r, r', hr, hChange, rfl, rfl⟩
  | swapRemove pool =>
    obtain ⟨⟨removed, _⟩, hRemove, ⟨⟩⟩ := Result.bind_eq_ok.1 h
    simp only [Command.run, ends_entering, ends_view_bind, ends_result_bind, ends_put_bind,
      ends_pure, View.callee_eq_ok]
    exact ⟨r, hr, _, hRemove, rfl, rfl, trivial⟩

/-- A call to a registry is refused if the change is. -/
theorem submit_of_on_error (hr : c.contract? a = some (.registry r))
    (h : command.on r = .error e) : c.submit caller a (.registry command) = .error e := by
  have hCallee : (View.callee "swap_remove" a : View Registry) c = .ok r := View.callee_eq_ok.2 hr
  suffices hFails : Fails (command.run a caller) c e from submit_eq_error.2 hFails
  cases command with
  | push config | update config =>
    refine fails_bind.2 (.inl ((fails_amend hr).2 ?_))
    rcases Result.bind_eq_error.1 h with hChange | ⟨_, _, ⟨⟩⟩
    exact hChange
  | swapRemove pool =>
    simp only [Command.run, fails_entering, fails_view_bind, fails_result_bind]
    rcases Result.bind_eq_error.1 h with hRemove | ⟨_, _, ⟨⟩⟩
    exact .inr ⟨r, hCallee, .inl hRemove⟩

/-- A call does to a registry what it does to the list of the registry. -/
theorem Lists.on_ok (h : r.Lists l) (hList : command.onList l = .ok (answer, l')) :
    ∃ r', command.on r = .ok (answer, r') ∧ r'.Lists l' := by
  cases command with
  | push config =>
    simp only [Command.onList] at hList
    split at hList
    · cases hList
    · next hNew =>
      cases hList
      obtain ⟨r', hPush, hLists⟩ := h.push hNew
      exact ⟨r', Result.bind_eq_ok.2 ⟨r', hPush, rfl⟩, hLists⟩
  | update config =>
    simp only [Command.onList] at hList
    split at hList
    · next old i hListed =>
      cases hList
      obtain ⟨hi, hPool⟩ := listed?_eq_some hListed
      obtain ⟨r', hUpdate, hLists⟩ := h.update hi hPool.symm
      exact ⟨r', Result.bind_eq_ok.2 ⟨r', hUpdate, rfl⟩, hLists⟩
    · cases hList
  | swapRemove pool =>
    simp only [Command.onList] at hList
    split at hList
    · next removed i hListed =>
      cases hList
      obtain ⟨hi, rfl⟩ := listed?_eq_some hListed
      obtain ⟨r', hRemove, hLists⟩ := h.swapRemove hi
      exact ⟨r', Result.bind_eq_ok.2 ⟨_, hRemove, rfl⟩, hLists⟩
    · cases hList

/-- A call is refused by a registry as it is by the list of the registry. -/
theorem Lists.on_error (h : r.Lists l) (hList : command.onList l = .error e) :
    command.on r = .error e := by
  cases command with
  | push config =>
    simp only [Command.onList] at hList
    split at hList
    · next hOld =>
      cases hList
      exact Result.bind_eq_error.2 (.inl (h.push_eq_error hOld))
    · cases hList
  | update config =>
    simp only [Command.onList] at hList
    split at hList
    · cases hList
    · next hListed =>
      cases hList
      exact Result.bind_eq_error.2 (.inl (h.update_eq_error (listed?_eq_none.1 hListed)))
  | swapRemove pool =>
    simp only [Command.onList] at hList
    split at hList
    · cases hList
    · next hListed =>
      cases hList
      exact Result.bind_eq_error.2 (.inl (h.swapRemove_eq_error (listed?_eq_none.1 hListed)))

end Pool.Registry

namespace Chain

/-- The chain after a number of calls to the registry at an address. -/
def afterCalls (c : Chain) (a : Address) (calls : List (Address × Registry.Command)) : Chain :=
  calls.foldl (fun c call => c.after call.1 a (.registry call.2)) c

variable {c : Chain} {a : Address} {r : Registry} {l : List Config}

/-- One call, made to a registry and to its list. -/
theorem lists_after (hr : c.contract? a = some (.registry r)) (h : r.Lists l) (caller : Address)
    (command : Registry.Command) :
    ∃ r', (c.after caller a (.registry command)).contract? a = some (.registry r') ∧
      r'.Lists (command.after l) := by
  unfold Registry.Command.after
  cases hList : command.onList l with
  | error e =>
    rw [after_of_error (Registry.submit_of_on_error hr (h.on_error hList))]
    exact ⟨r, hr, h⟩
  | ok result =>
    obtain ⟨answer, l'⟩ := result
    obtain ⟨r', hOn, hLists⟩ := h.on_ok hList
    obtain ⟨out, hCall, -, hChain⟩ := Registry.submit_of_on hr hOn
    rw [after_of_ok hCall, hChain]
    exact ⟨r', contract?_put_self _ hr, hLists⟩

/-- Any number of calls, made to a registry and to its list. -/
theorem lists_afterCalls (hr : c.contract? a = some (.registry r)) (h : r.Lists l)
    (calls : List (Address × Registry.Command)) :
    ∃ r', (c.afterCalls a calls).contract? a = some (.registry r') ∧
      r'.Lists ((calls.map Prod.snd).foldl Registry.Command.after l) := by
  induction calls generalizing c r l with
  | nil => exact ⟨r, hr, h⟩
  | cons call rest ih =>
    obtain ⟨r', hr', hLists⟩ := lists_after hr h call.1 call.2
    exact ih hr' hLists

/-- A registry that was never written to is an ordered list of configs, one for each pool, after
whatever calls of whomever. It answers every question as that list does, and whatever call comes
next does to it what it does to the list, or is refused where the list refuses it. -/
theorem registry_refines_list (hBlank : c.contract? a = some (.registry {}))
    (calls : List (Address × Registry.Command)) :
    ∃ l, l = (calls.map Prod.snd).foldl Registry.Command.after [] ∧
      (c.afterCalls a calls).ListsPools a l ∧
      ∀ caller command,
        (∀ answer l', Registry.Command.onList l command = .ok (answer, l') →
          ∃ out, (c.afterCalls a calls).submit caller a (.registry command) = .ok out ∧
            out.answer = answer ∧ out.chain.ListsPools a l') ∧
        ∀ e, Registry.Command.onList l command = .error e →
          (c.afterCalls a calls).submit caller a (.registry command) = .error e := by
  obtain ⟨r, hr, hLists⟩ := lists_afterCalls hBlank Registry.lists_empty calls
  refine ⟨_, rfl, listsPools hr hLists, fun caller command => ⟨fun answer l' hList => ?_,
    fun e hList => Registry.submit_of_on_error hr (hLists.on_error hList)⟩⟩
  obtain ⟨r', hOn, hLists'⟩ := hLists.on_ok hList
  obtain ⟨out, hCall, hAnswer, hChain⟩ := Registry.submit_of_on hr hOn
  exact ⟨out, hCall, hAnswer, listsPools (hChain ▸ contract?_put_self _ hr) hLists'⟩

/-- The first of three pools is taken out of a registry and comes back, and the second one cannot
come twice. The third one fills the gap. -/
theorem registry_refines_list_refilled :
    ∃ (c c' : Chain) (a : Address) (first second third : Config),
      ({} : Chain).place .registry = .ok c ∧ c.contract? a = some (.registry {}) ∧
      c' = c.afterCalls a ([.push first, .push second, .push third, .swapRemove first.pool,
        .push first, .push second].map (Address.account 0, ·)) ∧
      c'.ListsPools a [third, second, first] ∧
      ∃ out, c'.submit a a (.registry (.swapRemove second.pool)) = .ok out ∧
        out.answer = .config second ∧ out.chain.ListsPools a [third, first] := by
  let first : Config := ⟨.account 1, .account 1, 1, .active⟩
  let second : Config := ⟨.account 2, .account 2, 2, .active⟩
  let third : Config := ⟨.account 3, .account 3, 3, .suspended⟩
  have hBlank : ({ contracts := [(.ofNumber 1, .registry {})], numbered := 1 } : Chain).contract?
      (.ofNumber 1) = some (.registry {}) := List.lookup_cons_self
  obtain ⟨l, hl, hLists, hNext⟩ := registry_refines_list hBlank
    ([.push first, .push second, .push third, .swapRemove first.pool, .push first,
      .push second].map (Address.account 0, ·))
  obtain rfl : l = [third, second, first] := hl.trans (by decide +kernel)
  obtain ⟨out, hCall, hAnswer, hLists'⟩ := (hNext (.ofNumber 1) (.swapRemove second.pool)).1
    (.config second) [third, first] rfl
  exact ⟨_, _, .ofNumber 1, first, second, third, rfl, hBlank, rfl, hLists, out, hCall, hAnswer,
    hLists'⟩

end Chain

end Treasury
