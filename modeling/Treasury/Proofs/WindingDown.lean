import Treasury.Proofs.CountedPools
import Treasury.Proofs.CustodyValue
import Treasury.Proofs.Fails

/-! Winding a pool down. When a router has its custody contract give up a pool, all value is less by
what is left of the pool, which is nothing or dust; what else is done about pools leaves value and
the list of counted pools alone. -/
namespace Treasury

open Exec Chain

/-- A custody contract reports these pools to count as value. -/
def Chain.Reports (c : Chain) (k : Address) (pools : List Address) : Prop :=
  ∀ user, c.ask user k .supportedPools = .ok (.listOf .address pools)

/-- Whether a call to a router changes the adapters, the targets or the life of pools, other than by
having a pool counted or given up. -/
def Router.Command.tendsPools : Router.Command → Bool
  | registerAdapter .. | removePool _ | updatePoolTarget .. | replacePoolTargets _
  | setPoolStatus .. => true
  | _ => false

namespace Custody

variable {c c' : Chain} {k p : Address} {q q' : Custody} {v total : Amount}

theorem reports (hq : c.contract? k = some (.custody q)) : c.Reports k q.supported.toList := by
  intro user
  rw [Chain.ask, Query.ask, Query.field, View.bind_apply, View.callee_eq_ok.2 hq]
  rfl

theorem isSupported_eq_true :
    isSupported k p c = .ok true ↔ (c.keeping k).supports p = true := by
  constructor
  · intro h
    obtain ⟨q, hq, -⟩ := View.bind_eq_ok.1 h
    rw [View.callee_eq_ok] at hq
    rw [isSupported_eq hq] at h
    rw [keeping_of hq]
    exact Except.ok.inj h
  · intro h
    rw [keeping] at h
    cases hx : c.contract? k with
    | none =>
      rw [hx] at h
      cases h
    | some x =>
      rw [hx] at h
      cases x with
      | custody q =>
        rw [isSupported_eq hx]
        exact congrArg Except.ok h
      | _ => cases h

/-- Dust is below the limit, and below its part of all value. -/
theorem isDust_spec (hTotal : totalValue k c = .ok total) (h : isDust q k v c = .ok true) :
    v < q.dustLimit ∧ v * weightScale < total * q.dustPart := by
  rw [isDust] at h
  split at h
  · cases h
  · next hBelow =>
    rw [View.bind_of_ok hTotal] at h
    simp only [View.bind_eq_ok, View.lift_apply, View.pure_apply, Amount.mul_eq_ok,
      Except.ok.injEq, decide_eq_true_eq] at h
    obtain ⟨_, ⟨-, rfl⟩, _, ⟨-, rfl⟩, hPart⟩ := h
    exact ⟨Nat.lt_of_not_le hBelow, hPart⟩

theorem Negligible.spec (h : q.Negligible k p c) (hTotal : totalValue k c = .ok total)
    (hHeld : held q k p c = .ok v) :
    v = 0 ∨ v < q.dustLimit ∧ v * weightScale < total * q.dustPart := by
  obtain ⟨residual, hResidual, hLittle⟩ := h
  obtain rfl : v = residual := Except.ok.inj (hHeld.symm.trans hResidual)
  exact hLittle.imp_right (isDust_spec hTotal)

end Custody

/-- A custody contract counts the same pools by the same adapters, and nothing changes but what
routers and custody contracts keep. -/
structure Chain.ValuesAlike (k : Address) (c c' : Chain) : Prop where
  backdrop : c.SameBy Contract.backdrop c'
  supported : (c'.keeping k).supported = (c.keeping k).supported
  adapters : ∀ p, (c.keeping k).supports p = true →
    (c'.keeping k).adapter? p = (c.keeping k).adapter? p

namespace Chain.ValuesAlike

variable {c c' : Chain} {k user a pool adapter : Address} {q : Custody} {b : Bond}

theorem exists_custody (h : c.ValuesAlike k c') (hq : c.contract? k = some (.custody q)) :
    ∃ q', c'.contract? k = some (.custody q') ∧ q'.supported = q.supported ∧
      ∀ p, q.supports p = true → q'.adapter? p = q.adapter? p := by
  have hAt := h.backdrop k
  rw [hq] at hAt
  obtain ⟨x, hx, hSame⟩ := Option.map_eq_some_iff.1 hAt
  cases x with
  | custody q' =>
    have hSupported := h.supported
    have hAdapters := h.adapters
    rw [keeping_of hq, keeping_of hx] at hSupported hAdapters
    exact ⟨q', hx, hSupported, hAdapters⟩
  | _ => cases hSame

theorem totalValue (h : c.ValuesAlike k c') (hq : c.contract? k = some (.custody q))
    (hSound : q.supported.Sound) : Custody.totalValue k c' = Custody.totalValue k c := by
  obtain ⟨q', hq', hSupported, hAdapters⟩ := h.exists_custody hq
  exact Custody.totalValue_backdrop h.backdrop hq hq' hSupported fun p hp =>
    hAdapters p (hSound.mem_toList.1 hp)

theorem ask (h : c.ValuesAlike k c') (hq : c.contract? k = some (.custody q)) (user : Address) :
    c'.ask user k .supportedPools = c.ask user k .supportedPools := by
  obtain ⟨q', hq', hSupported, -⟩ := h.exists_custody hq
  rw [Custody.reports hq user, Custody.reports hq' user, hSupported]

/-- A router is changed. -/
theorem put_router {s s' : Router.State} (hRouter : c.contract? a = some (.router s)) :
    c.ValuesAlike k (c.put a (.router s')) := by
  have hSame : (c.put a (.router s')).keeping k = c.keeping k := keeping_put hRouter (by rfl) k
  exact ⟨map_put hRouter (by rfl), by rw [hSame], fun p _ => by rw [hSame]⟩

theorem trans {c₁ : Chain} (h : c.ValuesAlike k c₁) (h' : c₁.ValuesAlike k c') :
    c.ValuesAlike k c' where
  backdrop a := (h'.backdrop a).trans (h.backdrop a)
  supported := h'.supported.trans h.supported
  adapters p hp := by
    refine (h'.adapters p ?_).trans (h.adapters p hp)
    rw [Custody.supports, h.supported]
    exact hp

/-- An adapter is bound to a pool that is not counted. -/
theorem bind {q : Custody} (hq : c.contract? a = some (.custody q))
    (hIdle : a = k → q.supports pool ≠ true) :
    c.ValuesAlike k
      (c.put a (.custody { q with adapters := q.adapters.write pool (some adapter) })) := by
  refine ⟨map_put hq (by rfl), ?_, fun p hp => ?_⟩
  · exact SameBy.supported (map_put hq (by rfl)) k
  · by_cases hk : a = k
    · subst hk
      rw [keeping_of hq] at hp ⊢
      rw [keeping_of (contract?_put_self _ hq), Custody.adapter?, Table.read_write_of_ne]
      · rfl
      · rintro rfl
        exact hIdle rfl hp
    · rw [keeping, contract?_put_of_ne _ _ (Ne.symm hk), keeping]

/-- Adapters are bound to pools that had none, and so are not counted. -/
theorem of_binds (hAgrees : b.Agrees c) (h : Router.Binds user pool adapter c c') :
    c.ValuesAlike b.custody c' := by
  induction h with
  | @bound a k s s' q hRouter hKeeper hCustody hKnown hFree =>
    refine trans (bind hCustody fun hk => ?_)
      (put_router (contract?_put_other (Router.custody_ne_router hCustody hRouter) hRouter))
    subst hk
    rw [Bond.Agrees, keeping_of hCustody] at hAgrees
    exact hAgrees.idle hFree
  | relayed _ _ _ _ hStays _ _ ih => exact ih.trans (put_router hStays)

end Chain.ValuesAlike

/-- What else is done about pools leaves value and the counted pools as they are. -/
theorem Router.after_run_tends {b : Bond} {f : Frame} {w : World} {back : Callback}
    {command : Command} (hBack : CallsBack f.caller back) (hAgrees : b.Agrees w.chain)
    (hTends : command.tendsPools = true) :
    After (run back f command) w fun _ v => w.chain.ValuesAlike b.custody v.chain := by
  have hOrders (hOrder : command.isOrder = true) :
      After (run back f command) w fun _ v => w.chain.ValuesAlike b.custody v.chain := by
    refine (after_run_orders hOrder).mono fun _ v h => ?_
    obtain ⟨s, s', hRouter, hv⟩ := h.alone
    exact hv ▸ .put_router hRouter
  cases command with
  | registerAdapter =>
    exact After.answered ((after_registerAdapter hBack (acts_user _ _)).mono fun _ _ h =>
      .of_binds hAgrees h)
  | removePool | updatePoolTarget | replacePoolTargets | setPoolStatus => exact hOrders rfl
  | _ => cases hTends

theorem Router.discards_of_submit {user a pool : Address} {c : Chain} {out : Outcome}
    (hCall : c.submit user a (.router (.removeAdapter pool)) = .ok out) :
    Router.Discards user a pool c out.chain := by
  refine of_submit (Q := fun _ v => Router.Discards user a pool c v.chain) ?_ hCall
  exact After.answered (after_removeAdapter (f := ⟨a, user, []⟩))

/-- A router gives up no registered pool but a suspended one without a target. -/
theorem Router.Discards.wound {user a pool : Address} {c c' : Chain} {s : State}
    (h : Router.Discards user a pool c c') (hs : c.contract? a = some (.router s)) :
    ∀ config, s.registry.get? pool = some config →
      config.status = .suspended ∧ config.target = 0 := by
  obtain @⟨s', k, _, _, _, hRouter, -, hWound, -⟩ := h
  obtain rfl : s = s' := storage_unique hs hRouter
  exact hWound

/-- A counted pool that is given up takes what is left of it out of value. That is nothing or dust,
and all other counted pools stay. -/
theorem Router.Discards.value {user a k pool : Address} {c c' : Chain} {q : Custody}
    {total : Amount} (h : Router.Discards user a pool c c')
    (hKeeper : ∀ s, c.contract? a = some (.router s) → s.custody = some k)
    (hq : c.contract? k = some (.custody q)) (hSound : q.supported.Sound)
    (hSupports : q.supports pool = true) (hTotal : Custody.totalValue k c = .ok total) :
    ∃ v q', Custody.poolValue k pool c = .ok v ∧ v ≤ total ∧
      Custody.totalValue k c' = .ok (total - v) ∧
      (v = 0 ∨ v < q.dustLimit ∧ v * weightScale < total * q.dustPart) ∧
      c'.contract? k = some (.custody q') ∧
      q.supported.toList.Perm (pool :: q'.supported.toList) ∧
      ∀ x ∈ q'.supported.toList, q'.adapter? x = q.adapter? x := by
  obtain @⟨s, k', q₀, q₁, q', hRouter, -, -, hCustodyOf, hCustody, hUncounts, hUnbind⟩ := h
  obtain rfl : k = k' := Option.some.inj ((hKeeper s hRouter).symm.trans hCustodyOf)
  obtain rfl : q = q₀ := storage_unique hq hCustody
  obtain ⟨-, -, rfl⟩ := Custody.unbind_spec hUnbind
  cases hUncounts with
  | idle hIdle => simp [hSupports] at hIdle
  | @removed supported _ _ hRest hRemove =>
    obtain ⟨i, hAt⟩ := List.mem_iff_getElem?.1 (hSound.mem_toList.2 hSupports)
    have hGone := hSound.toList_swapRemove hAt hRemove
    have hPerm : q.supported.toList.Perm (pool :: supported.toList) := hGone ▸ perm_closeGap hAt
    have hNotIn : pool ∉ supported.toList :=
      (List.nodup_cons.1 (hPerm.nodup_iff.1 hSound.nodup_toList)).1
    let left : Custody := { q with supported, adapters := q.adapters.write pool none }
    have hLeft : (c.put k (.custody left)).contract? k = some (.custody left) :=
      contract?_put_self _ hCustody
    have hAdapters : ∀ x ∈ left.supported.toList, left.adapter? x = q.adapter? x := by
      intro x hx
      apply Table.read_write_of_ne
      rintro rfl
      exact hNotIn hx
    obtain ⟨v, hHeld, hLe, hLess⟩ := Custody.totalValue_closeGap (map_put hCustody (by rfl))
      hCustody hLeft hAt hGone hAdapters hTotal
    exact ⟨v, left, View.bind_eq_ok.2 ⟨q, View.callee_eq_ok.2 hq, hHeld⟩, hLe, hLess,
      hRest.spec hTotal hHeld, hLeft, hPerm, hAdapters⟩

namespace Bond

variable {b : Bond} {c c' : Chain} {s : Router.State} {q : Custody} {user pool : Address}

/-- Whatever an account does, a counted pool stays counted, unless the router is told to give it up,
which it does for pools that are suspended and have no target. -/
theorem counted_or_discarded (hRun : Run Address.IsAccount b.Kept c)
    (hs : c.contract? b.router = some (.router s))
    (hq : c.contract? b.custody = some (.custody q)) (hUser : user.IsAccount)
    (hLeads : c.Leads user c') (hp : q.supports pool = true) :
    (c'.keeping b.custody).supports pool = true ∨
      ∃ out config, c.submit user b.router (.router (.removeAdapter pool)) = .ok out ∧
        c' = out.chain ∧ s.registry.get? pool = some config ∧ config.status = .suspended ∧
        config.target = 0 := by
  have hAgree := agree hRun (fun _ => id) hs hq
  have hKept := hRun.kept
  have hOther : ∀ q, c.contract? b.custody = some (.custody q) → q.router ≠ some user := by
    intro q hq hKnown
    exact hRun.ne_of_stands hUser (by simp [kind?_of_contract? hs]) (hKept.obeyed hq hKnown)
  have hStill : c.StillCounts b.custody c' → (c'.keeping b.custody).supports pool = true :=
    fun h => h pool ((keeping_of hq).symm ▸ hp)
  rcases hLeads.calls_or_gains with ⟨target, command, out, hCall, rfl⟩ | ⟨a, x, hGains⟩ | rfl
  · by_cases hGivesUp : ∃ given, command = .router (.removeAdapter given)
    · obtain ⟨given, rfl⟩ := hGivesUp
      have hDiscards := Router.discards_of_submit hCall
      refine (hDiscards.stillCounts_or hq hAgree.supported hp).imp_right fun hGone => ?_
      obtain ⟨rfl, hKnown⟩ := hGone
      obtain rfl := hKept.obeyed hq hKnown
      obtain ⟨config, hGet, -⟩ := hAgree.counted pool hp
      exact ⟨out, config, hCall, rfl, hGet, hDiscards.wound hs config hGet⟩
    · refine .inl (hStill (of_submit (Command.after_run_stillCounts
        (Router.callsBack_nested user c.contracts.length) hKept.constructed.2 hOther
        fun given h => hGivesUp ⟨given, h⟩) hCall))
  · exact .inl (hStill (.gains hGains hq))
  · exact .inl (hStill fun _ => id)

/-- Winding a pool down loses only dust. A counted pool that a router gives up takes out of value
what is left of it, which is nothing or dust, and all others stay; all else that is done about pools
leaves value and the counted pools alone; and nothing but giving up a suspended pool without a
target has a pool counted no longer. -/
theorem winding_down_loses_dust {total : Amount} (hRun : Run Address.IsAccount b.Kept c)
    (hs : c.contract? b.router = some (.router s))
    (hq : c.contract? b.custody = some (.custody q))
    (hTotal : Custody.totalValue b.custody c = .ok total) :
    (∀ user pool out, c.submit (.account user) b.router (.router (.removeAdapter pool)) = .ok out →
      Custody.isSupported b.custody pool c = .ok true →
      ∃ v before after, Custody.poolValue b.custody pool c = .ok v ∧ v ≤ total ∧
        Custody.totalValue b.custody out.chain = .ok (total - v) ∧
        (v = 0 ∨ v < q.dustLimit ∧ v * weightScale < total * q.dustPart) ∧
        c.Reports b.custody before ∧ out.chain.Reports b.custody after ∧
        before.Nodup ∧ before.Perm (pool :: after) ∧
        ∀ x ∈ after, Custody.boundAdapter b.custody x out.chain =
          Custody.boundAdapter b.custody x c) ∧
    (∀ user router command out, command.tendsPools = true →
      c.submit (.account user) router (.router command) = .ok out →
      Custody.totalValue b.custody out.chain = .ok total ∧
        ∀ asker, out.chain.ask asker b.custody .supportedPools =
          c.ask asker b.custody .supportedPools) ∧
    ∀ user c' pool, c.Leads (.account user) c' →
      Custody.isSupported b.custody pool c = .ok true →
      Custody.isSupported b.custody pool c' = .ok true ∨
        ∃ out config,
          c.submit (.account user) b.router (.router (.removeAdapter pool)) = .ok out ∧
          c' = out.chain ∧ s.registry.get? pool = some config ∧ config.status = .suspended ∧
          config.target = 0 := by
  have hAgree := agree hRun (fun _ => id) hs hq
  have hAgrees : b.Agrees c := by rwa [Agrees, routing_of hs, keeping_of hq]
  have hSupports : ∀ {pool}, Custody.isSupported b.custody pool c = .ok true →
      q.supports pool = true := by
    intro pool h
    rwa [Custody.isSupported_eq_true, keeping_of hq] at h
  refine ⟨fun user pool out hCall hIn => ?_, fun user router command out hTends hCall => ?_,
    fun user c' pool hLeads hIn => ?_⟩
  · have hKeeper : ∀ s, c.contract? b.router = some (.router s) → s.custody = some b.custody := by
      intro s hs
      obtain ⟨_, ⟨⟩, hCustody⟩ := hRun.kept.router _ hs
      exact hCustody
    obtain ⟨v, q', hValue, hLe, hLess, hDust, hq', hPerm, hSame⟩ :=
      (Router.discards_of_submit hCall).value hKeeper hq hAgree.supported (hSupports hIn) hTotal
    refine ⟨v, _, _, hValue, hLe, hLess, hDust, Custody.reports hq, Custody.reports hq',
      hAgree.supported.nodup_toList, hPerm, fun x hx => ?_⟩
    rw [Custody.boundAdapter_eq hq, Custody.boundAdapter_eq hq', hSame x hx]
  · have hAlike : c.ValuesAlike b.custody out.chain := by
      refine of_submit (Q := fun _ v => c.ValuesAlike b.custody v.chain) ?_ hCall
      exact Router.after_run_tends (f := ⟨router, .account user, []⟩)
        (Router.callsBack_nested _ c.contracts.length) hAgrees hTends
    exact ⟨(hAlike.totalValue hq hAgree.supported).trans hTotal, hAlike.ask hq⟩
  · refine (counted_or_discarded hRun hs hq ⟨user, rfl⟩ hLeads (hSupports hIn)).imp_left ?_
    exact Custody.isSupported_eq_true.2

/-- A treasury holds 9 in a pool that is suspended and 100000 in another one. Giving the first up
takes 9 out of value, and leaves the other pool. -/
theorem winding_down_loses_dust_of_two : ∃ c out s q,
    Run Address.IsAccount Standard.places.bond.Kept c ∧
      c.contract? Standard.router = some (.router s) ∧
      c.contract? Standard.custody = some (.custody q) ∧
      Custody.totalValue Standard.custody c = .ok 100_009 ∧
      Custody.isSupported Standard.custody Standard.pool c = .ok true ∧
      c.submit (.account 0) Standard.router (.router (.removeAdapter Standard.pool)) = .ok out ∧
      Custody.poolValue Standard.custody Standard.pool c = .ok 9 ∧
      Custody.totalValue Standard.custody out.chain = .ok 100_000 ∧
      ∃ before after, c.Reports Standard.custody before ∧
        out.chain.Reports Standard.custody after ∧ before.Perm (Standard.pool :: after) := by
  have hEnd : (Standard.places.follow {} (Standard.paired { admin := .account 0 } rateScale 9
      100_000 ++ [.call 0 Standard.router
        (.router (.setPoolStatus Standard.pool .suspended))])).any (fun c =>
      Standard.places.completes c && (c.submit (.account 0) Standard.router
        (.router (.removeAdapter Standard.pool))).toOption.any fun _ =>
          (Custody.totalValue Standard.custody c).toOption == some 100_009 &&
            ((Custody.poolValue Standard.custody Standard.pool c).toOption == some 9 &&
              (Custody.isSupported Standard.custody Standard.pool c).toOption == some true)) =
      true := by
    decide +kernel
  obtain ⟨c, out, hRun, hComplete, hCall, hHolds⟩ := Wiring.exists_submit hEnd
  simp only [Bool.and_eq_true, beq_iff_eq] at hHolds
  obtain ⟨s, hs, -⟩ := hComplete.router
  obtain ⟨q, hq, -⟩ := hComplete.custody
  have hBonded : Run Address.IsAccount Standard.places.bond.Kept c :=
    hRun.run.mono (fun _ => id) fun _ => Wiring.Kept.bond
  have hTotal := Result.of_toOption hHolds.1
  have hSupported := Result.of_toOption hHolds.2.2
  obtain ⟨hGivenUp, -, -⟩ := winding_down_loses_dust hBonded hs hq hTotal
  obtain ⟨v, before, after, hValue, -, hLess, -, hBefore, hAfter, -, hPerm, -⟩ :=
    hGivenUp 0 Standard.pool out hCall hSupported
  obtain rfl : 9 = v := Except.ok.inj ((Result.of_toOption hHolds.2.1).symm.trans hValue)
  exact ⟨c, out, s, q, hBonded, hs, hq, hTotal, hSupported, hCall, hValue, hLess, before, after,
    hBefore, hAfter, hPerm⟩

end Bond

end Treasury
