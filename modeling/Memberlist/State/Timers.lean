import Memberlist.State.Precedence

/-!
# Suspicion timers

`nodeTimers` holds a timer for a name exactly while that name's record is Suspect
(`TimerInv`): `suspectNode` arms the timer in the branch that makes the record Suspect,
`aliveNode` and `deadNode` clear it whenever they take a record out of Suspect, and the
reaping removes only Dead or Left records, which have no timer.  The local record is never
Suspect, since `suspectNode` refutes instead; the invariant needs this because the local
branches of `aliveNode` and `deadNode` clear the timer without changing the state.

A timer is never stopped when its suspicion ends: its callback (`Pending.suspicionTimeout`)
re-reads the record and goes on to `deadNode` only if the record is Suspect with the stamp
the timer was armed with.  With distinct stamps this means the record has been Suspect without
a break since then (`suspectSince_backward`).

* `TimerExact`, `TimerInv` — the invariant; `TimerInv.reachable`.
* `aliveUpdate_target`, `aliveNode_target`, `suspectNode_target`, `deadNode_target` — what a
  handler does to the timer and the record of the name its message is about.
* `Call.suspect_stamp` — a handler that leaves a record Suspect with a stamp other than `now`
  found it so.
-/

namespace memberlist

open Go

/-- The suspicion timer of `k` runs exactly while `k`'s record is Suspect. -/
def TimerExact (m : Memberlist) (k : String) : Prop :=
  (m.nodeTimers.lookup k).isSome ↔
    ∃ p, m.nodeMap.lookup k = some p ∧ (m.heap p).State = StateSuspect

/-- Every timer is exact, and the local record is never Suspect. -/
structure TimerInv (cfg : Config) (m : Memberlist) : Prop where
  exact : ∀ k, TimerExact m k
  local_not_suspect : ∀ p, m.nodeMap.lookup cfg.Name = some p → (m.heap p).State ≠ StateSuspect

section Exact

variable {m m' : Memberlist} {X k : String}

/-- A name the handler did not touch keeps an exact timer. -/
theorem TimerExact.untouched (hu : Untouched X m m') (hk : k ≠ X) (he : TimerExact m k) :
    TimerExact m' k := by
  unfold TimerExact at he ⊢
  rw [hu.timer k hk, hu.lookup k hk, he]
  constructor
  · rintro ⟨p, hp, hs⟩
    exact ⟨p, hp, by rw [hu.heap k p hk hp]; exact hs⟩
  · rintro ⟨p, hp, hs⟩
    exact ⟨p, hp, by rw [← hu.heap k p hk hp]; exact hs⟩

/-- No timer and no Suspect record. -/
theorem TimerExact.cleared (hnone : m.nodeTimers.lookup X = none)
    (hst : ∀ p, m.nodeMap.lookup X = some p → (m.heap p).State ≠ StateSuspect) :
    TimerExact m X := by
  unfold TimerExact
  rw [hnone]
  constructor
  · intro h
    cases h
  · rintro ⟨p, hp, hs⟩
    exact absurd hs (hst p hp)

/-- A timer and a Suspect record. -/
theorem TimerExact.armed {p : Ptr} (ht : (m.nodeTimers.lookup X).isSome)
    (hp : m.nodeMap.lookup X = some p) (hs : (m.heap p).State = StateSuspect) :
    TimerExact m X :=
  ⟨fun _ => ⟨p, hp, hs⟩, fun _ => ht⟩

/-- An exact timer of a name without a Suspect record is not running. -/
theorem TimerExact.none_of_not_suspect (he : TimerExact m X)
    (hst : ∀ p, m.nodeMap.lookup X = some p → (m.heap p).State ≠ StateSuspect) :
    m.nodeTimers.lookup X = none := by
  cases ht : m.nodeTimers.lookup X with
  | none => rfl
  | some t =>
    obtain ⟨p, hp, hs⟩ := he.mp (by rw [ht]; rfl)
    exact absurd hs (hst p hp)

end Exact

section States

theorem alive_ne_suspect : StateAlive ≠ StateSuspect := by decide
theorem dead_ne_suspect : StateDead ≠ StateSuspect := by decide
theorem left_ne_suspect : StateLeft ≠ StateSuspect := by decide

/-- A Dead or Left record is not Suspect. -/
theorem not_suspect_of_deadOrLeft {st : nodeState} (h : st.DeadOrLeft = true) :
    st.State ≠ StateSuspect := by
  intro hs
  simp [nodeState.DeadOrLeft, hs, StateSuspect, StateDead, StateLeft] at h

@[simp] theorem refute_heap_stateChange (m : Memberlist) (p q : Ptr) (i : UInt32) :
    ((m.refute p i).1.heap q).StateChange = (m.heap q).StateChange := by
  by_cases hq : q = p
  · subst hq
    simp
  · simp [Function.update_of_ne hq]

end States

section Targets

variable {cfg : Config} {env : Env} {m m' : Memberlist} {eff : List Effect}

/-- `aliveUpdate` on the record at `p` changes nothing, or clears the timer of `a.Node` and
    then makes the record Alive or (the local node) keeps its state and stamp. -/
theorem aliveUpdate_target {now : Int} {a : alive} {notify : Option Notify} {bootstrap : Bool}
    {p : Ptr} {updatesNode : Bool}
    (h : m.aliveUpdate cfg now a notify bootstrap p updatesNode = .ok (m', eff)) :
    m' = m ∨ (m'.nodeTimers.lookup a.Node = none ∧ m'.nodeMap = m.nodeMap ∧
      ((m'.heap p).State = StateAlive ∨
        ((m.heap p).Node.Name = cfg.Name ∧ (m'.heap p).State = (m.heap p).State ∧
          (m'.heap p).StateChange = (m.heap p).StateChange))) := by
  rcases Memberlist.aliveUpdate_cases h with ⟨rfl, -⟩ |
      ⟨-, -, ⟨-, hloc, ⟨rfl, -⟩ | ⟨rfl, -⟩⟩ | ⟨-, st, hst, rfl, -⟩⟩
  · exact .inl rfl
  · exact .inr ⟨by simp, rfl, .inr ⟨hloc, rfl, rfl⟩⟩
  · exact .inr ⟨by simp, rfl, .inr ⟨hloc, by simp, by simp⟩⟩
  · exact .inr ⟨by simp, rfl, .inl (by simp [(applyAlive_ok hst).2.1])⟩

/-- `aliveUpdate` on the record of `a.Node` changes nothing, or leaves it without a timer and
    not Suspect. -/
theorem aliveUpdate_known (h : Rep m) (hinv : TimerInv cfg m) {now : Int} {a : alive}
    {notify : Option Notify} {bootstrap : Bool} {p : Ptr} {updatesNode : Bool}
    (hp : m.nodeMap.lookup a.Node = some p)
    (hup : m.aliveUpdate cfg now a notify bootstrap p updatesNode = .ok (m', eff)) :
    m' = m ∨ (m'.nodeTimers.lookup a.Node = none ∧
      ∀ q, m'.nodeMap.lookup a.Node = some q → (m'.heap q).State ≠ StateSuspect) := by
  rcases aliveUpdate_target hup with rfl | ⟨ht, hmap, hst⟩
  · exact .inl rfl
  refine .inr ⟨ht, fun q hq => ?_⟩
  rw [hmap, hp] at hq
  cases hq
  rcases hst with hs | ⟨hloc, hs, -⟩
  · rw [hs]
    exact alive_ne_suspect
  · -- the local record keeps its state, which is not Suspect
    have hX : a.Node = cfg.Name := (h.name_eq _ p hp).symm.trans hloc
    rw [hs]
    exact hinv.local_not_suspect p (hX ▸ hp)

/-- After `aliveNode`, nothing changed, or the name of the message has no timer and no Suspect
    record. -/
theorem aliveNode_target (h : Rep m) (hinv : TimerInv cfg m) {a : alive}
    {notify : Option Notify} {bootstrap : Bool}
    (hal : m.aliveNode cfg env a notify bootstrap = .ok (m', eff)) :
    m' = m ∨ (m'.nodeTimers.lookup a.Node = none ∧
      ∀ q, m'.nodeMap.lookup a.Node = some q → (m'.heap q).State ≠ StateSuspect) := by
  rcases Memberlist.aliveNode_cases hal with ⟨rfl, -⟩ |
      ⟨-, ⟨hnone, -, m₁, p, hins, hup⟩ | ⟨p, hp, -, -, hup⟩ | ⟨p, hp, -, -, -, hup⟩⟩
  · exact .inl rfl
  · -- a fresh Dead record; the name had no record, so no timer
    obtain ⟨rfl, offset, -, rfl⟩ := Memberlist.insertNode_eq hins
    have hnt : m.nodeTimers.lookup a.Node = none :=
      (hinv.exact a.Node).none_of_not_suspect fun q hq => by rw [hnone] at hq; cases hq
    have hfresh : ∀ q, m'.nodeMap.lookup a.Node = some q → q = m.nextPtr := by
      intro q hq
      rw [(Memberlist.aliveUpdate_sameShape hup).nodeMap] at hq
      simpa using hq.symm
    refine .inr ?_
    rcases aliveUpdate_target hup with rfl | ⟨ht, -, hst⟩
    · refine ⟨hnt, fun q hq => ?_⟩
      obtain rfl := hfresh q hq
      simpa [newRecord_state] using dead_ne_suspect
    · refine ⟨ht, fun q hq => ?_⟩
      obtain rfl := hfresh q hq
      rcases hst with hs | ⟨-, hs, -⟩
      · rw [hs]
        exact alive_ne_suspect
      · rw [hs]
        simpa [newRecord_state] using dead_ne_suspect
  · exact aliveUpdate_known h hinv hp hup
  · exact aliveUpdate_known h hinv hp hup

end Targets

section Keep

variable {cfg : Config} {env : Env} {m m' : Memberlist} {eff : List Effect} {X : String}

/-- A handler that touched only `X` keeps the invariant when `X`'s timer is exact after it and,
    if `X` is the local node, its record is not Suspect. -/
theorem TimerInv.of_target (hinv : TimerInv cfg m) (hu : Untouched X m m')
    (hX : TimerExact m' X)
    (hloc : X = cfg.Name → ∀ p, m'.nodeMap.lookup X = some p → (m'.heap p).State ≠ StateSuspect) :
    TimerInv cfg m' where
  exact k := by
    by_cases hk : k = X
    · subst hk
      exact hX
    · exact (hinv.exact k).untouched hu hk
  local_not_suspect p hp := by
    by_cases hXl : X = cfg.Name
    · subst hXl
      exact hloc rfl p hp
    · rw [hu.lookup cfg.Name (Ne.symm hXl)] at hp
      rw [hu.heap cfg.Name p (Ne.symm hXl) hp]
      exact hinv.local_not_suspect p hp

/-- A handler that touched only `X` and left it without a timer and a Suspect record. -/
theorem TimerInv.of_cleared (hinv : TimerInv cfg m) (hu : Untouched X m m')
    (ht : m'.nodeTimers.lookup X = none)
    (hst : ∀ p, m'.nodeMap.lookup X = some p → (m'.heap p).State ≠ StateSuspect) :
    TimerInv cfg m' :=
  hinv.of_target hu (.cleared ht hst) fun _ => hst

/-- A change of incarnations only. -/
theorem TimerInv.of_states (hinv : TimerInv cfg m) (hmap : m'.nodeMap = m.nodeMap)
    (ht : m'.nodeTimers = m.nodeTimers) (hst : ∀ q, (m'.heap q).State = (m.heap q).State) :
    TimerInv cfg m' where
  exact k := by
    have he := hinv.exact k
    unfold TimerExact at he ⊢
    rw [hmap, ht, he]
    simp only [hst]
  local_not_suspect p hp := by
    rw [hmap] at hp
    rw [hst]
    exact hinv.local_not_suspect p hp

theorem TimerInv.aliveNode (h : Rep m) (hinv : TimerInv cfg m) {a : alive}
    {notify : Option Notify} {bootstrap : Bool}
    (hal : m.aliveNode cfg env a notify bootstrap = .ok (m', eff)) : TimerInv cfg m' := by
  rcases aliveNode_target h hinv hal with rfl | ⟨ht, hst⟩
  · exact hinv
  · exact hinv.of_cleared (aliveNode_untouched h hal) ht hst

theorem TimerInv.suspectNode (h : Rep m) (hinv : TimerInv cfg m) {now : Int} {s : suspect}
    (hs : m.suspectNode cfg now s = (m', eff)) : TimerInv cfg m' := by
  have hu := suspectNode_untouched h hs
  rcases Memberlist.suspectNode_cases hs with ⟨rfl, -⟩ |
      ⟨p, hp, -, ⟨t, ht, rfl, -⟩ | ⟨-, -, ⟨-, hr⟩ | ⟨hname, k, rfl, -⟩⟩⟩
  · exact hinv
  · -- a running suspicion: the record was already Suspect
    obtain ⟨q, hq, hsus⟩ := (hinv.exact s.Node).mp (by rw [ht]; rfl)
    refine hinv.of_target hu (.armed (by simp) hq hsus) fun hX p' hp' => ?_
    exact hinv.local_not_suspect p' (hX ▸ hp')
  · obtain rfl : m' = (m.refute p s.Incarnation).1 := by rw [← hr]
    exact hinv.of_states rfl rfl fun q => refute_heap_state _ _ _ _
  · -- the record is made Suspect and its timer armed; it is not the local one
    refine hinv.of_target hu (.armed (by simp) hp (by simp)) fun hX => ?_
    exact absurd ((h.name_eq _ p hp).trans hX) hname

theorem TimerInv.deadNode (h : Rep m) (hinv : TimerInv cfg m) {now : Int} {d : dead}
    (hd : m.deadNode cfg now d = (m', eff)) : TimerInv cfg m' := by
  have hu := deadNode_untouched h hd
  rcases Memberlist.deadNode_cases hd with ⟨rfl, -⟩ |
      ⟨p, hp, -, ⟨hdl, rfl, -⟩ | ⟨-, hloc, -, hr⟩ | ⟨-, -, rfl, -⟩⟩
  · exact hinv
  · refine hinv.of_cleared hu (by simp) fun q hq => ?_
    obtain rfl : q = p := Option.some.inj (hq.symm.trans hp)
    exact not_suspect_of_deadOrLeft hdl
  · -- the local record refutes and keeps its state
    obtain rfl :
        m' = ({ m with nodeTimers := m.nodeTimers.erase d.Node }.refute p d.Incarnation).1 := by
      rw [← hr]
    refine hinv.of_cleared hu (by simp) fun q hq => ?_
    obtain rfl : q = p := Option.some.inj (hq.symm.trans hp)
    have hX : d.Node = cfg.Name := (h.name_eq _ q hp).symm.trans hloc
    rw [refute_heap_state]
    exact hinv.local_not_suspect q (hX ▸ hp)
  · refine hinv.of_cleared hu (by simp) fun q hq => ?_
    obtain rfl : q = p := Option.some.inj (hq.symm.trans hp)
    simp only [Memberlist.setRecord_heap_self]
    split
    · exact left_ne_suspect
    · exact dead_ne_suspect

theorem TimerInv.call (h : Rep m) (hinv : TimerInv cfg m) (hc : Call cfg env m m') :
    TimerInv cfg m' := by
  cases hc with
  | alive hal => exact hinv.aliveNode h hal
  | suspect hs => exact hinv.suspectNode h hs
  | dead hd => exact hinv.deadNode h hd

theorem TimerInv.admin (h : Rep m) (hinv : TimerInv cfg m) (ha : Admin cfg m m') :
    TimerInv cfg m' := by
  cases ha
  case reset env =>
    refine ⟨fun k => ?_, fun p hp => ?_⟩
    · rcases h.resetNodes_lookup cfg env k with heq | ⟨q, hq, hr, hnone⟩
      · unfold TimerExact
        rw [Memberlist.resetNodes_nodeTimers, heq, Memberlist.resetNodes_heap]
        exact hinv.exact k
      · -- a reaped record was Dead or Left, so it had no timer
        have hdl : (m.heap q).DeadOrLeft = true := by
          simp only [reapable, Bool.and_eq_true] at hr
          exact hr.1
        refine .cleared ?_ fun p hp => by rw [hnone] at hp; cases hp
        rw [Memberlist.resetNodes_nodeTimers]
        refine (hinv.exact k).none_of_not_suspect fun p hp => ?_
        obtain rfl : p = q := Option.some.inj (hp.symm.trans hq)
        exact not_suspect_of_deadOrLeft hdl
    · have hp' := Admin.lookup_sub h (.reset m env) hp
      rw [Memberlist.resetNodes_heap]
      exact hinv.local_not_suspect p hp'
  all_goals exact ⟨hinv.exact, hinv.local_not_suspect⟩

theorem TimerInv.init (cfg : Config) : TimerInv cfg (Memberlist.init cfg) where
  exact k := .cleared (by simp [Memberlist.init]) fun p hp => by simp [Memberlist.init] at hp
  local_not_suspect p hp := by simp [Memberlist.init] at hp

/-- Every reachable state keeps its timers exact. -/
theorem TimerInv.reachable (h : Reachable cfg m) : TimerInv cfg m :=
  (Rep.reachable_and (TimerInv cfg) (TimerInv.init cfg) (fun _ _ h hinv ha => hinv.admin h ha)
    (fun _ _ _ h hinv hc => hinv.call h hc) h).2

end Keep

/-- `X`'s record is the one at `p`, Suspect with stamp `T`. -/
def SuspectSince (X : String) (p : Ptr) (T : Int) (m : Memberlist) : Prop :=
  m.nodeMap.lookup X = some p ∧ (m.heap p).State = StateSuspect ∧ (m.heap p).StateChange = T

section Stamps

variable {cfg : Config} {env : Env} {m m' : Memberlist} {eff : List Effect} {X : String}
variable {p : Ptr} {T : Int}

/-- A name the handler did not touch keeps its record. -/
theorem SuspectSince.untouched {Y : String} (hu : Untouched Y m m') (hXY : X ≠ Y)
    (hs : SuspectSince X p T m') : SuspectSince X p T m := by
  obtain ⟨hp, hsus, hT⟩ := hs
  rw [hu.lookup X hXY] at hp
  rw [hu.heap X p hXY hp] at hsus hT
  exact ⟨hp, hsus, hT⟩

/-- The record is as it was, or at least its map entry, state and stamp are. -/
theorem SuspectSince.of_same (hs : SuspectSince X p T m')
    (hp : m'.nodeMap.lookup X = some p → m.nodeMap.lookup X = some p)
    (hst : (m'.heap p).State = (m.heap p).State)
    (hT : (m'.heap p).StateChange = (m.heap p).StateChange) : SuspectSince X p T m := by
  obtain ⟨hl, hsus, hc⟩ := hs
  exact ⟨hp hl, hst ▸ hsus, hT ▸ hc⟩

theorem SuspectSince.aliveNode (h : Rep m) {a : alive} {notify : Option Notify}
    {bootstrap : Bool} (hal : m.aliveNode cfg env a notify bootstrap = .ok (m', eff))
    (hs : SuspectSince X p T m') : SuspectSince X p T m := by
  by_cases hXa : X = a.Node
  · subst hXa
    rcases Memberlist.aliveNode_cases hal with ⟨rfl, -⟩ |
        ⟨-, ⟨-, -, m₁, q, hins, hup⟩ | ⟨q, hq, -, -, hup⟩ | ⟨q, hq, -, -, -, hup⟩⟩
    · exact hs
    · -- the fresh record is Dead, or Alive once it took the message
      obtain ⟨rfl, offset, -, rfl⟩ := Memberlist.insertNode_eq hins
      obtain ⟨hl, hsus, -⟩ := hs
      rw [(Memberlist.aliveUpdate_sameShape hup).nodeMap] at hl
      obtain rfl : p = m.nextPtr := by simpa using hl.symm
      exfalso
      rcases aliveUpdate_target hup with rfl | ⟨-, -, hst | ⟨-, hst, -⟩⟩
      · simp [newRecord_state, dead_ne_suspect] at hsus
      · exact alive_ne_suspect (hst ▸ hsus)
      · simp [hst, newRecord_state, dead_ne_suspect] at hsus
    all_goals
      have hmap := (Memberlist.aliveUpdate_sameShape hup).nodeMap
      have hpq : p = q := Option.some.inj ((hmap ▸ hs.1).symm.trans hq)
      subst hpq
      rcases aliveUpdate_target hup with rfl | ⟨-, -, hst | ⟨-, hst, hT⟩⟩
      · exact hs
      · exact absurd (hst ▸ hs.2.1) alive_ne_suspect
      · exact hs.of_same (fun hl => hmap ▸ hl) hst hT
  · exact hs.untouched (aliveNode_untouched h hal) hXa

theorem SuspectSince.suspectNode (h : Rep m) {s : suspect}
    (hsn : m.suspectNode cfg env.now s = (m', eff)) (hT : env.now ≠ T)
    (hs : SuspectSince X p T m') : SuspectSince X p T m := by
  by_cases hXs : X = s.Node
  · subst hXs
    rcases Memberlist.suspectNode_cases hsn with ⟨rfl, -⟩ |
        ⟨q, hq, -, ⟨t, -, rfl, -⟩ | ⟨-, -, ⟨-, hr⟩ | ⟨-, k, rfl, -⟩⟩⟩
    · exact hs
    · exact hs
    · obtain rfl : m' = (m.refute q s.Incarnation).1 := by rw [← hr]
      exact hs.of_same id (refute_heap_state _ _ _ _) (refute_heap_stateChange _ _ _ _)
    · -- a new suspicion is stamped `now`
      obtain ⟨hl, -, hc⟩ := hs
      obtain rfl : p = q := Option.some.inj (hl.symm.trans hq)
      simp only [Memberlist.setRecord_heap_self] at hc
      exact absurd hc hT
  · exact hs.untouched (suspectNode_untouched h hsn) hXs

theorem SuspectSince.deadNode (h : Rep m) {now : Int} {d : dead}
    (hd : m.deadNode cfg now d = (m', eff)) (hs : SuspectSince X p T m') :
    SuspectSince X p T m := by
  by_cases hXd : X = d.Node
  · subst hXd
    rcases Memberlist.deadNode_cases hd with ⟨rfl, -⟩ |
        ⟨q, hq, -, ⟨-, rfl, -⟩ | ⟨-, -, -, hr⟩ | ⟨-, -, rfl, -⟩⟩
    · exact hs
    · exact hs
    · obtain rfl :
          m' = ({ m with nodeTimers := m.nodeTimers.erase d.Node }.refute q d.Incarnation).1 :=
        by rw [← hr]
      exact hs.of_same id (refute_heap_state _ _ _ _) (refute_heap_stateChange _ _ _ _)
    · -- the record is marked Left or Dead
      obtain ⟨hl, hsus, -⟩ := hs
      obtain rfl : p = q := Option.some.inj (hl.symm.trans hq)
      simp only [Memberlist.setRecord_heap_self] at hsus
      split at hsus
      · exact absurd hsus left_ne_suspect
      · exact absurd hsus dead_ne_suspect
  · exact hs.untouched (deadNode_untouched h hd) hXd

/-- **A handler call does not create a suspicion stamped other than `now`.** -/
theorem SuspectSince.call (h : Rep m) (hc : Call cfg env m m') (hT : env.now ≠ T)
    (hs : SuspectSince X p T m') : SuspectSince X p T m := by
  cases hc with
  | alive hal => exact hs.aliveNode h hal
  | suspect hsn => exact hs.suspectNode h hsn hT
  | dead hd => exact hs.deadNode h hd

theorem SuspectSince.admins (h : Rep m) (ha : Relation.ReflTransGen (Admin cfg) m m')
    (hs : SuspectSince X p T m') : SuspectSince X p T m := by
  obtain ⟨hl, hsus, hc⟩ := hs
  rw [admins_heap ha] at hsus hc
  exact ⟨admins_lookup_sub h ha hl, hsus, hc⟩

/-- One step taken at a time other than `T` does not create a suspicion stamped `T`. -/
theorem SuspectSince.step (h : Rep m) {op : Op} (hstep : m.step cfg env op = .ok (m', eff))
    (hT : env.now ≠ T) (hs : SuspectSince X p T m') : SuspectSince X p T m := by
  obtain ⟨m₁, m₂, h₁, hc, h₂⟩ := Memberlist.step_shape hstep
  have hm₁ := h.admins h₁
  have hs₂ : SuspectSince X p T m₂ := by
    rcases hc with rfl | hc
    · exact hs.admins hm₁ h₂
    · exact hs.admins (hm₁.call hc) h₂
  rcases hc with rfl | hc
  · exact hs₂.admins h h₁
  · exact (hs₂.call hm₁ hc hT).admins h h₁

end Stamps

section Runs

variable {cfg : Config} {m m' m'' : Memberlist} {X : String} {p : Ptr} {T : Int}

/-- Along a run whose steps all take place at times other than `T`, a suspicion stamped `T`
    at its end was there at every state before. -/
theorem suspectSince_backward {run : List (Env × Op × List Effect)} (hreach : Reachable cfg m)
    (hrun : Run cfg m run m') (hT : ∀ l ∈ run, l.1.now ≠ T) (hs : SuspectSince X p T m') :
    SuspectSince X p T m := by
  have hP : ∀ s l s', l.1.now ≠ T → Memberlist.Step cfg s l s' →
      (Reachable cfg s' → SuspectSince X p T s') → Reachable cfg s → SuspectSince X p T s := by
    intro s l s' hl hstep hs' hr
    exact (hs' (Transition.Reach.step hr hstep)).step (Rep.reachable hr) hstep hl
  exact Transition.Steps.backward hP hT hrun (fun _ => hs) hreach

/-- The callback of a suspicion timer goes on to `deadNode` only for the record of its name,
    Suspect with the stamp the timer was armed with. -/
theorem fire_suspicionTimeout {env : Env} {i : Nat} {eff : List Effect} {d : dead}
    (hi : m.pending[i]? = some (.suspicionTimeout X T))
    (hfire : m.step cfg env (.fire i) = .ok (m', eff))
    (hd : m'.pending = m.pending.eraseIdx i ++ [.markDead d]) :
    ∃ p, SuspectSince X p T m ∧ d.Node = (m.heap p).Node.Name := by
  simp only [Memberlist.step, hi, Memberlist.runPending] at hfire
  split at hfire
  · -- no record: nothing is queued
    cases hfire
    simp at hd
  rename_i p hp
  split at hfire
  · rename_i hsus
    simp only [Except.ok.injEq, Prod.mk.injEq] at hfire
    obtain ⟨rfl, -⟩ := hfire
    simp only [List.append_cancel_left_eq, List.cons.injEq, Pending.markDead.injEq,
      and_true] at hd
    exact ⟨p, ⟨hp, hsus.1, hsus.2⟩, by rw [← hd]⟩
  · cases hfire
    simp at hd

/-- **Suspicion timers track Suspect records.**  In a reachable state a name has a suspicion
    timer exactly when its record is Suspect.  And the callback of a timer armed at `T` goes on
    to `deadNode` only about its own name, and only if the name's record has been Suspect since
    `T` without a break: at every state of any run before the callback whose steps take place
    at times other than `T`. -/
theorem suspicion_timers_track_suspects {run : List (Env × Op × List Effect)} {env : Env}
    {i : Nat} {eff : List Effect} {d : dead} (hreach : Reachable cfg m) :
    (∀ k, k ∈ m.nodeTimers ↔
      ∃ p, m.nodeMap.lookup k = some p ∧ (m.heap p).State = StateSuspect) ∧
    (Run cfg m run m' → (∀ l ∈ run, l.1.now ≠ T) →
      m'.pending[i]? = some (.suspicionTimeout X T) →
      m'.step cfg env (.fire i) = .ok (m'', eff) →
      m''.pending = m'.pending.eraseIdx i ++ [.markDead d] →
      d.Node = X ∧ ∃ p, ∀ r₁ r₂ s, run = r₁ ++ r₂ → Run cfg m r₁ s → Run cfg s r₂ m' →
        SuspectSince X p T s) := by
  refine ⟨fun k => ?_, fun hrun hT hi hfire hd => ?_⟩
  · rw [← AList.lookup_isSome]
    exact (TimerInv.reachable hreach).exact k
  obtain ⟨p, hs, hname⟩ := fire_suspicionTimeout hi hfire hd
  have hreach' : Reachable cfg m' := Transition.Reach.steps hreach hrun
  refine ⟨hname.trans ((Rep.reachable hreach').name_eq X p hs.1), p, ?_⟩
  intro r₁ r₂ s hsplit hr₁ hr₂
  -- the steps after `s` are steps of the run, all at times other than `T`
  have hT₂ : ∀ l ∈ r₂, l.1.now ≠ T := fun l hl => hT l (hsplit ▸ List.mem_append_right r₁ hl)
  exact suspectSince_backward (Transition.Reach.steps hreach hr₁) hr₂ hT₂ hs

/-- `b` is suspected at time 1, an alive message about `c` is handled at time 3, and the timer
    fires at time 5: `b` has been suspect since time 1 both before and after the message. -/
theorem suspicion_timers_track_suspects_fire :
    let cfg := DefaultLANConfig "a"
    let a : alive := ⟨1, "b", [10, 0, 0, 2], 7946, [], []⟩
    let c : alive := ⟨1, "c", [10, 0, 0, 3], 7946, [], []⟩
    ∃ r₁ r₂ r₃ r₄, (Memberlist.init cfg).step cfg (Env.at 0) (.alive a) = .ok r₁ ∧
      r₁.1.step cfg (Env.at 1) (.suspect ⟨1, "b", "a"⟩) = .ok r₂ ∧
      r₂.1.step cfg (Env.at 3) (.alive c) = .ok r₃ ∧
      r₃.1.step cfg (Env.at 5) (.fire 0) = .ok r₄ ∧
      ∃ p, SuspectSince "b" p 1 r₂.1 ∧ SuspectSince "b" p 1 r₃.1 := by
  intro cfg a c
  have h₀ : Reachable cfg (Memberlist.init cfg) := .base rfl
  have h₁ := Reachable.of_step (Env.at 0) (.alive a) h₀ rfl
  have h₂ := Reachable.of_step (Env.at 1) (.suspect ⟨1, "b", "a"⟩) h₁ rfl
  refine ⟨_, _, _, _, rfl, rfl, rfl, rfl, ?_⟩
  -- the run between the suspicion and the firing is the one message, at time 3
  obtain ⟨-, p, hp⟩ := (@suspicion_timers_track_suspects cfg _ _ _ "b" 1
    [(Env.at 3, .alive c, _)] (Env.at 5) 0 _ ⟨1, "b", "a"⟩ h₂).2
    (Run.cons_of_step rfl (Transition.Steps.nil _))
    (fun l hl => by rw [List.mem_singleton.mp hl]; decide) rfl rfl rfl
  exact ⟨p, hp [] _ _ rfl (Transition.Steps.nil _) (Run.cons_of_step rfl (Transition.Steps.nil _)),
    hp _ [] _ rfl (Run.cons_of_step rfl (Transition.Steps.nil _)) (Transition.Steps.nil _)⟩

end Runs

end memberlist
