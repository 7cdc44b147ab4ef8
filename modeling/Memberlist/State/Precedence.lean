import Memberlist.State.Local

/-!
# SWIM precedence for remote members

What a step may do to the record of a member `X` other than the local node is one of the moves
of `Precedence`: an alive message with a newer incarnation makes it Alive at the same address;
a suspicion at an incarnation at least as new suspects an Alive member; a dead message at an
incarnation at least as new marks an Alive or Suspect member Left (when it comes from `X`
itself) or Dead; and the reclaim path lets an alive message move a Left member, or one Dead
for longer than `DeadNodeReclaimTime`, to a new address at any incarnation.

* `ValidState` — every record's state is one of the four constants; `deadNode` tells Alive and
  Suspect apart from Dead and Left only through `DeadOrLeft`, so the dead move needs it.
* `aliveNode_precedence`, `suspectNode_precedence`, `deadNode_precedence` — one handler call.
* `step_precedence` — one step, from a reachable state: bookkeeping leaves records alone, and a
  record that the bookkeeping reaped is no longer reachable by any handler.
* `Precedence.incarnation_le`, `Precedence.revive`, `Precedence.addr_change` — what follows.
-/

namespace memberlist

open Go

/-- One of the four states a record can be in. -/
def NodeStateType.Valid (s : NodeStateType) : Prop :=
  s = StateAlive ∨ s = StateSuspect ∨ s = StateDead ∨ s = StateLeft

/-- Every record of `nodeMap` is in one of the four states. -/
def ValidState (m : Memberlist) : Prop :=
  ∀ k p, m.nodeMap.lookup k = some p → (m.heap p).State.Valid

/-- The records `aliveNode` may move to a new address: Left, or Dead for longer than a positive
    `DeadNodeReclaimTime`. -/
def Reclaimable (cfg : Config) (now : Int) (st : nodeState) : Prop :=
  st.State = StateLeft ∨
    (st.State = StateDead ∧ 0 < cfg.DeadNodeReclaimTime ∧ now - st.StateChange > cfg.DeadNodeReclaimTime)

/-- The moves SWIM precedence allows to the record of `X`, at time `now`. -/
inductive Precedence (cfg : Config) (now : Int) (X : String) (old new : nodeState) : Prop
  | unchanged : new = old → Precedence cfg now X old new
  | alive (a : alive) : a.Node = X → old.Incarnation < a.Incarnation →
      new.State = StateAlive → new.Incarnation = a.Incarnation →
      new.Node.Addr = old.Node.Addr → new.Node.Port = old.Node.Port → Precedence cfg now X old new
  | suspect (s : suspect) : s.Node = X → old.Incarnation ≤ s.Incarnation →
      old.State = StateAlive → new.State = StateSuspect → new.Incarnation = s.Incarnation →
      new.Node = old.Node → Precedence cfg now X old new
  | dead (d : dead) : d.Node = X → old.Incarnation ≤ d.Incarnation →
      (old.State = StateAlive ∨ old.State = StateSuspect) →
      new.State = (if d.Node = d.From then StateLeft else StateDead) →
      new.Incarnation = d.Incarnation → new.Node = old.Node → Precedence cfg now X old new
  | reclaim (a : alive) : a.Node = X → (old.Node.Addr ≠ a.Addr ∨ old.Node.Port ≠ a.Port) →
      Reclaimable cfg now old → new.State = StateAlive → new.Incarnation = a.Incarnation →
      new.Node.Addr = a.Addr → new.Node.Port = a.Port → Precedence cfg now X old new

/-- `new` is `old` at another address or port. -/
def Moved (old new : nodeState) : Prop :=
  new.Node.Addr ≠ old.Node.Addr ∨ new.Node.Port ≠ old.Node.Port

/-- A reclaim moves the record to the message's address, which differs from the old one. -/
theorem Moved.of_reclaim {old new : nodeState} {a : alive}
    (hmov : old.Node.Addr ≠ a.Addr ∨ old.Node.Port ≠ a.Port) (ha : new.Node.Addr = a.Addr)
    (hpo : new.Node.Port = a.Port) : Moved old new := by
  rw [Moved, ha, hpo]
  exact hmov.imp Ne.symm Ne.symm

section States

@[simp] theorem valid_alive : StateAlive.Valid := .inl rfl
@[simp] theorem valid_suspect : StateSuspect.Valid := .inr (.inl rfl)
@[simp] theorem valid_dead : StateDead.Valid := .inr (.inr (.inl rfl))
@[simp] theorem valid_left : StateLeft.Valid := .inr (.inr (.inr rfl))

/-- A valid record that is neither Dead nor Left is Alive or Suspect. -/
theorem alive_or_suspect_of_valid {st : nodeState} (hv : st.State.Valid)
    (hdl : st.DeadOrLeft = false) : st.State = StateAlive ∨ st.State = StateSuspect := by
  rcases hv with h | h | h | h
  · exact .inl h
  · exact .inr h
  · simp [nodeState.DeadOrLeft, h] at hdl
  · simp [nodeState.DeadOrLeft, h] at hdl

@[simp] theorem refute_heap_state (m : Memberlist) (p q : Ptr) (i : UInt32) :
    ((m.refute p i).1.heap q).State = (m.heap q).State := by
  by_cases hq : q = p
  · subst hq
    simp
  · simp [Function.update_of_ne hq]

end States

section Bookkeeping

variable {cfg : Config} {m m' : Memberlist}

theorem Admin.heap_eq (ha : Admin cfg m m') : m'.heap = m.heap := by
  cases ha <;> rfl

theorem Admin.nextPtr_eq (ha : Admin cfg m m') : m'.nextPtr = m.nextPtr := by
  cases ha <;> rfl

/-- Bookkeeping adds no entry to `nodeMap`. -/
theorem Admin.lookup_sub (h : Rep m) (ha : Admin cfg m m') {k : String} {q : Ptr}
    (hk : m'.nodeMap.lookup k = some q) : m.nodeMap.lookup k = some q := by
  cases ha
  case reset env =>
    rcases h.resetNodes_lookup cfg env k with heq | ⟨-, -, -, hnone⟩
    · rwa [heq] at hk
    · rw [hnone] at hk
      cases hk
  all_goals exact hk

theorem admins_heap (ha : Relation.ReflTransGen (Admin cfg) m m') : m'.heap = m.heap := by
  induction ha with
  | refl => rfl
  | tail _ hs ih => rw [hs.heap_eq, ih]

theorem admins_nextPtr (ha : Relation.ReflTransGen (Admin cfg) m m') : m'.nextPtr = m.nextPtr := by
  induction ha with
  | refl => rfl
  | tail _ hs ih => rw [hs.nextPtr_eq, ih]

theorem admins_lookup_sub (h : Rep m) (ha : Relation.ReflTransGen (Admin cfg) m m') {k : String}
    {q : Ptr} (hk : m'.nodeMap.lookup k = some q) : m.nodeMap.lookup k = some q := by
  induction ha with
  | refl => exact hk
  | tail hab hs ih => exact ih (hs.lookup_sub (h.admins hab) hk)

end Bookkeeping

section Valid

variable {cfg : Config} {env : Env} {m m' : Memberlist} {eff : List Effect}

/-- A state with the same map whose records each keep their state or take a valid one. -/
theorem ValidState.of_states (hv : ValidState m) (hmap : m'.nodeMap = m.nodeMap)
    (hst : ∀ q, (m'.heap q).State = (m.heap q).State ∨ (m'.heap q).State.Valid) :
    ValidState m' := by
  intro k q hk
  rw [hmap] at hk
  rcases hst q with heq | hvalid
  · rw [heq]
    exact hv k q hk
  · exact hvalid

theorem ValidState.admin (h : Rep m) (hv : ValidState m) (ha : Admin cfg m m') :
    ValidState m' := by
  intro k q hk
  rw [ha.heap_eq]
  exact hv k q (ha.lookup_sub h hk)

theorem ValidState.insertNode (h : Rep m) (hv : ValidState m) {name : String} {st : nodeState}
    {r : UInt32} {p : Ptr} (hins : m.insertNode name st r = .ok (m', p)) (hst : st.State.Valid) :
    ValidState m' := by
  obtain ⟨rfl, offset, -, rfl⟩ := Memberlist.insertNode_eq hins
  intro k q hk
  by_cases hkn : k = name
  · subst hkn
    simp only [AList.lookup_insert, Option.some.injEq] at hk
    subst hk
    simpa using hst
  · simp only [AList.lookup_insert_ne hkn] at hk
    -- an old record is not the fresh one
    have hq : q ≠ m.nextPtr := Nat.ne_of_lt (h.lt_nextPtr q (h.mem_nodes k q hk))
    simpa [Function.update_of_ne hq] using hv k q hk

theorem ValidState.aliveUpdate (hv : ValidState m) {now : Int} {a : alive}
    {notify : Option Notify} {bootstrap : Bool} {p : Ptr} {updatesNode : Bool}
    (hup : m.aliveUpdate cfg now a notify bootstrap p updatesNode = .ok (m', eff)) :
    ValidState m' := by
  refine hv.of_states (Memberlist.aliveUpdate_sameShape hup).nodeMap fun q => ?_
  by_cases hq : q = p
  · subst hq
    rcases Memberlist.aliveUpdate_state hup with hs | hs
    · exact .inl hs
    · exact .inr (hs ▸ valid_alive)
  · exact .inl (by rw [(Memberlist.aliveUpdate_frame hup).1 q hq])

/-- `suspectNode` leaves every record in its state or makes it Suspect. -/
theorem suspectNode_state {now : Int} {s : suspect} (h : m.suspectNode cfg now s = (m', eff))
    (q : Ptr) : (m'.heap q).State = (m.heap q).State ∨ (m'.heap q).State = StateSuspect := by
  rcases Memberlist.suspectNode_cases h with ⟨rfl, -⟩ |
      ⟨p, -, -, ⟨t, -, rfl, -⟩ | ⟨-, -, ⟨-, hr⟩ | ⟨-, k, rfl, -⟩⟩⟩
  · exact .inl rfl
  · exact .inl rfl
  · rw [show m' = (m.refute p s.Incarnation).1 by rw [← hr]]
    exact .inl (refute_heap_state _ _ _ _)
  · by_cases hq : q = p
    · subst hq
      exact .inr (by simp)
    · exact .inl (by simp [hq])

/-- `deadNode` leaves every record in its state or makes it Left or Dead. -/
theorem deadNode_state {now : Int} {d : dead} (h : m.deadNode cfg now d = (m', eff)) (q : Ptr) :
    (m'.heap q).State = (m.heap q).State ∨ (m'.heap q).State.Valid := by
  rcases Memberlist.deadNode_cases h with ⟨rfl, -⟩ |
      ⟨p, -, -, ⟨-, rfl, -⟩ | ⟨-, -, -, hr⟩ | ⟨-, -, rfl, -⟩⟩
  · exact .inl rfl
  · exact .inl rfl
  · rw [show m' = ({ m with nodeTimers := m.nodeTimers.erase d.Node }.refute p d.Incarnation).1
      by rw [← hr]]
    exact .inl (refute_heap_state _ _ _ _)
  · by_cases hq : q = p
    · subst hq
      refine .inr ?_
      simp only [Memberlist.setRecord_heap_self]
      split <;> simp
    · exact .inl (by simp [hq])

theorem ValidState.call (h : Rep m) (hv : ValidState m) (hc : Call cfg env m m') :
    ValidState m' := by
  cases hc with
  | alive hal =>
    rcases Memberlist.aliveNode_cases hal with ⟨rfl, -⟩ |
        ⟨-, ⟨-, -, m₁, p, hins, hup⟩ | ⟨p, -, -, -, hup⟩ | ⟨p, -, -, -, -, hup⟩⟩
    · exact hv
    · -- the new record is Dead until `aliveUpdate` takes the message
      have hv₁ := hv.insertNode h hins (by rw [newRecord_state]; exact valid_dead)
      exact hv₁.aliveUpdate hup
    · exact hv.aliveUpdate hup
    · exact hv.aliveUpdate hup
  | suspect hs =>
    refine hv.of_states (Memberlist.suspectNode_sameShape hs).nodeMap fun q => ?_
    rcases suspectNode_state hs q with hq | hq
    · exact .inl hq
    · exact .inr (by rw [hq]; exact valid_suspect)
  | dead hd => exact hv.of_states (Memberlist.deadNode_sameShape hd).nodeMap (deadNode_state hd)

theorem ValidState.init (cfg : Config) : ValidState (Memberlist.init cfg) := by
  intro k p hk
  simp [Memberlist.init] at hk

/-- Every reachable state is `ValidState`. -/
theorem ValidState.reachable (h : Reachable cfg m) : ValidState m :=
  (Rep.reachable_and ValidState (ValidState.init cfg) (fun _ _ h hv ha => hv.admin h ha)
    (fun _ _ _ h hv hc => hv.call h hc) h).2

end Valid

section Handlers

variable {cfg : Config} {env : Env} {m m' : Memberlist} {eff : List Effect}
variable {X : String} {p : Ptr}

/-- `aliveUpdate` on a remote record leaves it alone or takes the message, which outside the
    reclaim path had to be newer. -/
theorem aliveUpdate_remote {now : Int} {a : alive} {notify : Option Notify} {bootstrap : Bool}
    {updatesNode : Bool} (hname : (m.heap p).Node.Name ≠ cfg.Name)
    (h : m.aliveUpdate cfg now a notify bootstrap p updatesNode = .ok (m', eff)) :
    m'.heap p = m.heap p ∨
      ((updatesNode = false → (m.heap p).Incarnation < a.Incarnation) ∧
        ∃ st, applyAlive (m.heap p) a now = .ok st ∧ m'.heap p = st) := by
  rcases Memberlist.aliveUpdate_cases h with ⟨rfl, -⟩ |
      ⟨hnew, -, ⟨-, hloc, -⟩ | ⟨-, st, hst, rfl, -⟩⟩
  · exact .inl rfl
  · exact absurd hloc hname
  · refine .inr ⟨fun hu => ?_, st, hst, by simp⟩
    by_contra hle
    exact hnew ⟨UInt32.not_lt.mp hle, hname, by simp [hu]⟩

section Remote

variable (h : Rep m) (hX : X ≠ cfg.Name) (hp : m.nodeMap.lookup X = some p)
include h hX hp

theorem aliveNode_precedence {a : alive} {notify : Option Notify} {bootstrap : Bool}
    (hal : m.aliveNode cfg env a notify bootstrap = .ok (m', eff)) :
    Precedence cfg env.now X (m.heap p) (m'.heap p) := by
  have hname : (m.heap p).Node.Name ≠ cfg.Name := by rw [h.name_eq X p hp]; exact hX
  by_cases haX : a.Node = X
  · subst haX
    rcases Memberlist.aliveNode_cases hal with ⟨rfl, -⟩ |
        ⟨-, ⟨hnone, -⟩ | ⟨q, hq, haddr, hport, hup⟩ | ⟨q, hq, hmov, -, hre, hup⟩⟩
    · exact .unchanged rfl
    · rw [hp] at hnone
      cases hnone
    · -- the same address: only a newer incarnation is taken
      obtain rfl : q = p := Option.some.inj (hq.symm.trans hp)
      rcases aliveUpdate_remote hname hup with heq | ⟨hlt, st, hst, heq⟩
      · exact .unchanged heq
      · obtain ⟨-, hs, hi, ha, hpo, -⟩ := applyAlive_ok hst
        rw [heq]
        exact .alive a rfl (hlt rfl) hs hi (ha.trans haddr.symm) (hpo.trans hport.symm)
    · -- a new address, which only a reclaimable record takes
      obtain rfl : q = p := Option.some.inj (hq.symm.trans hp)
      rcases aliveUpdate_remote hname hup with heq | ⟨-, st, hst, heq⟩
      · exact .unchanged heq
      · obtain ⟨-, hs, hi, ha, hpo, -⟩ := applyAlive_ok hst
        rw [heq]
        exact .reclaim a rfl hmov hre hs hi ha hpo
  · exact .unchanged ((aliveNode_untouched h hal).heap X p (Ne.symm haX) hp)

theorem suspectNode_precedence {now : Int} {s : suspect}
    (hs : m.suspectNode cfg now s = (m', eff)) :
    Precedence cfg now X (m.heap p) (m'.heap p) := by
  have hname : (m.heap p).Node.Name ≠ cfg.Name := by rw [h.name_eq X p hp]; exact hX
  by_cases hsX : s.Node = X
  · subst hsX
    rcases Memberlist.suspectNode_cases hs with ⟨rfl, -⟩ |
        ⟨q, hq, hinc, ⟨t, -, rfl, -⟩ | ⟨-, halive, ⟨hloc, -⟩ | ⟨-, k, rfl, -⟩⟩⟩
    · exact .unchanged rfl
    · exact .unchanged rfl
    · obtain rfl : q = p := Option.some.inj (hq.symm.trans hp)
      exact absurd hloc hname
    · obtain rfl : q = p := Option.some.inj (hq.symm.trans hp)
      exact .suspect s rfl (UInt32.not_lt.mp hinc) halive (by simp) (by simp) (by simp)
  · exact .unchanged ((suspectNode_untouched h hs).heap X p (Ne.symm hsX) hp)

theorem deadNode_precedence (hv : ValidState m) {now : Int} {d : dead}
    (hd : m.deadNode cfg now d = (m', eff)) :
    Precedence cfg now X (m.heap p) (m'.heap p) := by
  have hname : (m.heap p).Node.Name ≠ cfg.Name := by rw [h.name_eq X p hp]; exact hX
  by_cases hdX : d.Node = X
  · subst hdX
    rcases Memberlist.deadNode_cases hd with ⟨rfl, -⟩ |
        ⟨q, hq, hinc, ⟨-, rfl, -⟩ | ⟨-, hloc, -, -⟩ | ⟨hdl, -, rfl, -⟩⟩
    · exact .unchanged rfl
    · exact .unchanged rfl
    · obtain rfl : q = p := Option.some.inj (hq.symm.trans hp)
      exact absurd hloc hname
    · obtain rfl : q = p := Option.some.inj (hq.symm.trans hp)
      -- neither Dead nor Left, so Alive or Suspect
      have hstate := alive_or_suspect_of_valid (hv _ q hp) hdl
      exact .dead d rfl (UInt32.not_lt.mp hinc) hstate (by simp) (by simp) (by simp)
  · exact .unchanged ((deadNode_untouched h hd).heap X p (Ne.symm hdX) hp)

theorem Call.precedence (hv : ValidState m) (hc : Call cfg env m m') :
    Precedence cfg env.now X (m.heap p) (m'.heap p) := by
  cases hc with
  | alive hal => exact aliveNode_precedence h hX hp hal
  | suspect hs => exact suspectNode_precedence h hX hp hs
  | dead hd => exact deadNode_precedence h hX hp hv hd

end Remote

/-- A handler writes no record that `nodeMap` does not hold, but the fresh one. -/
theorem Call.heap_unmapped (hc : Call cfg env m m') {q : Ptr}
    (hq : ∀ k, m.nodeMap.lookup k ≠ some q) (hfresh : q ≠ m.nextPtr) : m'.heap q = m.heap q := by
  cases hc with
  | alive hal =>
    rcases Memberlist.aliveNode_cases hal with ⟨rfl, -⟩ |
        ⟨-, ⟨-, -, m₁, p, hins, hup⟩ | ⟨p, hp, -, -, hup⟩ | ⟨p, hp, -, -, -, hup⟩⟩
    · rfl
    · obtain ⟨rfl, offset, -, rfl⟩ := Memberlist.insertNode_eq hins
      rw [(Memberlist.aliveUpdate_frame hup).1 q hfresh]
      exact Function.update_of_ne hfresh _ _
    · exact (Memberlist.aliveUpdate_frame hup).1 q fun hqp => hq _ (hqp ▸ hp)
    · exact (Memberlist.aliveUpdate_frame hup).1 q fun hqp => hq _ (hqp ▸ hp)
  | suspect hs => exact (Memberlist.suspectNode_frame hs).1 q (hq _)
  | dead hd => exact (Memberlist.deadNode_frame hd).1 q (hq _)

end Handlers

namespace Precedence

variable {cfg : Config} {now : Int} {X : String} {old new : nodeState}

/-- Outside the reclaim path, which moves the record to a new address, the incarnation does
    not decrease. -/
theorem incarnation_le (h : Precedence cfg now X old new) :
    old.Incarnation ≤ new.Incarnation ∨ Reclaimable cfg now old ∧ Moved old new := by
  cases h with
  | unchanged heq => exact .inl (by rw [heq]; exact UInt32.le_refl _)
  | alive a _ hlt _ hi _ _ => exact .inl (hi ▸ UInt32.le_of_lt hlt)
  | suspect s _ hle _ _ hi _ => exact .inl (hi ▸ hle)
  | dead d _ hle _ _ hi _ => exact .inl (hi ▸ hle)
  | reclaim a _ hmov hre _ _ ha hpo => exact .inr ⟨hre, Moved.of_reclaim hmov ha hpo⟩

/-- A Dead or Left record becomes Alive only at a newer incarnation or by a reclaim to a new
    address. -/
theorem revive (h : Precedence cfg now X old new)
    (hold : old.State = StateDead ∨ old.State = StateLeft) (hnew : new.State = StateAlive) :
    old.Incarnation < new.Incarnation ∨ Reclaimable cfg now old ∧ Moved old new := by
  cases h with
  | unchanged heq =>
    rw [heq] at hnew
    rcases hold with hs | hs <;> simp [hs, StateDead, StateLeft, StateAlive] at hnew
  | alive a _ hlt _ hi _ _ => exact .inl (hi ▸ hlt)
  | suspect s _ _ halive _ _ _ =>
    rcases hold with hs | hs <;> simp [hs, StateDead, StateLeft, StateAlive] at halive
  | dead d _ _ hlive _ _ _ =>
    rcases hold with hs | hs <;> rcases hlive with hl | hl <;>
      simp [hs, StateDead, StateLeft, StateAlive, StateSuspect] at hl
  | reclaim a _ hmov hre _ _ ha hpo => exact .inr ⟨hre, Moved.of_reclaim hmov ha hpo⟩

/-- The address changes only by a reclaim. -/
theorem addr_change (h : Precedence cfg now X old new)
    (hchg : new.Node.Addr ≠ old.Node.Addr ∨ new.Node.Port ≠ old.Node.Port) :
    Reclaimable cfg now old := by
  cases h with
  | unchanged heq =>
    subst heq
    simp at hchg
  | alive a _ _ _ _ haddr hport =>
    rcases hchg with hc | hc
    · exact absurd haddr hc
    · exact absurd hport hc
  | suspect s _ _ _ _ _ hn =>
    rw [hn] at hchg
    simp at hchg
  | dead d _ _ _ _ _ hn =>
    rw [hn] at hchg
    simp at hchg
  | reclaim a _ _ hre _ _ _ _ => exact hre

end Precedence

/-- A reclaimable record is neither Alive nor Suspect. -/
theorem Reclaimable.not_live {cfg : Config} {now : Int} {st : nodeState}
    (h : Reclaimable cfg now st) : st.State ≠ StateAlive ∧ st.State ≠ StateSuspect := by
  rcases h with hs | ⟨hs, -⟩ <;> simp [hs, StateDead, StateLeft, StateAlive, StateSuspect]

section Step

variable {cfg : Config} {env : Env} {m m' : Memberlist} {X : String} {p : Ptr}

theorem ValidState.admins (h : Rep m) (hv : ValidState m)
    (ha : Relation.ReflTransGen (Admin cfg) m m') : ValidState m' := by
  intro k q hk
  rw [admins_heap ha]
  exact hv k q (admins_lookup_sub h ha hk)

/-- One step moves the record `X` had before it by one `Precedence` move.  The bookkeeping
    around the handler call leaves records alone; if it reaped `X`, no name holds the record
    any more and it is not the fresh one, so the handler cannot reach it. -/
theorem step_precedence {op : Op} {eff : List Effect} (hreach : Reachable cfg m)
    (hstep : m.step cfg env op = .ok (m', eff)) (hX : X ≠ cfg.Name)
    (hp : m.nodeMap.lookup X = some p) : Precedence cfg env.now X (m.heap p) (m'.heap p) := by
  have hrep := Rep.reachable hreach
  have hv := ValidState.reachable hreach
  obtain ⟨m₁, m₂, h₁, hc, h₂⟩ := Memberlist.step_shape hstep
  rw [admins_heap h₂, ← admins_heap h₁]
  rcases hc with rfl | hc
  · exact .unchanged rfl
  cases h₁X : m₁.nodeMap.lookup X with
  | some q =>
    obtain rfl : q = p := Option.some.inj ((admins_lookup_sub hrep h₁ h₁X).symm.trans hp)
    exact Call.precedence (hrep.admins h₁) hX h₁X (hv.admins hrep h₁) hc
  | none =>
    -- `X` was reaped: no name holds its record any more
    have hq : ∀ k, m₁.nodeMap.lookup k ≠ some p := by
      intro k hk
      have hkX : k = X :=
        (hrep.name_eq k p (admins_lookup_sub hrep h₁ hk)).symm.trans (hrep.name_eq X p hp)
      rw [hkX, h₁X] at hk
      cases hk
    have hfresh : p ≠ m₁.nextPtr := by
      rw [admins_nextPtr h₁]
      exact Nat.ne_of_lt (hrep.lt_nextPtr p (hrep.mem_nodes X p hp))
    rw [Call.heap_unmapped hc hq hfresh]
    exact .unchanged rfl

/-- **SWIM precedence for remote members.**  From a reachable state, one step moves the record
    a remote member `X` had before it by one `Precedence` move.  So its incarnation decreases
    only by a reclaim, which moves it to a new address; a Dead or Left `X` becomes Alive again
    only at a newer incarnation or by such a reclaim; and its address changes only by a
    reclaim, never while it is Alive or Suspect. -/
theorem swim_precedence {op : Op} {eff : List Effect} (hreach : Reachable cfg m)
    (hstep : m.step cfg env op = .ok (m', eff)) (hX : X ≠ cfg.Name)
    (hp : m.nodeMap.lookup X = some p) :
    Precedence cfg env.now X (m.heap p) (m'.heap p) ∧
      ((m.heap p).Incarnation ≤ (m'.heap p).Incarnation ∨
        Reclaimable cfg env.now (m.heap p) ∧ Moved (m.heap p) (m'.heap p)) ∧
      ((m.heap p).State = StateDead ∨ (m.heap p).State = StateLeft →
        (m'.heap p).State = StateAlive →
        (m.heap p).Incarnation < (m'.heap p).Incarnation ∨
          Reclaimable cfg env.now (m.heap p) ∧ Moved (m.heap p) (m'.heap p)) ∧
      ((m'.heap p).Node.Addr ≠ (m.heap p).Node.Addr ∨ (m'.heap p).Node.Port ≠ (m.heap p).Node.Port →
        Reclaimable cfg env.now (m.heap p) ∧
          (m.heap p).State ≠ StateAlive ∧ (m.heap p).State ≠ StateSuspect) := by
  have hprec := step_precedence hreach hstep hX hp
  refine ⟨hprec, hprec.incarnation_le, hprec.revive, fun hchg => ?_⟩
  have hre := hprec.addr_change hchg
  exact ⟨hre, hre.not_live⟩

theorem swim_precedence_suspect :
    let cfg := DefaultLANConfig "a"
    let a : alive := ⟨1, "b", [10, 0, 0, 2], 7946, [], []⟩
    ∃ r₁ r₂, (Memberlist.init cfg).step cfg (Env.at 0) (.alive a) = .ok r₁ ∧
      r₁.1.step cfg (Env.at 1) (.suspect ⟨1, "b", "a"⟩) = .ok r₂ ∧
      r₁.1.nodeMap.lookup "b" = some 0 ∧ (r₂.1.heap 0).State = StateSuspect ∧
      Precedence cfg 1 "b" (r₁.1.heap 0) (r₂.1.heap 0) := by
  intro cfg a
  have h₀ : Reachable cfg (Memberlist.init cfg) := .base rfl
  have h₁ := Reachable.of_step (Env.at 0) (.alive a) h₀ rfl
  have hX : "b" ≠ cfg.Name := by decide
  exact ⟨_, _, rfl, rfl, rfl, rfl,
    (@swim_precedence _ (Env.at 1) _ _ _ _ (.suspect ⟨1, "b", "a"⟩) _ h₁ rfl hX rfl).1⟩

end Step

end memberlist
