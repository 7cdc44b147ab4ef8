import Memberlist.State.Precedence

/-!
# The node state the API hands out

`nodeState` embeds a `Node` and declares its own `State`, which shadows `Node.State`.  Every
handler writes the outer field (`state.State = StateSuspect`, …), while everything handed to
the user is the embedded `Node`: `Members` and `LocalNode` return `&n.Node`, and the event
delegate is called with `n.Node`.  Nothing ever writes the embedded field, so it keeps Go's
zero value, `StateAlive`, in every record:

* `EmbeddedAlive` — every record's embedded `Node.State` is `StateAlive`; it holds initially
  (the zero records of `heap`) and every write keeps it (`applyAlive_nodeState`,
  `refute_nodeState`, the fresh record of `newRecord`), so it holds in every reachable state.
* `embedded_state_stays_alive` — hence a Suspect or Dead member is exposed as Alive: after an
  alive, a suspect and a dead message about `b`, `Members` reports the Suspect `b` as Alive
  and `NotifyLeave` is called with a Dead `b` reporting Alive.
-/

namespace memberlist

open Go

/-- Every record's embedded `Node.State` is `StateAlive`, Go's zero value of the field. -/
def EmbeddedAlive (m : Memberlist) : Prop :=
  ∀ q, (m.heap q).Node.State = StateAlive

section Writes

/-- The version copy writes only the version fields of the embedded `Node`. -/
theorem copyVsn_nodeState {st st' : nodeState} {a : alive} (h : copyVsn st a = .ok st') :
    st'.Node.State = st.Node.State := by
  rw [copyVsn_frame h]

/-- An accepted alive message sets the record's own `State`, never the embedded one. -/
theorem applyAlive_nodeState {st st' : nodeState} {a : alive} {now : Int}
    (h : applyAlive st a now = .ok st') : st'.Node.State = st.Node.State := by
  unfold applyAlive at h
  cases hc : copyVsn st a with
  | error e => simp [hc, Except.map] at h
  | ok st₁ =>
    have h₁ := copyVsn_nodeState hc
    simp only [hc, Except.map, Except.ok.injEq] at h
    subst h
    split <;> exact h₁

@[simp] theorem refute_nodeState (m : Memberlist) (p q : Ptr) (i : UInt32) :
    ((m.refute p i).1.heap q).Node.State = (m.heap q).Node.State := by
  by_cases hq : q = p
  · subst hq
    simp
  · simp [Function.update_of_ne hq]

/-- The fresh record embeds a zero `Node` with the message's name, address and meta. -/
theorem newRecord_nodeState (a : alive) : (newRecord a).Node.State = StateAlive := by
  unfold newRecord
  split <;> rfl

end Writes

section Keep

variable {cfg : Config} {env : Env} {m m' : Memberlist} {eff : List Effect}

/-- A write of one record that embeds a `Node` reporting Alive. -/
theorem EmbeddedAlive.update (h : EmbeddedAlive m) {p : Ptr} {st : nodeState}
    (hheap : m'.heap = Function.update m.heap p st) (hst : st.Node.State = StateAlive) :
    EmbeddedAlive m' := by
  intro q
  rw [hheap]
  by_cases hq : q = p
  · subst hq
    rw [Function.update_self]
    exact hst
  · rw [Function.update_of_ne hq]
    exact h q

theorem EmbeddedAlive.setRecord (h : EmbeddedAlive m) {p : Ptr} {st : nodeState}
    (hst : st.Node.State = StateAlive) : EmbeddedAlive (m.setRecord p st) :=
  h.update rfl hst

theorem EmbeddedAlive.refute (h : EmbeddedAlive m) (p : Ptr) (i : UInt32) :
    EmbeddedAlive (m.refute p i).1 := by
  intro q
  rw [refute_nodeState]
  exact h q

theorem EmbeddedAlive.aliveUpdate (h : EmbeddedAlive m) {now : Int} {a : alive}
    {notify : Option Notify} {bootstrap : Bool} {p : Ptr} {updatesNode : Bool}
    (hup : m.aliveUpdate cfg now a notify bootstrap p updatesNode = .ok (m', eff)) :
    EmbeddedAlive m' := by
  rcases Memberlist.aliveUpdate_cases hup with ⟨rfl, -⟩ |
      ⟨-, -, ⟨-, -, ⟨rfl, -⟩ | ⟨rfl, -⟩⟩ | ⟨-, st, hst, rfl, -⟩⟩
  · exact h
  · exact h
  · exact EmbeddedAlive.refute h p a.Incarnation
  · -- the record takes the message with its embedded state as it was
    refine EmbeddedAlive.setRecord h ?_
    rw [applyAlive_nodeState hst]
    exact h p

theorem EmbeddedAlive.aliveNode (h : EmbeddedAlive m) {a : alive} {notify : Option Notify}
    {bootstrap : Bool} (hal : m.aliveNode cfg env a notify bootstrap = .ok (m', eff)) :
    EmbeddedAlive m' := by
  rcases Memberlist.aliveNode_cases hal with ⟨rfl, -⟩ |
      ⟨-, ⟨-, -, m₁, p, hins, hup⟩ | ⟨p, -, -, -, hup⟩ | ⟨p, -, -, -, -, hup⟩⟩
  · exact h
  · -- the fresh record embeds a zero `Node`
    obtain ⟨rfl, offset, -, rfl⟩ := Memberlist.insertNode_eq hins
    exact EmbeddedAlive.aliveUpdate (h.update rfl (newRecord_nodeState a)) hup
  · exact h.aliveUpdate hup
  · exact h.aliveUpdate hup

theorem EmbeddedAlive.suspectNode (h : EmbeddedAlive m) {now : Int} {s : suspect}
    (hs : m.suspectNode cfg now s = (m', eff)) : EmbeddedAlive m' := by
  rcases Memberlist.suspectNode_cases hs with ⟨rfl, -⟩ |
      ⟨p, -, -, ⟨t, -, rfl, -⟩ | ⟨-, -, ⟨-, hr⟩ | ⟨-, k, rfl, -⟩⟩⟩
  · exact h
  · exact h
  · rw [show m' = (m.refute p s.Incarnation).1 by rw [← hr]]
    exact h.refute p s.Incarnation
  · exact h.setRecord (h p)

theorem EmbeddedAlive.deadNode (h : EmbeddedAlive m) {now : Int} {d : dead}
    (hd : m.deadNode cfg now d = (m', eff)) : EmbeddedAlive m' := by
  rcases Memberlist.deadNode_cases hd with ⟨rfl, -⟩ |
      ⟨p, -, -, ⟨-, rfl, -⟩ | ⟨-, -, -, hr⟩ | ⟨-, -, rfl, -⟩⟩
  · exact h
  · exact h
  · rw [show m' = ({ m with nodeTimers := m.nodeTimers.erase d.Node }.refute p d.Incarnation).1
      by rw [← hr]]
    exact EmbeddedAlive.refute h p d.Incarnation
  · exact EmbeddedAlive.setRecord h (h p)

theorem EmbeddedAlive.call (h : EmbeddedAlive m) (hc : Call cfg env m m') : EmbeddedAlive m' := by
  cases hc with
  | alive hal => exact h.aliveNode hal
  | suspect hs => exact h.suspectNode hs
  | dead hd => exact h.deadNode hd

theorem EmbeddedAlive.admin (h : EmbeddedAlive m) (ha : Admin cfg m m') : EmbeddedAlive m' := by
  intro q
  rw [ha.heap_eq]
  exact h q

theorem EmbeddedAlive.init (cfg : Config) : EmbeddedAlive (Memberlist.init cfg) := fun _ => rfl

/-- Every reachable state is `EmbeddedAlive`. -/
theorem EmbeddedAlive.reachable (h : Reachable cfg m) : EmbeddedAlive m :=
  (Rep.reachable_and EmbeddedAlive (EmbeddedAlive.init cfg) (fun _ _ _ hi ha => hi.admin ha)
    (fun _ _ _ _ hi hc => hi.call hc) h).2

end Keep

/-- **The exposed node state is stuck at Alive.**  In every reachable state of every
    configuration, every record's embedded `Node.State` (what `Members`, `LocalNode` and the
    event delegate hand out) is `StateAlive`.  So it disagrees with the record's own state as
    soon as a member is suspected or dies: after an alive, a suspect and a dead message about
    `b`, `Members` hands out the Suspect `b` as Alive, and `NotifyLeave` is called for the Dead
    `b` with a node that reports Alive. -/
theorem embedded_state_stays_alive :
    (∀ (cfg : Config) (m : Memberlist), Reachable cfg m →
        ∀ q, (m.heap q).Node.State = StateAlive) ∧
      ∃ r₁ r₂ r₃,
        (Memberlist.init { DefaultLANConfig "a" with Events := true }).step
            { DefaultLANConfig "a" with Events := true } (Env.at 0)
            (.alive ⟨1, "b", [10, 0, 0, 2], 7946, [], []⟩) = .ok r₁ ∧
        r₁.1.step { DefaultLANConfig "a" with Events := true } (Env.at 0)
            (.suspect ⟨1, "b", "c"⟩) = .ok r₂ ∧
        r₂.1.step { DefaultLANConfig "a" with Events := true } (Env.at 0)
            (.dead ⟨1, "b", "c"⟩) = .ok r₃ ∧
        Reachable { DefaultLANConfig "a" with Events := true } r₃.1 ∧
        (r₂.1.record "b").map (·.State) = some StateSuspect ∧
        r₂.1.Members.map (·.State) = [StateAlive] ∧
        (r₃.1.record "b").map (·.State) = some StateDead ∧
        ∃ n, Effect.notifyLeave n ∈ r₃.2 ∧ n.Name = "b" ∧ n.State = StateAlive := by
  refine ⟨fun cfg m h q => EmbeddedAlive.reachable h q, ?_⟩
  -- the run from `newMemberlist`: `b` joins, is suspected, then declared dead
  have h₀ : Reachable { DefaultLANConfig "a" with Events := true }
      (Memberlist.init { DefaultLANConfig "a" with Events := true }) := .base rfl
  have h₁ := Reachable.of_step (Env.at 0) (.alive ⟨1, "b", [10, 0, 0, 2], 7946, [], []⟩) h₀ rfl
  have h₂ := Reachable.of_step (Env.at 0) (.suspect ⟨1, "b", "c"⟩) h₁ rfl
  have h₃ := Reachable.of_step (Env.at 0) (.dead ⟨1, "b", "c"⟩) h₂ rfl
  exact ⟨_, _, _, rfl, rfl, rfl, h₃, by decide, by decide, by decide,
    ⟨"b", [10, 0, 0, 2], 7946, [], StateAlive, 0, 0, 0, 0, 0, 0⟩, by decide, rfl, rfl⟩

end memberlist
