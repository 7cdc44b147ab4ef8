import Memberlist.State.Step
import Mathlib

/-!
# What each handler can do

One lemma per handler says every way a call can end: which branch was taken, under which
guards, and what the state and the effects are then.  The invariants of the later modules are
proved from these lemmas, by a case split on their disjuncts, and never unfold a handler.

* `refute_*`, `insertNode_eq` — the primitive updates, as simp lemmas;
* `applyAlive_ok` — the record an accepted alive message produces; `copyVsn_short` — the
  copy of a version vector of one to five bytes panics;
* `aliveUpdate_cases`, `aliveNode_cases`, `suspectNode_cases`, `deadNode_cases`;
* `step_shape` — a step is bookkeeping that leaves every record as it is (`Admin`: reaping,
  the pending work, the probe index, the awareness, the incarnation counter, the leave flag)
  around at most one handler call (`Call`).  An invariant kept by both is kept by every step.
-/

namespace memberlist

open Go

namespace Memberlist

section Refute

variable (m : Memberlist) (p : Ptr) (i : UInt32)

@[simp] theorem refute_nodes : (m.refute p i).1.nodes = m.nodes := rfl
@[simp] theorem refute_nodeTimers : (m.refute p i).1.nodeTimers = m.nodeTimers := rfl
@[simp] theorem refute_numNodes : (m.refute p i).1.numNodes = m.numNodes := rfl
@[simp] theorem refute_nextPtr : (m.refute p i).1.nextPtr = m.nextPtr := rfl
@[simp] theorem refute_leave : (m.refute p i).1.leave = m.leave := rfl
@[simp] theorem refute_pending : (m.refute p i).1.pending = m.pending := rfl

/-- The incarnation `refute` moves to: one past the counter, skipped past `i` when that does
    not beat it. -/
def refuteIncarnation (incarnation i : UInt32) : UInt32 :=
  if i ≥ incarnation + 1 then incarnation + 1 + (i - (incarnation + 1) + 1) else incarnation + 1

@[simp] theorem refute_incarnation :
    (m.refute p i).1.incarnation = refuteIncarnation m.incarnation i := rfl

@[simp] theorem refute_heap :
    (m.refute p i).1.heap =
      Function.update m.heap p { m.heap p with Incarnation := refuteIncarnation m.incarnation i } :=
  rfl

theorem refute_effects : (m.refute p i).2 =
    [.broadcast (.addr (m.heap p).Node.Addr)
      (.alive { Incarnation := refuteIncarnation m.incarnation i, Node := (m.heap p).Node.Name,
                Addr := (m.heap p).Node.Addr, Port := (m.heap p).Node.Port,
                Meta := (m.heap p).Node.Meta,
                Vsn := { m.heap p with Incarnation := refuteIncarnation m.incarnation i }.versions })
      none] := rfl

end Refute

/-- The refutation moves one past the accusation when the next incarnation does not beat it,
    and to the next incarnation otherwise, both modulo `2^32`. -/
theorem refuteIncarnation_eq (c i : UInt32) :
    refuteIncarnation c i = if i ≥ c + 1 then i + 1 else c + 1 := by
  unfold refuteIncarnation
  split
  · -- `inc + (accusedInc - inc + 1)` is `accusedInc + 1` in `uint32`
    grind
  · rfl

/-- One past a `uint32` is above it, except past `2^32 - 1`, which wraps to 0. -/
theorem lt_add_one_iff_ne_max (i : UInt32) : i < i + 1 ↔ i ≠ 4294967295 := by
  have hi := i.toNat_lt
  rw [UInt32.lt_iff_toNat_lt, ne_eq, ← UInt32.toNat_inj, UInt32.toNat_add]
  simp only [UInt32.toNat_one, UInt32.reduceToNat]
  omega

/-- The refutation beats the accusation exactly when the accusation is not `2^32 - 1`. -/
theorem lt_refuteIncarnation_iff (c i : UInt32) :
    i < refuteIncarnation c i ↔ i ≠ 4294967295 := by
  rw [refuteIncarnation_eq]
  split
  · exact lt_add_one_iff_ne_max i
  · rename_i hge
    -- the accusation is below the next incarnation, so it is not the largest `uint32`
    have hlt : i < c + 1 := UInt32.not_le.mp hge
    refine ⟨fun _ heq => ?_, fun _ => hlt⟩
    rw [heq, UInt32.lt_iff_toNat_lt] at hlt
    have := (c + 1).toNat_lt
    simp only [UInt32.reduceToNat] at hlt
    omega

@[simp] theorem setRecord_heap (m : Memberlist) (p : Ptr) (st : nodeState) :
    (m.setRecord p st).heap = Function.update m.heap p st := rfl

/-- `insertNode`: a fresh pointer, mapped from `name`, appended and swapped with a random
    offset. -/
theorem insertNode_eq {m m' : Memberlist} {name : String} {st : nodeState} {r : UInt32}
    {p : Ptr} (h : m.insertNode name st r = .ok (m', p)) :
    p = m.nextPtr ∧ ∃ offset, randomOffset m.nodes.length r = .ok offset ∧
      m' = { m with
        heap := Function.update m.heap p st
        nextPtr := p + 1
        nodeMap := m.nodeMap.insert name p
        nodes := (m.nodes ++ [p]).swap offset m.nodes.length
        numNodes := m.numNodes + 1 } := by
  unfold insertNode at h
  obtain ⟨offset, hoff, hres⟩ := bind_eq_ok.mp h
  simp only [pure, Except.pure, Except.ok.injEq, Prod.mk.injEq] at hres
  obtain ⟨rfl, rfl⟩ := hres
  exact ⟨rfl, offset, hoff, rfl⟩

end Memberlist

/-- The version copy writes the version fields of the embedded `Node` and nothing else. -/
theorem copyVsn_frame {st st' : nodeState} {a : alive} (h : copyVsn st a = .ok st') :
    st' = { st with Node := { st.Node with
      PMin := st'.Node.PMin, PMax := st'.Node.PMax, PCur := st'.Node.PCur,
      DMin := st'.Node.DMin, DMax := st'.Node.DMax, DCur := st'.Node.DCur } } := by
  unfold copyVsn at h
  split at h
  · simp only [bind_eq_ok, pure, Except.pure, Except.ok.injEq] at h
    obtain ⟨_, _, _, _, _, _, _, _, _, _, _, _, rfl⟩ := h
    rfl
  · cases h
    rfl

/-- The version copy changes nothing but the version fields. -/
theorem copyVsn_ok {st st' : nodeState} {a : alive} (h : copyVsn st a = .ok st') :
    st'.Node.Name = st.Node.Name ∧ st'.Node.Addr = st.Node.Addr ∧ st'.Node.Port = st.Node.Port ∧
      st'.Node.Meta = st.Node.Meta ∧ st'.State = st.State ∧ st'.StateChange = st.StateChange ∧
      st'.Incarnation = st.Incarnation := by
  rw [copyVsn_frame h]
  exact ⟨rfl, rfl, rfl, rfl, rfl, rfl, rfl⟩

/-- The version copy panics on a version vector of one to five bytes. -/
theorem copyVsn_short (st : nodeState) {a : alive} (hpos : 0 < a.Vsn.length)
    (hshort : a.Vsn.length < 6) : copyVsn st a = .error ⟨"index out of range"⟩ := by
  have hv : ∃ vsn, a.Vsn = vsn := ⟨_, rfl⟩
  obtain ⟨vsn, hv⟩ := hv
  rw [hv] at hpos hshort
  -- the copy stops at the first missing index
  match vsn, hpos, hshort with
  | [_], _, _ | [_, _], _, _ | [_, _, _], _, _ | [_, _, _, _], _, _ | [_, _, _, _, _], _, _ =>
    simp [copyVsn, hv, index, bind, Except.bind]

/-- An accepted alive message: the record keeps its name, is Alive at the message's
    incarnation and address, and is stamped `now` unless it already was Alive. -/
theorem applyAlive_ok {st st' : nodeState} {a : alive} {now : Int}
    (h : applyAlive st a now = .ok st') :
    st'.Node.Name = st.Node.Name ∧ st'.State = StateAlive ∧ st'.Incarnation = a.Incarnation ∧
      st'.Node.Addr = a.Addr ∧ st'.Node.Port = a.Port ∧ st'.Node.Meta = a.Meta ∧
      st'.StateChange = if st.State = StateAlive then st.StateChange else now := by
  unfold applyAlive at h
  cases hc : copyVsn st a with
  | error e => simp [hc, Except.map] at h
  | ok st₁ =>
    obtain ⟨hn, -, -, -, hs, hsc, -⟩ := copyVsn_ok hc
    simp only [hc, Except.map, Except.ok.injEq] at h
    subst h
    split <;> simp_all
namespace Memberlist

/-- Every way `aliveUpdate` ends. -/
theorem aliveUpdate_cases {cfg : Config} {m m' : Memberlist} {now : Int} {a : alive}
    {notify : Option Notify} {bootstrap : Bool} {p : Ptr} {updatesNode : Bool}
    {eff : List Effect}
    (h : m.aliveUpdate cfg now a notify bootstrap p updatesNode = .ok (m', eff)) :
    -- bailed out on the incarnation
    (m' = m ∧ eff = []) ∨
    -- accepted: the timer is cleared, then
    (¬ (a.Incarnation ≤ (m.heap p).Incarnation ∧ ¬ (m.heap p).Node.Name = cfg.Name ∧
          ¬ updatesNode = true) ∧
      ¬ (a.Incarnation < (m.heap p).Incarnation ∧ (m.heap p).Node.Name = cfg.Name) ∧
      -- the local node, not bootstrapping, keeps its record or refutes
      ((bootstrap = false ∧ (m.heap p).Node.Name = cfg.Name ∧
          ((m' = { m with nodeTimers := m.nodeTimers.erase a.Node } ∧ eff = []) ∨
           (m' = ({ m with nodeTimers := m.nodeTimers.erase a.Node }.refute p a.Incarnation).1 ∧
            eff = ({ m with nodeTimers := m.nodeTimers.erase a.Node }.refute p a.Incarnation).2 ++
              aliveEvents cfg (m.heap p).State (m.heap p).Node.Meta
                (({ m with nodeTimers := m.nodeTimers.erase a.Node }.refute p
                  a.Incarnation).1.heap p).Node))) ∨
      -- any other record takes the message
       (¬ (bootstrap = false ∧ (m.heap p).Node.Name = cfg.Name) ∧
          ∃ st, applyAlive (m.heap p) a now = .ok st ∧
            m' = { m with nodeTimers := m.nodeTimers.erase a.Node }.setRecord p st ∧
            eff = .broadcast (.node a.Node) (.alive a) notify ::
              aliveEvents cfg (m.heap p).State (m.heap p).Node.Meta st.Node))) := by
  unfold aliveUpdate at h
  dsimp only at h
  split_ifs at h with h₁ h₂ h₃ h₄
  · simp_all
  · simp_all
  · simp only [Except.ok.injEq, Prod.mk.injEq] at h
    exact .inr ⟨h₁, h₂, .inl ⟨by simpa using h₃.1, h₃.2, .inl ⟨h.1.symm, h.2.symm⟩⟩⟩
  · simp only [Except.ok.injEq, Prod.mk.injEq] at h
    exact .inr ⟨h₁, h₂, .inl ⟨by simpa using h₃.1, h₃.2, .inr ⟨h.1.symm, h.2.symm⟩⟩⟩
  · obtain ⟨st, hst, hres⟩ := bind_eq_ok.mp h
    simp only [pure, Except.pure, Except.ok.injEq, Prod.mk.injEq] at hres
    exact .inr ⟨h₁, h₂, .inr ⟨by simpa using h₃, st, hst, hres.1.symm, hres.2.symm⟩⟩

/-- Every way `aliveNode` ends. -/
theorem aliveNode_cases {cfg : Config} {m m' : Memberlist} {env : Env} {a : alive}
    {notify : Option Notify} {bootstrap : Bool} {eff : List Effect}
    (h : m.aliveNode cfg env a notify bootstrap = .ok (m', eff)) :
    -- ignored, rejected, or a conflict reported
    (m' = m ∧ (eff = [] ∨ ∃ n o, eff = [.notifyConflict n o])) ∨
    aliveIgnored cfg m.leave a env.verdict = false ∧
      -- a record for a new node, which `aliveUpdate` then treats
      ((m.nodeMap.lookup a.Node = none ∧ cfg.IPAllowed a.Addr = true ∧
          ∃ m₁ p, m.insertNode a.Node (newRecord a) env.rand = .ok (m₁, p) ∧
            m₁.aliveUpdate cfg env.now a notify bootstrap p false = .ok (m', eff)) ∨
      -- a known node at the same address
        (∃ p, m.nodeMap.lookup a.Node = some p ∧ (m.heap p).Node.Addr = a.Addr ∧
          (m.heap p).Node.Port = a.Port ∧
          m.aliveUpdate cfg env.now a notify bootstrap p false = .ok (m', eff)) ∨
      -- a Left node, or one Dead long enough, reclaimed at a new address
        (∃ p, m.nodeMap.lookup a.Node = some p ∧
          ((m.heap p).Node.Addr ≠ a.Addr ∨ (m.heap p).Node.Port ≠ a.Port) ∧
          cfg.IPAllowed a.Addr = true ∧
          ((m.heap p).State = StateLeft ∨ ((m.heap p).State = StateDead ∧
            0 < cfg.DeadNodeReclaimTime ∧
            env.now - (m.heap p).StateChange > cfg.DeadNodeReclaimTime)) ∧
          m.aliveUpdate cfg env.now a notify bootstrap p true = .ok (m', eff))) := by
  unfold aliveNode at h
  split at h
  · simp_all
  rename_i hig
  have hig' : aliveIgnored cfg m.leave a env.verdict = false := by simpa using hig
  split at h
  · -- never seen: insert if the address is allowed
    rename_i hnone
    split at h
    · simp_all
    rename_i hip
    obtain ⟨⟨m₁, p⟩, hins, hup⟩ := bind_eq_ok.mp h
    exact .inr ⟨hig', .inl ⟨hnone, by simpa using hip, m₁, p, hins, hup⟩⟩
  · rename_i p hp
    dsimp only at h
    split at h
    · rename_i hdiff
      split at h
      · simp_all
      rename_i hip
      split at h
      · rename_i hre
        exact .inr ⟨hig', .inr (.inr ⟨p, hp, hdiff, by simpa using hip, hre, h⟩)⟩
      · -- a conflict, reported to the Conflict delegate if there is one
        simp only [Except.ok.injEq, Prod.mk.injEq] at h
        obtain ⟨rfl, rfl⟩ := h
        refine .inl ⟨rfl, ?_⟩
        split
        · exact .inr ⟨_, _, rfl⟩
        · exact .inl rfl
    · rename_i hsame
      simp only [not_or, not_not] at hsame
      exact .inr ⟨hig', .inr (.inl ⟨p, hp, hsame.1, hsame.2, h⟩)⟩

/-- Every way `suspectNode` ends. -/
theorem suspectNode_cases {cfg : Config} {m m' : Memberlist} {now : Int} {s : suspect}
    {eff : List Effect} (h : m.suspectNode cfg now s = (m', eff)) :
    (m' = m ∧ eff = []) ∨
    ∃ p, m.nodeMap.lookup s.Node = some p ∧ ¬ s.Incarnation < (m.heap p).Incarnation ∧
      -- a running suspicion is confirmed
      ((∃ t, m.nodeTimers.lookup s.Node = some t ∧
          m' = { m with nodeTimers := m.nodeTimers.insert s.Node (t.Confirm s.From).1 } ∧
          eff = if (t.Confirm s.From).2 then [.broadcast (.node s.Node) (.suspect s) none] else []) ∨
      -- no suspicion yet, about an alive node
        (m.nodeTimers.lookup s.Node = none ∧ (m.heap p).State = StateAlive ∧
          -- the local node refutes
          (((m.heap p).Node.Name = cfg.Name ∧ (m', eff) = m.refute p s.Incarnation) ∨
          -- any other is suspected, with a timer armed
            ((m.heap p).Node.Name ≠ cfg.Name ∧ ∃ k,
              m' = { m.setRecord p { m.heap p with
                        Incarnation := s.Incarnation, State := StateSuspect, StateChange := now } with
                      nodeTimers := m.nodeTimers.insert s.Node (newSuspicion s.From k)
                      pending := m.pending ++ [.suspicionTimeout s.Node now] } ∧
              eff = [.broadcast (.node s.Node) (.suspect s) none])))) := by
  unfold suspectNode at h
  split at h
  · simp_all
  rename_i p hp
  dsimp only at h
  split at h
  · simp_all
  rename_i hinc
  split at h
  · rename_i t ht
    simp only [Prod.mk.injEq] at h
    exact .inr ⟨p, hp, hinc, .inl ⟨t, ht, h.1.symm, h.2.symm⟩⟩
  · rename_i hnt
    split at h
    · simp_all
    rename_i halive
    have halive' : (m.heap p).State = StateAlive := by simpa using halive
    split at h
    · rename_i hlocal
      exact .inr ⟨p, hp, hinc, .inr ⟨hnt, halive', .inl ⟨hlocal, h.symm⟩⟩⟩
    · rename_i hlocal
      simp only [Prod.mk.injEq] at h
      exact .inr ⟨p, hp, hinc, .inr ⟨hnt, halive', .inr ⟨hlocal, _, h.1.symm, h.2.symm⟩⟩⟩

/-- Every way `deadNode` ends. -/
theorem deadNode_cases {cfg : Config} {m m' : Memberlist} {now : Int} {d : dead}
    {eff : List Effect} (h : m.deadNode cfg now d = (m', eff)) :
    (m' = m ∧ eff = []) ∨
    ∃ p, m.nodeMap.lookup d.Node = some p ∧ ¬ d.Incarnation < (m.heap p).Incarnation ∧
      -- the timer is cleared, then
      -- a Dead or Left node stays so
      (((m.heap p).DeadOrLeft = true ∧
          m' = { m with nodeTimers := m.nodeTimers.erase d.Node } ∧ eff = []) ∨
      -- the local node refutes unless it is leaving
        ((m.heap p).DeadOrLeft = false ∧ (m.heap p).Node.Name = cfg.Name ∧ m.leave = false ∧
          (m', eff) = { m with nodeTimers := m.nodeTimers.erase d.Node }.refute p d.Incarnation) ∨
      -- the node is marked Left (a message from itself) or Dead
        ((m.heap p).DeadOrLeft = false ∧ ¬ ((m.heap p).Node.Name = cfg.Name ∧ m.leave = false) ∧
          m' = { m with nodeTimers := m.nodeTimers.erase d.Node }.setRecord p
            { m.heap p with Incarnation := d.Incarnation, StateChange := now,
                            State := if d.Node = d.From then StateLeft else StateDead } ∧
          eff = .broadcast (.node d.Node) (.dead d)
              (if (m.heap p).Node.Name = cfg.Name then some .leaveBroadcast else none) ::
            (if cfg.Events then
              [.notifyLeave (m.heap p).Node] else []))) := by
  unfold deadNode at h
  split at h
  · simp_all
  rename_i p hp
  dsimp only at h
  split at h
  · simp_all
  rename_i hinc
  refine .inr ⟨p, hp, hinc, ?_⟩
  split at h
  · rename_i hdl
    simp only [Prod.mk.injEq] at h
    exact .inl ⟨hdl, h.1.symm, h.2.symm⟩
  · rename_i hdl
    split at h
    · rename_i hlocal
      exact .inr (.inl ⟨by simpa using hdl, hlocal.1, by simpa using hlocal.2, h.symm⟩)
    · rename_i hlocal
      simp only [Prod.mk.injEq] at h
      refine .inr (.inr ⟨by simpa using hdl, by simpa using hlocal, h.1.symm, ?_⟩)
      rw [← h.2]

end Memberlist

/-- A change that leaves every record as it is: the bookkeeping around handler calls. -/
inductive Admin (cfg : Config) : Memberlist → Memberlist → Prop
  | reset (m : Memberlist) (env : Env) : Admin cfg m (m.resetNodes cfg env)
  | pending (m : Memberlist) (ps : List Pending) : Admin cfg m { m with pending := ps }
  | probeIndex (m : Memberlist) (i : Nat) : Admin cfg m { m with probeIndex := i }
  | awareness (m : Memberlist) (a : awareness) : Admin cfg m { m with awareness := a }
  | nextIncarnation (m : Memberlist) : Admin cfg m m.nextIncarnation.1
  | leave (m : Memberlist) : Admin cfg m { m with leave := true }

/-- A call of one of the three handlers at the time and with the draws of `env`. -/
inductive Call (cfg : Config) (env : Env) : Memberlist → Memberlist → Prop
  | alive {m m' : Memberlist} {a : alive} {notify : Option Notify} {bootstrap : Bool}
      {eff : List Effect} : m.aliveNode cfg env a notify bootstrap = .ok (m', eff) → Call cfg env m m'
  | suspect {m m' : Memberlist} {s : suspect} {eff : List Effect} :
      m.suspectNode cfg env.now s = (m', eff) → Call cfg env m m'
  | dead {m m' : Memberlist} {d : dead} {eff : List Effect} :
      m.deadNode cfg env.now d = (m', eff) → Call cfg env m m'

/-- What a step is made of: bookkeeping, at most one handler call, bookkeeping. -/
def StepShape (cfg : Config) (env : Env) (m m' : Memberlist) : Prop :=
  ∃ m₁ m₂, Relation.ReflTransGen (Admin cfg) m m₁ ∧ (m₂ = m₁ ∨ Call cfg env m₁ m₂) ∧
    Relation.ReflTransGen (Admin cfg) m₂ m'

namespace StepShape

variable {cfg : Config} {env : Env} {m m₁ m' : Memberlist}

theorem of_admin (h : Relation.ReflTransGen (Admin cfg) m m') : StepShape cfg env m m' :=
  ⟨m, m, .refl, .inl rfl, h⟩

theorem of_call (h : Call cfg env m m') : StepShape cfg env m m' :=
  ⟨m, m', .refl, .inr h, .refl⟩

theorem admin_left (h₁ : Relation.ReflTransGen (Admin cfg) m m₁) (h₂ : StepShape cfg env m₁ m') :
    StepShape cfg env m m' := by
  obtain ⟨a, b, ha, hc, hb⟩ := h₂
  exact ⟨a, b, h₁.trans ha, hc, hb⟩

theorem admin_right (h₁ : StepShape cfg env m m₁) (h₂ : Relation.ReflTransGen (Admin cfg) m₁ m') :
    StepShape cfg env m m' := by
  obtain ⟨a, b, ha, hc, hb⟩ := h₁
  exact ⟨a, b, ha, hc, hb.trans h₂⟩

end StepShape

namespace Memberlist

variable {cfg : Config} {env : Env}

theorem mergeOne_shape {m m' : Memberlist} {r : pushNodeState} {eff : List Effect}
    (h : m.mergeOne cfg env r = .ok (m', eff)) : m' = m ∨ Call cfg env m m' := by
  unfold mergeOne at h
  split_ifs at h
  · exact .inr (.alive h)
  · exact .inr (.dead (Except.ok.inj h))
  · exact .inr (.suspect (Except.ok.inj h))
  · simp only [Except.ok.injEq, Prod.mk.injEq] at h
    exact .inl h.1.symm

theorem runPending_shape {m m' : Memberlist} {w : Pending} {eff : List Effect}
    (h : m.runPending cfg env w = .ok (m', eff)) : StepShape cfg env m m' := by
  cases w with
  | suspicionTimeout node changeTime =>
    simp only [runPending] at h
    split at h
    · cases h
      exact .of_admin .refl
    · split_ifs at h
      · cases h
        exact .of_admin (.single (.pending _ _))
      · cases h
        exact .of_admin .refl
  | markDead d =>
    exact .of_call (.dead (Except.ok.inj h))
  | probeWait node =>
    simp only [runPending, Except.ok.injEq, Prod.mk.injEq] at h
    obtain ⟨rfl, -⟩ := h
    split
    · exact .of_admin (.single (.awareness _ _))
    · exact (StepShape.of_call (.suspect rfl)).admin_right (.single (.awareness _ _))
  | merging remote =>
    cases remote with
    | nil =>
      cases h
      exact .of_admin .refl
    | cons r rest =>
      obtain ⟨⟨m₁, eff₁⟩, h₁, h₂⟩ := bind_eq_ok.mp h
      cases h₂
      rcases mergeOne_shape h₁ with rfl | hc
      · exact .of_admin (.single (.pending _ _))
      · exact (StepShape.of_call hc).admin_right (.single (.pending _ _))

theorem probeLoop_admin (m : Memberlist) (numCheck : Nat) :
    Relation.ReflTransGen (Admin cfg) m (m.probeLoop cfg env numCheck).1 := by
  fun_induction probeLoop cfg m env numCheck with
  | case1 => exact .refl
  | case2 m numCheck _ _ ih =>
    exact (Relation.ReflTransGen.single (.reset m env)).trans
      ((Relation.ReflTransGen.single (.probeIndex _ 0)).trans ih)
  | case3 m numCheck _ _ node m' _ ih =>
    exact (Relation.ReflTransGen.single (.probeIndex m _)).trans ih
  | case4 m numCheck _ _ node m' _ =>
    exact (Relation.ReflTransGen.single (.probeIndex m _)).trans
      (.single (.pending _ _))

/-! The four ways through the loop of `probe`, for following it on a given state. -/

theorem probeLoop_done {m : Memberlist} {numCheck : Nat} (h : m.nodes.length ≤ numCheck) :
    m.probeLoop cfg env numCheck = (m, []) := by
  rw [probeLoop, if_pos h]

theorem probeLoop_wrap {m : Memberlist} {numCheck : Nat} (hn : numCheck < m.nodes.length)
    (hi : m.nodes.length ≤ m.probeIndex) :
    m.probeLoop cfg env numCheck =
      { m.resetNodes cfg env with probeIndex := 0 }.probeLoop cfg env (numCheck + 1) := by
  rw [probeLoop, if_neg (Nat.not_le.mpr hn), if_pos hi]

theorem probeLoop_skip {m : Memberlist} {numCheck : Nat} (hn : numCheck < m.nodes.length)
    (hi : m.probeIndex < m.nodes.length)
    (hskip : (m.heap (m.nodes.getD m.probeIndex 0)).Node.Name = cfg.Name ∨
      (m.heap (m.nodes.getD m.probeIndex 0)).DeadOrLeft) :
    m.probeLoop cfg env numCheck =
      { m with probeIndex := m.probeIndex + 1 }.probeLoop cfg env (numCheck + 1) := by
  rw [probeLoop, if_neg (Nat.not_le.mpr hn), if_neg (Nat.not_le.mpr hi)]
  exact if_pos hskip

theorem probeLoop_probe {m : Memberlist} {numCheck : Nat} (hn : numCheck < m.nodes.length)
    (hi : m.probeIndex < m.nodes.length)
    (hprobe : ¬ ((m.heap (m.nodes.getD m.probeIndex 0)).Node.Name = cfg.Name ∨
      (m.heap (m.nodes.getD m.probeIndex 0)).DeadOrLeft)) :
    m.probeLoop cfg env numCheck =
      { m with probeIndex := m.probeIndex + 1 }.probeNode cfg
        (m.heap (m.nodes.getD m.probeIndex 0)) := by
  rw [probeLoop, if_neg (Nat.not_le.mpr hn), if_neg (Nat.not_le.mpr hi)]
  exact if_neg hprobe

theorem Leave_admin (m : Memberlist) : Relation.ReflTransGen (Admin cfg) m (m.Leave cfg) := by
  unfold Leave
  split
  · exact .refl
  · dsimp only
    split
    · exact .single (.leave m)
    · exact (Relation.ReflTransGen.single (.leave m)).trans (.single (.pending _ _))

theorem mergeRemoteState_ok {m m' : Memberlist} {join : Bool} {remote : List pushNodeState}
    (h : m.mergeRemoteState cfg env join remote = .ok (.ok m')) :
    m' = { m with pending := m.pending ++ [.merging remote] } := by
  unfold mergeRemoteState at h
  obtain ⟨v, -, h⟩ := bind_eq_ok.mp h
  split at h
  · cases h
  · dsimp only at h
    split at h
    · obtain ⟨-, -, h⟩ := bind_eq_ok.mp h
      split at h
      · cases h
        rfl
      · cases h
    · cases h
      rfl

/-- **Every step is bookkeeping around at most one handler call.** -/
theorem step_shape {m m' : Memberlist} {op : Op} {eff : List Effect}
    (h : m.step cfg env op = .ok (m', eff)) : StepShape cfg env m m' := by
  cases op with
  | alive a => exact .of_call (.alive h)
  | suspect s => exact .of_call (.suspect (Except.ok.inj h))
  | dead d => exact .of_call (.dead (Except.ok.inj h))
  | pushPull join remote =>
    obtain ⟨r, hr, h⟩ := bind_eq_ok.mp h
    cases r with
    | ok m₁ =>
      cases h
      rw [mergeRemoteState_ok hr]
      exact .of_admin (.single (.pending _ _))
    | error e =>
      cases h
      exact .of_admin .refl
  | sendState =>
    cases h
    exact .of_admin .refl
  | fire i =>
    simp only [step] at h
    split at h
    · cases h
      exact .of_admin .refl
    · exact StepShape.admin_left (.single (.pending _ _)) (runPending_shape h)
  | probe =>
    have hm : m' = (m.probe cfg env).1 := by
      rw [Except.ok.inj h]
    rw [hm]
    exact .of_admin (probeLoop_admin m 0)
  | setAlive addr port nodeMeta =>
    simp only [step, setAlive] at h
    split at h
    · cases h
    · exact StepShape.admin_left (.single (.nextIncarnation m)) (.of_call (.alive h))
  | updateNode nodeMeta =>
    simp only [step, UpdateNode] at h
    split at h
    · cases h
    · split at h
      · cases h
      · exact StepShape.admin_left (.single (.nextIncarnation m)) (.of_call (.alive h))
  | leave =>
    cases h
    exact .of_admin (Leave_admin m)

end Memberlist

end memberlist
