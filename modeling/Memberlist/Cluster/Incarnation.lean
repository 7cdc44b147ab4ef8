import Memberlist.Cluster.Basic
import Memberlist.State.Timers

/-!
# The incarnation bound of a cluster

Only the node `X` itself mints incarnations for `X`: `setAlive` and `UpdateNode` take the next
value of its counter, and `refute` takes one past it.  Every other path copies an incarnation it
was given: `aliveNode`, `suspectNode` and `deadNode` store the one of their message, a probe and
a suspicion timeout build their message from a record, `mergeState` turns received records into
messages, and `sendLocalState` ships the records.  So every incarnation for `X` anywhere in the
cluster is at most `X`'s counter, and a refutation, one past the counter, beats all of them.

* `Wire.Carries`, `Pending.Carries`, `BoundedBy`, `Bounded` — the incarnations held, and the
  bound `B` on them by node.
* `CallPre`, `KeepsBound` — what a call of one instance needs and what it keeps: the counter
  does not go down, and everything the instance holds or sends stays within the bound, its own
  name's bound being its new counter.
* `refute_keeps`, `aliveUpdate_keeps`, `aliveNode_keeps`, `suspectNode_keeps`,
  `deadNode_keeps`, `runPending_keeps`, `probeLoop_keeps`, `step_keeps` — one per function.
* `ClusterInv` — the invariant of the cluster; `cluster_incarnation_bound`.
-/

namespace memberlist

open Go

/-- The node a message is about. -/
def Message.target : Message → String
  | .alive a => a.Node
  | .suspect s => s.Node
  | .dead d => d.Node

/-- The incarnation a message carries. -/
def Message.incarnation : Message → UInt32
  | .alive a => a.Incarnation
  | .suspect s => s.Incarnation
  | .dead d => d.Incarnation

/-- The wire carries the incarnation `i` for the node `X`. -/
def Wire.Carries (X : String) (i : UInt32) : Wire → Prop
  | .msg m => m.target = X ∧ m.incarnation = i
  | .state nodes => ∃ r ∈ nodes, r.Name = X ∧ r.Incarnation = i

/-- The pending work carries the incarnation `i` for the node `X`. -/
def Pending.Carries (X : String) (i : UInt32) : Pending → Prop
  | .suspicionTimeout _ _ => False
  | .markDead d => d.Node = X ∧ d.Incarnation = i
  | .probeWait node => node.Node.Name = X ∧ node.Incarnation = i
  | .merging remote => ∃ r ∈ remote, r.Name = X ∧ r.Incarnation = i

/-- Every incarnation `carries` holds, for any node, is within that node's bound. -/
def BoundedBy (B : String → Nat) (carries : String → UInt32 → Prop) : Prop :=
  ∀ X i, carries X i → i.toNat ≤ B X

/-- The records of `nodeMap` and the pending work are within the bound. -/
structure Bounded (B : String → Nat) (m : Memberlist) : Prop where
  records : ∀ k p, m.nodeMap.lookup k = some p → (m.heap p).Incarnation.toNat ≤ B k
  pending : ∀ w ∈ m.pending, BoundedBy B (fun X i => w.Carries X i)

/-- What the effects send is within the bound. -/
def EffectsBounded (B : String → Nat) (eff : List Effect) : Prop :=
  ∀ e ∈ eff, ∀ w, e.wire = some w → BoundedBy B (fun X i => w.Carries X i)

/-- What a call of the instance named `cfg.Name` needs: `Rep`, everything within `B`, its own
    bound its counter, and room for one more incarnation. -/
structure CallPre (cfg : Config) (B : String → Nat) (m : Memberlist) : Prop where
  rep : Rep m
  bounded : Bounded B m
  own : B cfg.Name = m.incarnation.toNat
  room : m.incarnation.toNat < maxIncarnation

/-- What a call from `m` to `m'` with effects `eff` keeps: the counter does not go down, and
    the records, the pending work and the effects are within `B` with the instance's own bound
    moved to its new counter. -/
structure KeepsBound (cfg : Config) (B : String → Nat) (m m' : Memberlist) (eff : List Effect) :
    Prop where
  counter : m.incarnation.toNat ≤ m'.incarnation.toNat
  state : Bounded (Function.update B cfg.Name m'.incarnation.toNat) m'
  effects : EffectsBounded (Function.update B cfg.Name m'.incarnation.toNat) eff

section Bounds

variable {B B' : String → Nat} {m m' : Memberlist}

theorem BoundedBy.mono {carries : String → UInt32 → Prop} (h : BoundedBy B carries)
    (hle : ∀ X, B X ≤ B' X) : BoundedBy B' carries :=
  fun X i hc => Nat.le_trans (h X i hc) (hle X)

theorem Bounded.mono (h : Bounded B m) (hle : ∀ X, B X ≤ B' X) : Bounded B' m where
  records k p hk := Nat.le_trans (h.records k p hk) (hle k)
  pending w hw := (h.pending w hw).mono hle

theorem EffectsBounded.mono {eff : List Effect} (h : EffectsBounded B eff)
    (hle : ∀ X, B X ≤ B' X) : EffectsBounded B' eff :=
  fun e he w hw => (h e he w hw).mono hle

theorem EffectsBounded.append {eff eff' : List Effect} (h : EffectsBounded B eff)
    (h' : EffectsBounded B eff') : EffectsBounded B (eff ++ eff') := by
  intro e he
  rcases List.mem_append.mp he with he | he
  · exact h e he
  · exact h' e he

/-- Effects that send nothing. -/
theorem EffectsBounded.of_silent {eff : List Effect} (h : ∀ e ∈ eff, e.wire = none) :
    EffectsBounded B eff := by
  intro e he w hw
  rw [h e he] at hw
  cases hw

/-- A message within the bound, sent. -/
theorem EffectsBounded.msg {msg : Message} (h : msg.incarnation.toNat ≤ B msg.target)
    {e : Effect} (he : e.wire = some (.msg msg)) : EffectsBounded B [e] := by
  intro e' he' w hw
  rw [List.mem_singleton.mp he', he] at hw
  cases hw
  rintro X i ⟨rfl, rfl⟩
  exact h

/-- Raising one node's bound to at least what it was. -/
theorem le_update {X : String} {n : Nat} (h : B X ≤ n) : ∀ Z, B Z ≤ Function.update B X n Z := by
  intro Z
  by_cases hZ : Z = X
  · subst hZ
    simpa using h
  · simp [Function.update_of_ne hZ]

/-- The same records and pending work. -/
theorem Bounded.of_eq (h : Bounded B m) (hmap : m'.nodeMap = m.nodeMap) (hheap : m'.heap = m.heap)
    (hpend : m'.pending = m.pending) : Bounded B m' where
  records k p hk := by
    rw [hmap] at hk
    rw [hheap]
    exact h.records k p hk
  pending w hw := h.pending w (hpend ▸ hw)

/-- One record written, and pending work added within the bound. -/
theorem Bounded.of_write (hrep : Rep m) (h : Bounded B m) {k : String} {p : Ptr}
    (hk : m.nodeMap.lookup k = some p) (hmap : m'.nodeMap = m.nodeMap)
    (hheap : ∀ q, q ≠ p → m'.heap q = m.heap q) (hst : (m'.heap p).Incarnation.toNat ≤ B k)
    (hpend : ∀ w ∈ m'.pending, w ∈ m.pending ∨ BoundedBy B (fun X i => w.Carries X i)) :
    Bounded B m' where
  records k' q hk' := by
    rw [hmap] at hk'
    by_cases hq : q = p
    · subst hq
      -- the record has one name, so `k'` is `k`
      have hkk : k' = k := (hrep.name_eq k' q hk').symm.trans (hrep.name_eq k q hk)
      rw [hkk]
      exact hst
    · rw [hheap q hq]
      exact h.records k' q hk'
  pending w hw := (hpend w hw).elim (h.pending w) id

/-- A record held in `nodes` is within the bound of its name. -/
theorem Bounded.mem_nodes (hrep : Rep m) (h : Bounded B m) {q : Ptr} (hq : q ∈ m.nodes) :
    (m.heap q).Incarnation.toNat ≤ B (m.heap q).Node.Name :=
  h.records _ q (hrep.lookup_name q hq)

end Bounds

section Keeps

variable {cfg : Config} {env : Env} {B : String → Nat} {m m₁ m' : Memberlist} {eff : List Effect}

/-- One more incarnation, where there is room for it. -/
theorem incarnation_succ_toNat {c : UInt32} (hc : c.toNat < maxIncarnation) :
    (c + 1).toNat = c.toNat + 1 := by
  unfold maxIncarnation at hc
  rw [UInt32.toNat_add, UInt32.toNat_one]
  omega

/-- `refute` with an accusation no newer than the counter takes the next incarnation. -/
theorem refuteIncarnation_of_le {c i : UInt32} (hc : c.toNat < maxIncarnation)
    (hi : i.toNat ≤ c.toNat) : Memberlist.refuteIncarnation c i = c + 1 := by
  have hn := incarnation_succ_toNat hc
  unfold Memberlist.refuteIncarnation
  rw [if_neg]
  rw [ge_iff_le, UInt32.le_iff_toNat_le, hn]
  omega

/-- The delegate notifications send nothing. -/
theorem aliveEvents_silent (s : NodeStateType) (oldMeta : List UInt8) (n : Node) :
    ∀ e ∈ aliveEvents cfg s oldMeta n, e.wire = none := by
  intro e he
  unfold aliveEvents at he
  split_ifs at he <;> simp_all [Effect.wire]

theorem KeepsBound.refl (hp : CallPre cfg B m) : KeepsBound cfg B m m [] where
  counter := Nat.le_refl _
  state := by rw [← hp.own, Function.update_eq_self]; exact hp.bounded
  effects := EffectsBounded.of_silent (by simp)

/-- A call that leaves the counter, the records and the pending work, and sends nothing. -/
theorem KeepsBound.of_eq (hp : CallPre cfg B m) (hinc : m'.incarnation = m.incarnation)
    (hmap : m'.nodeMap = m.nodeMap) (hheap : m'.heap = m.heap) (hpend : m'.pending = m.pending)
    (heff : ∀ e ∈ eff, e.wire = none) : KeepsBound cfg B m m' eff where
  counter := by rw [hinc]
  state := by
    rw [hinc, ← hp.own, Function.update_eq_self]
    exact hp.bounded.of_eq hmap hheap hpend
  effects := EffectsBounded.of_silent heff

/-- A call after a change of the counter that kept it from going down. -/
theorem KeepsBound.bump (hle : m.incarnation.toNat ≤ m₁.incarnation.toNat)
    (h : KeepsBound cfg (Function.update B cfg.Name m₁.incarnation.toNat) m₁ m' eff) :
    KeepsBound cfg B m m' eff where
  counter := Nat.le_trans hle h.counter
  state := by simpa only [Function.update_idem] using h.state
  effects := by simpa only [Function.update_idem] using h.effects

/-- A call after a change that left the counter. -/
theorem KeepsBound.of_same_counter (hp : CallPre cfg B m) (he : m₁.incarnation = m.incarnation)
    (h : KeepsBound cfg B m₁ m' eff) : KeepsBound cfg B m m' eff := by
  refine KeepsBound.bump (by rw [he]) ?_
  rw [he, ← hp.own, Function.update_eq_self]
  exact h

/-- A call that leaves the counter keeps the bound it starts with. -/
theorem KeepsBound.of_counter_eq (hp : CallPre cfg B m) (hinc : m'.incarnation = m.incarnation)
    (hstate : Bounded B m') (heff : EffectsBounded B eff) : KeepsBound cfg B m m' eff where
  counter := by rw [hinc]
  state := by
    rw [hinc, ← hp.own, Function.update_eq_self]
    exact hstate
  effects := by
    rw [hinc, ← hp.own, Function.update_eq_self]
    exact heff

/-- A call that writes a record of `nodeMap` under its bound, adds pending work within the
    bound, and sends within the bound, without touching the counter. -/
theorem KeepsBound.of_write (hp : CallPre cfg B m) {k : String} {p : Ptr}
    (hk : m.nodeMap.lookup k = some p) (hinc : m'.incarnation = m.incarnation)
    (hmap : m'.nodeMap = m.nodeMap) (hheap : ∀ q, q ≠ p → m'.heap q = m.heap q)
    (hst : (m'.heap p).Incarnation.toNat ≤ B k)
    (hpend : ∀ w ∈ m'.pending, w ∈ m.pending ∨ BoundedBy B (fun X i => w.Carries X i))
    (heff : EffectsBounded B eff) : KeepsBound cfg B m m' eff :=
  .of_counter_eq hp hinc (hp.bounded.of_write hp.rep hk hmap hheap hst hpend) heff

theorem CallPre.of_eq (hp : CallPre cfg B m) (hinc : m'.incarnation = m.incarnation)
    (hnodes : m'.nodes = m.nodes) (hmap : m'.nodeMap = m.nodeMap)
    (hnum : m'.numNodes = m.numNodes) (hnext : m'.nextPtr = m.nextPtr) (hheap : m'.heap = m.heap)
    (hpend : ∀ w ∈ m'.pending, w ∈ m.pending) : CallPre cfg B m' where
  rep := hp.rep.sameShape ⟨hnodes, hmap, hnum, hnext, fun q => by rw [hheap]⟩
  bounded := ⟨fun k q hk => by rw [hheap]; exact hp.bounded.records k q (hmap ▸ hk),
    fun w hw => hp.bounded.pending w (hpend w hw)⟩
  own := by rw [hinc]; exact hp.own
  room := by rw [hinc]; exact hp.room

/-- **`refute` mints the next incarnation**, beyond every accusation no newer than the counter,
    and stores and broadcasts it. -/
theorem refute_keeps (hp : CallPre cfg B m) {p : Ptr} {i : UInt32}
    (hq : m.nodeMap.lookup cfg.Name = some p) (hi : i.toNat ≤ m.incarnation.toNat) :
    KeepsBound cfg B m (m.refute p i).1 (m.refute p i).2 := by
  have hr := refuteIncarnation_of_le hp.room hi
  have hn := incarnation_succ_toNat hp.room
  have hname : (m.heap p).Node.Name = cfg.Name := hp.rep.name_eq _ p hq
  have hle : ∀ Z, B Z ≤ Function.update B cfg.Name (m.incarnation + 1).toNat Z :=
    le_update (by rw [hp.own, hn]; omega)
  refine ⟨?_, ?_, ?_⟩
  · simp only [Memberlist.refute_incarnation, hr, hn]
    omega
  · simp only [Memberlist.refute_incarnation, hr]
    refine (hp.bounded.mono hle).of_write hp.rep hq rfl (fun q hq => ?_) ?_ (fun w hw => .inl hw)
    · simp [Function.update_of_ne hq]
    · simp [hr]
  · simp only [Memberlist.refute_incarnation, hr]
    rw [Memberlist.refute_effects]
    refine EffectsBounded.msg ?_ rfl
    simp [Message.incarnation, Message.target, hname, hr]

end Keeps

section Handlers

variable {cfg : Config} {env : Env} {B : String → Nat} {m m' : Memberlist} {eff : List Effect}

/-- `aliveUpdate` on the record of `a.Node`: the message's incarnation, or a refutation. -/
theorem aliveUpdate_keeps (hp : CallPre cfg B m) {now : Int} {a : alive} {notify : Option Notify}
    {bootstrap : Bool} {p : Ptr} {updatesNode : Bool} (hk : m.nodeMap.lookup a.Node = some p)
    (ha : a.Incarnation.toNat ≤ B a.Node)
    (hup : m.aliveUpdate cfg now a notify bootstrap p updatesNode = .ok (m', eff)) :
    KeepsBound cfg B m m' eff := by
  rcases Memberlist.aliveUpdate_cases hup with ⟨rfl, rfl⟩ |
      ⟨-, -, ⟨-, hloc, ⟨rfl, rfl⟩ | ⟨rfl, rfl⟩⟩ | ⟨-, st, hst, rfl, rfl⟩⟩
  · exact .refl hp
  · -- the local record needs no refutation: only the timer is cleared
    exact .of_eq hp rfl rfl rfl rfl (by simp)
  · -- the local record refutes an accusation no newer than its counter
    have hX : a.Node = cfg.Name := (hp.rep.name_eq _ p hk).symm.trans hloc
    have hp' : CallPre cfg B { m with nodeTimers := m.nodeTimers.erase a.Node } :=
      hp.of_eq rfl rfl rfl rfl rfl rfl fun _ hw => hw
    have hi : a.Incarnation.toNat ≤ m.incarnation.toNat := by rw [← hp.own, ← hX]; exact ha
    have hr := refute_keeps hp' (hX ▸ hk) hi
    exact ⟨hr.counter, hr.state, hr.effects.append (.of_silent (aliveEvents_silent _ _ _))⟩
  · -- the record takes the message's incarnation, and the message is re-broadcast
    have hinc : st.Incarnation = a.Incarnation := (applyAlive_ok hst).2.2.1
    have heff : EffectsBounded B [.broadcast (.node a.Node) (.alive a) notify] :=
      EffectsBounded.msg ha rfl
    refine .of_write hp hk rfl rfl (fun q hq => by simp [hq]) ?_ (fun w hw => .inl hw)
      (heff.append (.of_silent (aliveEvents_silent _ _ _)))
    simpa [hinc] using ha

theorem aliveNode_keeps (hp : CallPre cfg B m) {a : alive} {notify : Option Notify}
    {bootstrap : Bool} (ha : a.Incarnation.toNat ≤ B a.Node)
    (hal : m.aliveNode cfg env a notify bootstrap = .ok (m', eff)) :
    KeepsBound cfg B m m' eff := by
  rcases Memberlist.aliveNode_cases hal with ⟨rfl, heff⟩ |
      ⟨-, ⟨hnone, -, m₁, p, hins, hup⟩ | ⟨p, hk, -, -, hup⟩ | ⟨p, hk, -, -, -, hup⟩⟩
  · refine .of_eq hp rfl rfl rfl rfl ?_
    rcases heff with rfl | ⟨n, o, rfl⟩ <;> simp [Effect.wire]
  · -- a fresh record at incarnation zero, then `aliveUpdate` on it
    have hrep₁ := hp.rep.insertNode hnone (newRecord_name a) hins
    obtain ⟨rfl, offset, -, rfl⟩ := Memberlist.insertNode_eq hins
    have hb₁ : Bounded B { m with
        heap := Function.update m.heap m.nextPtr (newRecord a), nextPtr := m.nextPtr + 1,
        nodeMap := m.nodeMap.insert a.Node m.nextPtr,
        nodes := (m.nodes ++ [m.nextPtr]).swap offset m.nodes.length,
        numNodes := m.numNodes + 1 } := by
      refine ⟨fun k q hk => ?_, hp.bounded.pending⟩
      by_cases hka : k = a.Node
      · subst hka
        simp only [AList.lookup_insert, Option.some.injEq] at hk
        subst hk
        simp [newRecord]
        split <;> simp
      · simp only [AList.lookup_insert_ne hka] at hk
        have hq : q ≠ m.nextPtr :=
          Nat.ne_of_lt (hp.rep.lt_nextPtr q (hp.rep.mem_nodes k q hk))
        simpa [Function.update_of_ne hq] using hp.bounded.records k q hk
    have hp₁ : CallPre cfg B _ := ⟨hrep₁, hb₁, hp.own, hp.room⟩
    exact KeepsBound.of_same_counter hp (by rfl) (aliveUpdate_keeps hp₁ (by simp) ha hup)
  · exact aliveUpdate_keeps hp hk ha hup
  · exact aliveUpdate_keeps hp hk ha hup

theorem suspectNode_keeps (hp : CallPre cfg B m) {now : Int} {s : suspect}
    (hs : s.Incarnation.toNat ≤ B s.Node) (hsn : m.suspectNode cfg now s = (m', eff)) :
    KeepsBound cfg B m m' eff := by
  have hmsg : EffectsBounded B [.broadcast (.node s.Node) (.suspect s) none] :=
    EffectsBounded.msg hs rfl
  rcases Memberlist.suspectNode_cases hsn with ⟨rfl, rfl⟩ |
      ⟨p, hk, -, ⟨t, -, rfl, rfl⟩ | ⟨-, -, ⟨hloc, hr⟩ | ⟨-, k, rfl, rfl⟩⟩⟩
  · exact .refl hp
  · -- a running suspicion is confirmed, and maybe re-broadcast
    refine .of_write hp hk rfl rfl (fun _ _ => rfl) (hp.bounded.records _ p hk)
      (fun w hw => .inl hw) ?_
    split
    · exact hmsg
    · exact .of_silent (by simp)
  · -- the local node refutes
    have hX : s.Node = cfg.Name := (hp.rep.name_eq _ p hk).symm.trans hloc
    have hi : s.Incarnation.toNat ≤ m.incarnation.toNat := by rw [← hp.own, ← hX]; exact hs
    obtain ⟨rfl, rfl⟩ := Prod.mk.inj hr
    exact refute_keeps hp (hX ▸ hk) hi
  · -- the record takes the suspicion's incarnation, and a timer is armed
    refine .of_write hp hk rfl rfl (fun q hq => by simp [hq]) (by simpa using hs) ?_ hmsg
    intro w hw
    rcases List.mem_append.mp hw with hw | hw
    · exact .inl hw
    · rw [List.mem_singleton.mp hw]
      exact .inr fun _ _ h => h.elim

theorem deadNode_keeps (hp : CallPre cfg B m) {now : Int} {d : dead}
    (hd : d.Incarnation.toNat ≤ B d.Node) (hdn : m.deadNode cfg now d = (m', eff)) :
    KeepsBound cfg B m m' eff := by
  rcases Memberlist.deadNode_cases hdn with ⟨rfl, rfl⟩ |
      ⟨p, hk, -, ⟨-, rfl, rfl⟩ | ⟨-, hloc, -, hr⟩ | ⟨-, -, rfl, rfl⟩⟩
  · exact .refl hp
  · exact .of_eq hp rfl rfl rfl rfl (by simp)
  · -- the local node refutes
    have hX : d.Node = cfg.Name := (hp.rep.name_eq _ p hk).symm.trans hloc
    have hi : d.Incarnation.toNat ≤ m.incarnation.toNat := by rw [← hp.own, ← hX]; exact hd
    have hp' : CallPre cfg B { m with nodeTimers := m.nodeTimers.erase d.Node } :=
      hp.of_eq rfl rfl rfl rfl rfl rfl fun _ hw => hw
    obtain ⟨rfl, rfl⟩ := Prod.mk.inj hr
    exact KeepsBound.of_same_counter hp (by rfl) (refute_keeps hp' (hX ▸ hk) hi)
  · -- the record takes the message's incarnation, and the message is re-broadcast
    have heff : EffectsBounded B [.broadcast (.node d.Node) (.dead d)
        (if (m.heap p).Node.Name = cfg.Name then some .leaveBroadcast else none)] :=
      EffectsBounded.msg hd rfl
    have hleave : ∀ e ∈ (if cfg.Events then [Effect.notifyLeave (m.heap p).Node] else []),
        e.wire = none := by
      split <;> simp [Effect.wire]
    exact .of_write hp hk rfl rfl (fun q hq => by simp [hq]) (by simpa using hd)
      (fun w hw => .inl hw) (heff.append (.of_silent hleave))

end Handlers

section Steps

variable {cfg : Config} {env : Env} {B : String → Nat} {m m' : Memberlist} {eff : List Effect}

/-- A call that keeps the counter and the records, adds pending work within the bound and
    sends within the bound. -/
theorem KeepsBound.of_pending (hp : CallPre cfg B m) (hinc : m'.incarnation = m.incarnation)
    (hmap : m'.nodeMap = m.nodeMap) (hheap : m'.heap = m.heap)
    (hpend : ∀ w ∈ m'.pending, w ∈ m.pending ∨ BoundedBy B (fun X i => w.Carries X i))
    (heff : EffectsBounded B eff) : KeepsBound cfg B m m' eff := by
  refine .of_counter_eq hp hinc ⟨fun k q hk => ?_, fun w hw => (hpend w hw).elim (hp.bounded.pending w) id⟩
    heff
  rw [hheap]
  exact hp.bounded.records k q (hmap ▸ hk)

/-- One item of pending work within the bound, queued. -/
theorem queued_bounded {w : Pending} (hw : BoundedBy B (fun X i => w.Carries X i)) :
    ∀ w' ∈ m.pending ++ [w], w' ∈ m.pending ∨ BoundedBy B (fun X i => w'.Carries X i) := by
  intro w' hw'
  rcases List.mem_append.mp hw' with h | h
  · exact .inl h
  · rw [List.mem_singleton.mp h]
    exact .inr hw

/-- The dead message built from the record of `node`: within the bound of `node`. -/
theorem markDead_bounded (hp : CallPre cfg B m) {node from_ : String} {p : Ptr}
    (hk : m.nodeMap.lookup node = some p) :
    BoundedBy B (fun X i => (Pending.markDead
      { Incarnation := (m.heap p).Incarnation, Node := (m.heap p).Node.Name, From := from_ }).Carries
        X i) := by
  rintro X i ⟨hX, rfl⟩
  rw [← hX, hp.rep.name_eq node p hk]
  exact hp.bounded.records node p hk

theorem mergeOne_keeps (hp : CallPre cfg B m) {r : pushNodeState}
    (hr : r.Incarnation.toNat ≤ B r.Name) (h : m.mergeOne cfg env r = .ok (m', eff)) :
    KeepsBound cfg B m m' eff := by
  unfold Memberlist.mergeOne at h
  split_ifs at h
  · exact aliveNode_keeps hp hr h
  · exact deadNode_keeps hp hr (Except.ok.inj h)
  · exact suspectNode_keeps hp hr (Except.ok.inj h)
  · obtain ⟨rfl, rfl⟩ := Prod.mk.inj (Except.ok.inj h)
    exact .refl hp

theorem runPending_keeps (hp : CallPre cfg B m) {w : Pending}
    (hw : BoundedBy B (fun X i => w.Carries X i)) (h : m.runPending cfg env w = .ok (m', eff)) :
    KeepsBound cfg B m m' eff := by
  cases w with
  | suspicionTimeout node changeTime =>
    simp only [Memberlist.runPending] at h
    split at h
    · obtain ⟨rfl, rfl⟩ := Prod.mk.inj (Except.ok.inj h)
      exact .refl hp
    rename_i p hk
    split_ifs at h
    · -- the timer fires: a dead message built from the record
      obtain ⟨rfl, rfl⟩ := Prod.mk.inj (Except.ok.inj h)
      exact .of_pending hp rfl rfl rfl (queued_bounded (markDead_bounded hp hk))
        (.of_silent (by simp))
    · obtain ⟨rfl, rfl⟩ := Prod.mk.inj (Except.ok.inj h)
      exact .refl hp
  | markDead d =>
    exact deadNode_keeps hp (hw d.Node d.Incarnation ⟨rfl, rfl⟩) (Except.ok.inj h)
  | probeWait node =>
    simp only [Memberlist.runPending, Except.ok.injEq, Prod.mk.injEq] at h
    obtain ⟨rfl, rfl⟩ := h
    split
    · exact .of_eq hp rfl rfl rfl rfl (by simp)
    · -- no ack: a suspicion built from the copied record; the awareness is not bounded
      have hsn : m.suspectNode cfg env.now
          { Incarnation := node.Incarnation, Node := node.Node.Name, From := cfg.Name } = (_, _) :=
        rfl
      have hs := suspectNode_keeps hp (hw node.Node.Name node.Incarnation ⟨rfl, rfl⟩) hsn
      exact ⟨hs.counter, ⟨hs.state.records, hs.state.pending⟩, hs.effects⟩
  | merging remote =>
    cases remote with
    | nil =>
      obtain ⟨rfl, rfl⟩ := Prod.mk.inj (Except.ok.inj h)
      exact .refl hp
    | cons r rest =>
      obtain ⟨⟨m₁, eff₁⟩, h₁, h₂⟩ := bind_eq_ok.mp h
      obtain ⟨rfl, rfl⟩ := Prod.mk.inj (Except.ok.inj h₂)
      have hk := mergeOne_keeps hp (hw r.Name r.Incarnation ⟨r, List.mem_cons_self, rfl, rfl⟩) h₁
      -- the rest of the records, bounded before the call, are bounded after it
      have hrest : BoundedBy (Function.update B cfg.Name m₁.incarnation.toNat)
          (fun X i => (Pending.merging rest).Carries X i) := by
        refine BoundedBy.mono (fun X i hc => ?_) (le_update ?_)
        · obtain ⟨r', hr', hX, hi⟩ := hc
          exact hw X i ⟨r', List.mem_cons_of_mem _ hr', hX, hi⟩
        · rw [hp.own]
          exact hk.counter
      refine ⟨hk.counter, ⟨hk.state.records, fun w hw' => ?_⟩, hk.effects⟩
      rcases queued_bounded hrest w hw' with h | h
      · exact hk.state.pending w h
      · exact h

end Steps

section Ops

variable {cfg : Config} {env : Env} {B : String → Nat} {m m' : Memberlist} {eff : List Effect}

theorem CallPre.resetNodes (hp : CallPre cfg B m) (i : Nat) :
    CallPre cfg B { m.resetNodes cfg env with probeIndex := i } where
  rep := (hp.rep.resetNodes cfg env).sameShape (.of_eq rfl rfl rfl rfl rfl)
  bounded := by
    refine ⟨fun k q hk => ?_, fun w hw => hp.bounded.pending w hw⟩
    -- the reaping only removes entries
    have hk' := Admin.lookup_sub hp.rep (.reset m env) hk
    exact hp.bounded.records k q hk'
  own := hp.own
  room := hp.room

/-- The probe loop: the reaping, the probe index, and a wait and a suspicion built from the
    probed record. -/
theorem probeLoop_keeps (numCheck : Nat) :
    CallPre cfg B m → KeepsBound cfg B m (m.probeLoop cfg env numCheck).1
      (m.probeLoop cfg env numCheck).2 := by
  fun_induction Memberlist.probeLoop cfg m env numCheck with
  | case1 m numCheck _ => exact .refl
  | case2 m numCheck _ _ ih =>
    intro hp
    exact KeepsBound.of_same_counter hp (by rfl) (ih (hp.resetNodes 0))
  | case3 m numCheck _ _ node m' _ ih =>
    intro hp
    exact KeepsBound.of_same_counter hp (by rfl)
      (ih (hp.of_eq rfl rfl rfl rfl rfl rfl fun _ hw => hw))
  | case4 m numCheck _ hidx node m' _ =>
    intro hp
    -- the probed record is one of `nodes`
    have hmem : m.nodes.getD m.probeIndex 0 ∈ m.nodes := by
      rw [List.getD_eq_getElem _ 0 (by omega)]
      exact List.getElem_mem _
    have hnode := hp.bounded.mem_nodes hp.rep hmem
    have hwait : BoundedBy B (fun X i => (Pending.probeWait node).Carries X i) := by
      rintro X i ⟨rfl, rfl⟩
      exact hnode
    refine .of_pending hp rfl rfl rfl (queued_bounded hwait) ?_
    unfold Memberlist.probeNode
    split
    · exact .of_silent (by simp)
    · exact EffectsBounded.msg hnode rfl

theorem Leave_keeps (hp : CallPre cfg B m) : KeepsBound cfg B m (m.Leave cfg) [] := by
  unfold Memberlist.Leave
  split
  · exact .refl hp
  dsimp only
  split
  · exact .of_eq hp rfl rfl rfl rfl (by simp)
  · rename_i p hk
    exact .of_pending hp rfl rfl rfl (queued_bounded (markDead_bounded hp hk))
      (.of_silent (by simp))

/-- An announcement of the local node itself (`bootstrap`) never refutes, so it leaves the
    counter. -/
theorem aliveNode_bootstrap_counter {a : alive} {notify : Option Notify}
    (hal : m.aliveNode cfg env a notify true = .ok (m', eff)) : m'.incarnation = m.incarnation := by
  have hup_counter : ∀ {m₁ : Memberlist} {p : Ptr} {upd : Bool},
      m₁.aliveUpdate cfg env.now a notify true p upd = .ok (m', eff) →
        m'.incarnation = m₁.incarnation := by
    intro m₁ p upd hup
    rcases Memberlist.aliveUpdate_cases hup with ⟨rfl, -⟩ |
        ⟨-, -, ⟨hb, -⟩ | ⟨-, st, -, rfl, -⟩⟩
    · rfl
    · cases hb
    · rfl
  rcases Memberlist.aliveNode_cases hal with ⟨rfl, -⟩ |
      ⟨-, ⟨-, -, m₁, p, hins, hup⟩ | ⟨p, -, -, -, hup⟩ | ⟨p, -, -, -, -, hup⟩⟩
  · rfl
  · obtain ⟨rfl, offset, -, rfl⟩ := Memberlist.insertNode_eq hins
    -- the inserted state has the counter of `m`
    have h₁ := hup_counter hup
    exact h₁
  · exact hup_counter hup
  · exact hup_counter hup

/-- The announcement of the local node at the next incarnation (`setAlive`, `UpdateNode`). -/
theorem announce_keeps (hp : CallPre cfg B m) {a : alive} {notify : Option Notify}
    (hname : a.Node = cfg.Name) (hinc : a.Incarnation = m.incarnation + 1)
    (hmax : m'.incarnation.toNat < maxIncarnation)
    (hal : m.nextIncarnation.1.aliveNode cfg env a notify true = .ok (m', eff)) :
    KeepsBound cfg B m m' eff := by
  have hn := incarnation_succ_toNat hp.room
  have hc : m'.incarnation = m.incarnation + 1 := aliveNode_bootstrap_counter hal
  have hle : m.incarnation.toNat ≤ (m.incarnation + 1).toNat := by rw [hn]; omega
  have hb := hp.bounded.mono (le_update (hp.own ▸ hle))
  have hp₁ : CallPre cfg (Function.update B cfg.Name (m.incarnation + 1).toNat)
      m.nextIncarnation.1 :=
    ⟨hp.rep.sameShape (.of_eq rfl rfl rfl rfl rfl), ⟨hb.records, hb.pending⟩,
      by simp [Memberlist.nextIncarnation],
      show (m.incarnation + 1).toNat < _ by rw [← hc]; exact hmax⟩
  have ha : a.Incarnation.toNat ≤ Function.update B cfg.Name (m.incarnation + 1).toNat a.Node := by
    simp [hname, hinc]
  exact KeepsBound.bump hle (aliveNode_keeps hp₁ ha hal)

/-- **One step of an instance** keeps its records, its pending work and what it sends within
    the bound, given what it receives is within it. -/
theorem step_keeps (hp : CallPre cfg B m) {op : Op}
    (hin : ∀ w, op.input = some w → BoundedBy B (fun X i => w.Carries X i))
    (hmax : m'.incarnation.toNat < maxIncarnation) (hstep : m.step cfg env op = .ok (m', eff)) :
    KeepsBound cfg B m m' eff := by
  cases op with
  | alive a => exact aliveNode_keeps hp (hin _ rfl a.Node a.Incarnation ⟨rfl, rfl⟩) hstep
  | suspect s =>
    exact suspectNode_keeps hp (hin _ rfl s.Node s.Incarnation ⟨rfl, rfl⟩) (Except.ok.inj hstep)
  | dead d =>
    exact deadNode_keeps hp (hin _ rfl d.Node d.Incarnation ⟨rfl, rfl⟩) (Except.ok.inj hstep)
  | pushPull join remote =>
    obtain ⟨r, hr, h⟩ := bind_eq_ok.mp hstep
    cases r with
    | ok m₁ =>
      obtain ⟨rfl, rfl⟩ := Prod.mk.inj (Except.ok.inj h)
      rw [Memberlist.mergeRemoteState_ok hr]
      exact .of_pending hp rfl rfl rfl (queued_bounded (hin _ rfl)) (.of_silent (by simp))
    | error e =>
      obtain ⟨rfl, rfl⟩ := Prod.mk.inj (Except.ok.inj h)
      exact .refl hp
  | sendState =>
    obtain ⟨rfl, rfl⟩ := Prod.mk.inj (Except.ok.inj hstep)
    refine .of_pending hp rfl rfl rfl (fun w hw => .inl hw) ?_
    -- the records shipped are those of `nodes`
    intro e he w hw
    rw [List.mem_singleton.mp he] at hw
    cases hw
    rintro X i ⟨r, hr, rfl, rfl⟩
    obtain ⟨q, hq, rfl⟩ := List.mem_map.mp hr
    exact hp.bounded.mem_nodes hp.rep hq
  | fire i =>
    simp only [Memberlist.step] at hstep
    split at hstep
    · obtain ⟨rfl, rfl⟩ := Prod.mk.inj (Except.ok.inj hstep)
      exact .refl hp
    · rename_i w hw
      have hwm : w ∈ m.pending := List.mem_of_getElem? hw
      have hp₁ : CallPre cfg B { m with pending := m.pending.eraseIdx i } :=
        hp.of_eq rfl rfl rfl rfl rfl rfl fun _ h => List.mem_of_mem_eraseIdx h
      exact KeepsBound.of_same_counter hp (by rfl)
        (runPending_keeps hp₁ (hp.bounded.pending w hwm) hstep)
  | probe =>
    obtain ⟨rfl, rfl⟩ := Prod.mk.inj (Except.ok.inj hstep)
    exact probeLoop_keeps 0 hp
  | setAlive addr port nodeMeta =>
    simp only [Memberlist.step, Memberlist.setAlive] at hstep
    split at hstep
    · cases hstep
    · exact announce_keeps hp rfl rfl hmax hstep
  | updateNode nodeMeta =>
    simp only [Memberlist.step, Memberlist.UpdateNode] at hstep
    split at hstep
    · cases hstep
    · split at hstep
      · cases hstep
      · exact announce_keeps hp rfl rfl hmax hstep
  | leave =>
    obtain ⟨rfl, rfl⟩ := Prod.mk.inj (Except.ok.inj hstep)
    exact Leave_keeps hp

end Ops

/-- The incarnation counters of the instances. -/
def Cluster.counters (c : Cluster) (X : String) : Nat := (c.inst X).incarnation.toNat

/-- An incarnation for `X` held somewhere in the cluster: in a record some instance's `nodeMap`
    holds under `X`, on the network, or in some instance's pending work. -/
def Cluster.Holds (c : Cluster) (X : String) (i : UInt32) : Prop :=
  (∃ Y p, (c.inst Y).nodeMap.lookup X = some p ∧ ((c.inst Y).heap p).Incarnation = i) ∨
    (∃ w ∈ c.net, w.Carries X i) ∨ (∃ Y, ∃ w ∈ (c.inst Y).pending, w.Carries X i)

/-- The invariant of the cluster: every instance keeps `Rep` and has room for one more
    incarnation, and what every instance holds and everything sent is within the counters. -/
structure ClusterInv (c : Cluster) : Prop where
  rep : ∀ X, Rep (c.inst X)
  room : ∀ X, (c.inst X).incarnation.toNat < maxIncarnation
  bounded : ∀ X, Bounded c.counters (c.inst X)
  net : ∀ w ∈ c.net, BoundedBy c.counters (fun X i => w.Carries X i)

section Cluster

variable {cfg : String → Config} {members : List String} {c c' : Cluster}

theorem ClusterInv.init : ClusterInv (Cluster.init cfg) where
  rep X := Rep.init (cfg X)
  room X := by simp [Cluster.init, Memberlist.init, maxIncarnation]
  bounded X := ⟨fun k p hk => by simp [Cluster.init, Memberlist.init] at hk,
    fun w hw => by simp [Cluster.init, Memberlist.init] at hw⟩
  net w hw := by simp [Cluster.init] at hw

/-- **One step of the cluster keeps the invariant**: the instance that steps keeps its own
    records and what it sends within the counters (`step_keeps`), its counter does not go down,
    so nothing else leaves the bound. -/
theorem ClusterInv.step (hname : ∀ X, (cfg X).Name = X) (hinv : ClusterInv c)
    {l : String × Env × Op × List Effect} (hs : Cluster.NoWrapStep cfg members c l c') :
    ClusterInv c' := by
  obtain ⟨hstep, hmax⟩ := hs
  cases hstep with
  | @step X env op m' eff _ hin hst =>
    have hp : CallPre (cfg X) c.counters (c.inst X) :=
      ⟨hinv.rep X, hinv.bounded X, by rw [hname]; rfl, hinv.room X⟩
    have hmaxX : m'.incarnation.toNat < maxIncarnation := by simpa using hmax X
    obtain ⟨hcounter, hstate, heffects⟩ :=
      step_keeps hp (fun w hw => hinv.net w (hin w hw)) hmaxX hst
    rw [hname] at hstate heffects
    -- the counters after the step: `X`'s moved to its new counter
    have hcount :
        Cluster.counters ⟨Function.update c.inst X m', c.net ++ eff.filterMap Effect.wire⟩ =
          Function.update c.counters X m'.incarnation.toNat := by
      funext Z
      by_cases hZ : Z = X
      · subst hZ
        simp [Cluster.counters]
      · simp [Cluster.counters, Function.update_of_ne hZ]
    have hle : ∀ Z, c.counters Z ≤ Function.update c.counters X m'.incarnation.toNat Z :=
      le_update hcounter
    refine ⟨fun Z => ?_, hmax, fun Z => ?_, fun w hw => ?_⟩
    · by_cases hZ : Z = X
      · subst hZ
        simpa using (hinv.rep Z).step hst
      · simpa [Function.update_of_ne hZ] using hinv.rep Z
    · rw [hcount]
      by_cases hZ : Z = X
      · subst hZ
        simpa using hstate
      · simpa [Function.update_of_ne hZ] using (hinv.bounded Z).mono hle
    · rw [hcount]
      rcases List.mem_append.mp hw with hw | hw
      · exact (hinv.net w hw).mono hle
      · obtain ⟨e, he, hew⟩ := List.mem_filterMap.mp hw
        exact heffects e he w hew

theorem ClusterInv.reachable (hname : ∀ X, (cfg X).Name = X)
    (h : Cluster.Reachable cfg members c) : ClusterInv c :=
  Transition.Reach.induct ClusterInv (fun _ hs => by cases hs; exact ClusterInv.init)
    (fun _ _ _ _ hinv hs => hinv.step hname hs) h

/-- What the cluster holds for `X` is within `X`'s counter. -/
theorem ClusterInv.holds (hinv : ClusterInv c) {X : String} {i : UInt32} (h : c.Holds X i) :
    i.toNat ≤ c.counters X := by
  rcases h with ⟨Y, p, hk, rfl⟩ | ⟨w, hw, hc⟩ | ⟨Y, w, hw, hc⟩
  · exact (hinv.bounded Y).records X p hk
  · exact hinv.net w hw X i hc
  · exact (hinv.bounded Y).pending w hw X i hc

/-- **The cluster-wide incarnation bound.**  In every state of a cluster whose instances are
    named by their configuration, along runs in which no counter reaches `2^32 - 1`, every
    incarnation for `X` that an instance's `nodeMap`, the network or an instance's pending work
    holds is at most `X`'s own counter.  So when `X` refutes any of them with `refute`, the
    incarnation it stores in its record and its counter, and broadcasts in its alive message,
    is beyond every one of them. -/
theorem cluster_incarnation_bound (hname : ∀ X, (cfg X).Name = X)
    (hreach : Cluster.Reachable cfg members c) (X : String) :
    (∀ i, c.Holds X i → i ≤ (c.inst X).incarnation) ∧
      ∀ (p : Ptr) (i : UInt32), c.Holds X i →
        ∃ a : alive, ((c.inst X).refute p i).2 =
            [.broadcast (.addr ((c.inst X).heap p).Node.Addr) (.alive a) none] ∧
          ((c.inst X).refute p i).1.incarnation = a.Incarnation ∧
          (((c.inst X).refute p i).1.heap p).Incarnation = a.Incarnation ∧
          ∀ j, c.Holds X j → j < a.Incarnation := by
  have hinv := ClusterInv.reachable hname hreach
  refine ⟨fun i hi => UInt32.le_iff_toNat_le.mpr (hinv.holds hi), fun p i hi => ?_⟩
  -- the accusation is within the counter, so the refutation takes the next incarnation
  have hnext : Memberlist.refuteIncarnation (c.inst X).incarnation i =
      (c.inst X).incarnation + 1 :=
    refuteIncarnation_of_le (hinv.room X) (hinv.holds hi)
  refine ⟨_, Memberlist.refute_effects _ p i, Memberlist.refute_incarnation _ p i, ?_, fun j hj => ?_⟩
  · rw [Memberlist.refute_heap, Function.update_self]
  · show j < Memberlist.refuteIncarnation (c.inst X).incarnation i
    rw [hnext, UInt32.lt_iff_toNat_lt, incarnation_succ_toNat (hinv.room X)]
    have := hinv.holds hj
    unfold Cluster.counters at this
    omega

theorem cluster_incarnation_bound_setAlive :
    let cfg : String → Config := fun X => DefaultLANConfig X
    ∃ r, ((Cluster.init cfg).inst "a").step (cfg "a") (Env.at 0)
        (.setAlive [10, 0, 0, 1] 7946 []) = .ok r ∧
      Cluster.Reachable cfg ["a", "b"]
        ⟨Function.update (Cluster.init cfg).inst "a" r.1, [] ++ r.2.filterMap Effect.wire⟩ ∧
      (∀ i, Cluster.Holds ⟨Function.update (Cluster.init cfg).inst "a" r.1,
          [] ++ r.2.filterMap Effect.wire⟩ "a" i → i ≤ r.1.incarnation) ∧ r.1.incarnation = 1 := by
  intro cfg
  have hname : ∀ X, (cfg X).Name = X := fun _ => rfl
  have hreach := Cluster.Reachable.of_step (.base rfl) (by simp : "a" ∈ ["a", "b"])
    (fun w hw => by cases hw) (rfl : ((Cluster.init cfg).inst "a").step (cfg "a") (Env.at 0)
      (.setAlive [10, 0, 0, 1] 7946 []) = _) (by
        intro Y
        by_cases hY : Y = "a"
        · subst hY
          simp only [Function.update_self]
          decide
        · simp [Function.update_of_ne hY, Cluster.init, Memberlist.init, maxIncarnation])
  have hbound := (cluster_incarnation_bound hname hreach "a").1
  exact ⟨_, rfl, hreach, fun i hi => by simpa using hbound i hi, rfl⟩

end Cluster

end memberlist
