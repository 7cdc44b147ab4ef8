import Memberlist.State.Basic

/-!
# The message handlers (state.go)

`refute`, `aliveNode`, `suspectNode` and `deadNode`, each one call under the node lock.
`aliveNode` is cut where the source's phases are: `aliveIgnored` (the checks before the record
is looked up), `insertNode` (a record for an unknown node, appended and swapped to a random
offset), and `aliveUpdate` (the incarnation checks and the update, from "Bail if the
incarnation number is older" on).  `applyAlive` is the copy of the message into the record,
which indexes `a.Vsn[0..5]` whenever the vector is non-empty.

A handler returns the state and the effects it had; only `aliveNode` can panic.
-/

namespace memberlist

open Go

namespace Memberlist

/-- The record at `p` replaced by `st`. -/
def setRecord (m : Memberlist) (p : Ptr) (st : nodeState) : Memberlist :=
  { m with heap := Function.update m.heap p st }

@[simp] theorem setRecord_heap_self (m : Memberlist) (p : Ptr) (st : nodeState) :
    (m.setRecord p st).heap p = st := by
  simp [setRecord]

@[simp] theorem setRecord_heap_ne (m : Memberlist) {p q : Ptr} (st : nodeState) (h : q ≠ p) :
    (m.setRecord p st).heap q = m.heap q := by
  simp [setRecord, Function.update_of_ne h]

@[simp] theorem setRecord_nodes (m : Memberlist) (p : Ptr) (st : nodeState) :
    (m.setRecord p st).nodes = m.nodes := rfl

@[simp] theorem setRecord_nodeMap (m : Memberlist) (p : Ptr) (st : nodeState) :
    (m.setRecord p st).nodeMap = m.nodeMap := rfl

@[simp] theorem setRecord_nodeTimers (m : Memberlist) (p : Ptr) (st : nodeState) :
    (m.setRecord p st).nodeTimers = m.nodeTimers := rfl

@[simp] theorem setRecord_numNodes (m : Memberlist) (p : Ptr) (st : nodeState) :
    (m.setRecord p st).numNodes = m.numNodes := rfl

@[simp] theorem setRecord_leave (m : Memberlist) (p : Ptr) (st : nodeState) :
    (m.setRecord p st).leave = m.leave := rfl

@[simp] theorem setRecord_pending (m : Memberlist) (p : Ptr) (st : nodeState) :
    (m.setRecord p st).pending = m.pending := rfl

@[simp] theorem setRecord_nextPtr (m : Memberlist) (p : Ptr) (st : nodeState) :
    (m.setRecord p st).nextPtr = m.nextPtr := rfl

@[simp] theorem setRecord_incarnation (m : Memberlist) (p : Ptr) (st : nodeState) :
    (m.setRecord p st).incarnation = m.incarnation := rfl

/-- `refute me accusedInc`: the next incarnation, skipped past `accusedInc` when it does not
    beat it (all in `uint32`), stored in the local record at `p` and broadcast in an alive
    message queued under the record's address. -/
def refute (m : Memberlist) (p : Ptr) (accusedInc : UInt32) : Memberlist × List Effect :=
  let inc := m.incarnation + 1
  let inc := if accusedInc ≥ inc then inc + (accusedInc - inc + 1) else inc
  let me := { m.heap p with Incarnation := inc }
  let a : alive :=
    { Incarnation := inc, Node := me.Node.Name, Addr := me.Node.Addr, Port := me.Node.Port,
      Meta := me.Node.Meta, Vsn := me.versions }
  ({ m.setRecord p me with incarnation := inc, awareness := m.awareness.ApplyDelta 1 },
    [.broadcast (.addr me.Node.Addr) (.alive a) none])

end Memberlist

/-- The checks `aliveNode` makes before it looks the node up: an alive message about the local
    node after `Leave`, a version vector of three or more bytes with a bad protocol range, and
    an Alive delegate that gets no full version vector or rejects the node (`verdict`). -/
def aliveIgnored (cfg : Config) (leave : Bool) (a : alive) (verdict : Bool) : Bool :=
  (leave && a.Node == cfg.Name) ||
  (3 ≤ a.Vsn.length &&
    (a.Vsn.getD 0 0 == 0 || a.Vsn.getD 1 0 == 0 || a.Vsn.getD 0 0 > a.Vsn.getD 1 0)) ||
  (cfg.Alive && (a.Vsn.length < 6 || !verdict))

/-- The record `aliveNode` creates for an unknown node: state Dead, incarnation 0, and the
    version vector only when the message has six or more bytes of it. -/
def newRecord (a : alive) : nodeState :=
  let st : nodeState :=
    { Node := { (default : Node) with Name := a.Node, Addr := a.Addr, Port := a.Port, Meta := a.Meta },
      Incarnation := 0, State := StateDead, StateChange := zeroTime }
  if 5 < a.Vsn.length then
    { st with
      Node.PMin := a.Vsn.getD 0 0, Node.PMax := a.Vsn.getD 1 0, Node.PCur := a.Vsn.getD 2 0,
      Node.DMin := a.Vsn.getD 3 0, Node.DMax := a.Vsn.getD 4 0, Node.DCur := a.Vsn.getD 5 0 }
  else st

/-- `randomOffset n` with `r` the value `rand.Uint32()` draws: `r % uint32(n)`, `0` for `n = 0`
    (a zero `uint32(n)` for `n ≠ 0` divides by zero). -/
def randomOffset (n : Nat) (r : UInt32) : Except Panic Nat :=
  if n = 0 then .ok 0
  else if UInt32.ofNat n = 0 then .error ⟨"integer divide by zero"⟩
  else .ok (r % UInt32.ofNat n).toNat

namespace Memberlist

/-- The insertion of a new record: `nodeMap[name] = state`, append to `nodes` and swap with the
    node at a random offset, `numNodes + 1`.  Returns the state and the record's pointer. -/
def insertNode (m : Memberlist) (name : String) (st : nodeState) (r : UInt32) :
    Except Panic (Memberlist × Ptr) := do
  let p := m.nextPtr
  let n := m.nodes.length
  let offset ← randomOffset n r
  pure ({ m with
    heap := Function.update m.heap p st
    nextPtr := p + 1
    nodeMap := m.nodeMap.insert name p
    nodes := (m.nodes ++ [p]).swap offset n
    numNodes := m.numNodes + 1 }, p)

end Memberlist

/-- "Update protocol versions if it arrived": `a.Vsn[0]` … `a.Vsn[5]` copied into the record
    when the message has a version vector, panicking past its end. -/
def copyVsn (st : nodeState) (a : alive) : Except Panic nodeState :=
  if 0 < a.Vsn.length then do
    let pMin ← index a.Vsn 0
    let pMax ← index a.Vsn 1
    let pCur ← index a.Vsn 2
    let dMin ← index a.Vsn 3
    let dMax ← index a.Vsn 4
    let dCur ← index a.Vsn 5
    pure { st with
      Node.PMin := pMin, Node.PMax := pMax, Node.PCur := pCur,
      Node.DMin := dMin, Node.DMax := dMax, Node.DCur := dCur }
  else .ok st

/-- The copy of an accepted alive message into the record: the version vector (`copyVsn`),
    then incarnation, meta and address, and the state `Alive` stamped `now` unless it already
    was. -/
def applyAlive (st : nodeState) (a : alive) (now : Int) : Except Panic nodeState :=
  (copyVsn st a).map fun st =>
    let st := { st with
      Incarnation := a.Incarnation, Node.Meta := a.Meta, Node.Addr := a.Addr, Node.Port := a.Port }
    if st.State ≠ StateAlive then { st with State := StateAlive, StateChange := now } else st

/-- The delegate notifications at the end of `aliveNode`: a join when the record was Dead or
    Left, otherwise an update when its meta changed. -/
def aliveEvents (cfg : Config) (oldState : NodeStateType) (oldMeta : List UInt8) (n : Node) :
    List Effect :=
  if cfg.Events then
    if oldState = StateDead ∨ oldState = StateLeft then [.notifyJoin n]
    else if oldMeta ≠ n.Meta then [.notifyUpdate n]
    else []
  else []

namespace Memberlist

/-- `aliveNode` from "Bail if the incarnation number is older" on, for the record at `p`:
    the two incarnation checks, the cleared suspicion timer, then either the refutation (the
    local node, not bootstrapping) or the update and the re-broadcast. -/
def aliveUpdate (cfg : Config) (m : Memberlist) (now : Int) (a : alive)
    (notify : Option Notify) (bootstrap : Bool) (p : Ptr) (updatesNode : Bool) :
    Except Panic (Memberlist × List Effect) :=
  let state := m.heap p
  let isLocalNode := state.Node.Name = cfg.Name
  if a.Incarnation ≤ state.Incarnation ∧ ¬ isLocalNode ∧ ¬ updatesNode then .ok (m, [])
  else if a.Incarnation < state.Incarnation ∧ isLocalNode then .ok (m, [])
  else
    let m := { m with nodeTimers := m.nodeTimers.erase a.Node }
    if ¬ bootstrap ∧ isLocalNode then
      -- the same incarnation with the same meta and versions needs no refutation
      if a.Incarnation = state.Incarnation ∧ a.Meta = state.Node.Meta ∧ a.Vsn = state.versions then
        .ok (m, [])
      else
        let r := m.refute p a.Incarnation
        .ok (r.1, r.2 ++ aliveEvents cfg state.State state.Node.Meta (r.1.heap p).Node)
    else do
      let st ← applyAlive state a now
      pure (m.setRecord p st,
        .broadcast (.node a.Node) (.alive a) notify :: aliveEvents cfg state.State state.Node.Meta st.Node)

/-- `aliveNode a notify bootstrap`. -/
def aliveNode (cfg : Config) (m : Memberlist) (env : Env) (a : alive) (notify : Option Notify)
    (bootstrap : Bool) : Except Panic (Memberlist × List Effect) :=
  if aliveIgnored cfg m.leave a env.verdict then .ok (m, [])
  else
    match m.nodeMap.lookup a.Node with
    | none =>
      if ¬ cfg.IPAllowed a.Addr then .ok (m, [])
      else do
        let (m, p) ← m.insertNode a.Node (newRecord a) env.rand
        m.aliveUpdate cfg env.now a notify bootstrap p false
    | some p =>
      let state := m.heap p
      if state.Node.Addr ≠ a.Addr ∨ state.Node.Port ≠ a.Port then
        if ¬ cfg.IPAllowed a.Addr then .ok (m, [])
        -- a Left node, or one Dead for longer than `DeadNodeReclaimTime > 0`, may change address
        else if state.State = StateLeft ∨ (state.State = StateDead ∧
            0 < cfg.DeadNodeReclaimTime ∧ env.now - state.StateChange > cfg.DeadNodeReclaimTime) then
          m.aliveUpdate cfg env.now a notify bootstrap p true
        else
          .ok (m, if cfg.Conflict then
            [.notifyConflict state.Node
              { (default : Node) with Name := a.Node, Addr := a.Addr, Port := a.Port, Meta := a.Meta }]
            else [])
      else m.aliveUpdate cfg env.now a notify bootstrap p false

/-- `suspectNode s`: confirm a running suspicion, or (for an alive node) refute about the
    local node, or mark the node suspect at `now` and arm a suspicion timer for it. -/
def suspectNode (cfg : Config) (m : Memberlist) (now : Int) (s : suspect) :
    Memberlist × List Effect :=
  match m.nodeMap.lookup s.Node with
  | none => (m, [])
  | some p =>
    let state := m.heap p
    if s.Incarnation < state.Incarnation then (m, [])
    else
      match m.nodeTimers.lookup s.Node with
      | some timer =>
        let c := timer.Confirm s.From
        ({ m with nodeTimers := m.nodeTimers.insert s.Node c.1 },
          if c.2 then [.broadcast (.node s.Node) (.suspect s) none] else [])
      | none =>
        if state.State ≠ StateAlive then (m, [])
        else if state.Node.Name = cfg.Name then m.refute p s.Incarnation
        else
          -- too few nodes to expect `SuspicionMult - 2` confirmations: expect none
          let k := if m.estNumNodes - 2 < cfg.SuspicionMult - 2 then 0 else cfg.SuspicionMult - 2
          let st := { state with
            Incarnation := s.Incarnation, State := StateSuspect, StateChange := now }
          ({ m.setRecord p st with
              nodeTimers := m.nodeTimers.insert s.Node (newSuspicion s.From k)
              pending := m.pending ++ [.suspicionTimeout s.Node now] },
            [.broadcast (.node s.Node) (.suspect s) none])

/-- `deadNode d`: clear the suspicion timer, then (for an alive or suspect node) refute about
    the local node unless it is leaving, or mark the node Left (`d.Node = d.From`) or Dead. -/
def deadNode (cfg : Config) (m : Memberlist) (now : Int) (d : dead) : Memberlist × List Effect :=
  match m.nodeMap.lookup d.Node with
  | none => (m, [])
  | some p =>
    let state := m.heap p
    if d.Incarnation < state.Incarnation then (m, [])
    else
      let m := { m with nodeTimers := m.nodeTimers.erase d.Node }
      if state.DeadOrLeft then (m, [])
      else if state.Node.Name = cfg.Name ∧ ¬ m.leave then m.refute p d.Incarnation
      else
        let st := { state with
          Incarnation := d.Incarnation, StateChange := now,
          State := if d.Node = d.From then StateLeft else StateDead }
        (m.setRecord p st,
          .broadcast (.node d.Node) (.dead d)
              (if state.Node.Name = cfg.Name then some .leaveBroadcast else none) ::
            (if cfg.Events then [.notifyLeave st.Node] else []))

end Memberlist

end memberlist
