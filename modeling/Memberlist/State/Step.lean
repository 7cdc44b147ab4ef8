import Memberlist.Lib.Transition
import Memberlist.State.Merge
import Memberlist.State.Reap

/-!
# One step of a node (state.go, memberlist.go)

A `Memberlist` is driven by its listeners, its timers and its API, and each of those takes the
node lock for one handler at a time.  `Op` lists what can happen next and `Memberlist.step`
runs it.  Work that will take the lock later is kept in `pending` and run by `Op.fire`:

* `suspicionTimeout node changeTime` — the timer `suspectNode` armed.  When it fires it checks
  under the lock that the node is still Suspect since `changeTime`, and if so starts the
  `deadNode` call as a new pending `markDead`, since the source calls `deadNode` after it
  released the lock.
* `markDead d` — that call, or the one `Leave` makes after reading the local record.
* `probeWait node` — `probeNode` waiting for acks about its copy of a record; with no ack
  (`env.ack = false`) it calls `suspectNode`, and in any case applies the awareness delta
  the probe ends with.
* `merging remote` — the rest of a `mergeState` loop, one record per lock.

Also here:

* `probe` — the loop of `probe()`, which resets the node list each time the probe index wraps
  and gives up after looking at `len(nodes)` indexes (`probeLoop`, by the measure
  `len(nodes) - numCheck`).
* `setAlive`, `UpdateNode`, `Leave` — the API calls that change the state; `LocalNode` and
  `Members` — two that read it.
* `Reachable cfg` — the states reachable from `newMemberlist` by steps that do not panic (a
  panic ends the process); `Run cfg` — runs, whose labels carry the effects of each step.
-/

namespace memberlist

open Go

namespace Memberlist

/-- `nextIncarnation`: the counter incremented, and its new value. -/
def nextIncarnation (m : Memberlist) : Memberlist × UInt32 :=
  ({ m with incarnation := m.incarnation + 1 }, m.incarnation + 1)

/-- `probeNode node` up to its wait for acks: a ping (not modelled), with a suspicion about
    the node tacked on when the copy is not Alive, and the wait left pending. -/
def probeNode (m : Memberlist) (cfg : Config) (node : nodeState) : Memberlist × List Effect :=
  ({ m with pending := m.pending ++ [.probeWait node] },
    if node.State = StateAlive then []
    else [.packet node.Node
      (.suspect { Incarnation := node.Incarnation, Node := node.Node.Name, From := cfg.Name })])

/-- The loop of `probe` from `START`, with `numCheck` indexes looked at so far. -/
def probeLoop (cfg : Config) (m : Memberlist) (env : Env) (numCheck : Nat) :
    Memberlist × List Effect :=
  -- make sure we don't wrap around infinitely
  if numCheck ≥ m.nodes.length then (m, [])
  -- the wrap around case
  else if m.probeIndex ≥ m.nodes.length then
    probeLoop cfg { m.resetNodes cfg env with probeIndex := 0 } env (numCheck + 1)
  else
    let node := m.heap (m.nodes.getD m.probeIndex 0)
    let m' := { m with probeIndex := m.probeIndex + 1 }
    if node.Node.Name = cfg.Name ∨ node.DeadOrLeft then probeLoop cfg m' env (numCheck + 1)
    else m'.probeNode cfg node
termination_by m.nodes.length - numCheck
decreasing_by
  · have := m.resetNodes_length_le cfg env
    omega
  · omega

/-- `probe`. -/
def probe (cfg : Config) (m : Memberlist) (env : Env) : Memberlist × List Effect :=
  probeLoop cfg m env 0

/-- `setAlive` with the advertised address and the delegate's meta (`nodeMeta`): the next
    incarnation announced as a bootstrap alive message about the local node. -/
def setAlive (cfg : Config) (m : Memberlist) (env : Env) (addr : List UInt8) (port : UInt16)
    (nodeMeta : List UInt8) : Except Panic (Memberlist × List Effect) :=
  if nodeMeta.length > MetaMaxSize then
    .error ⟨"Node meta data provided is longer than the limit"⟩
  else
    let r := m.nextIncarnation
    r.1.aliveNode cfg env
      { Incarnation := r.2, Node := cfg.Name, Addr := addr, Port := port, Meta := nodeMeta,
        Vsn := cfg.BuildVsnArray } none true

/-- `UpdateNode` with the delegate's new meta: like `setAlive`, at the local record's address,
    and a nil dereference when there is no local record. -/
def UpdateNode (cfg : Config) (m : Memberlist) (env : Env) (nodeMeta : List UInt8) :
    Except Panic (Memberlist × List Effect) :=
  if nodeMeta.length > MetaMaxSize then
    .error ⟨"Node meta data provided is longer than the limit"⟩
  else
    match m.nodeMap.lookup cfg.Name with
    | none => .error ⟨"invalid memory address or nil pointer dereference"⟩
    | some p =>
      let state := m.heap p
      let r := m.nextIncarnation
      r.1.aliveNode cfg env
        { Incarnation := r.2, Node := cfg.Name, Addr := state.Node.Addr, Port := state.Node.Port,
          Meta := nodeMeta, Vsn := cfg.BuildVsnArray } (some .update) true

/-- `Leave`: the flag set, and a dead message about the local node (from itself, at its
    current incarnation) on its way to `deadNode`. -/
def Leave (cfg : Config) (m : Memberlist) : Memberlist :=
  if m.leave then m
  else
    let m := { m with leave := true }
    match m.nodeMap.lookup cfg.Name with
    | none => m
    | some p =>
      let state := m.heap p
      { m with pending := m.pending ++
          [.markDead { Incarnation := state.Incarnation, Node := state.Node.Name,
                       From := state.Node.Name }] }

/-- `LocalNode`: the local record's embedded `Node`, and a nil dereference when there is no
    local record. -/
def LocalNode (cfg : Config) (m : Memberlist) : Except Panic Node :=
  match m.nodeMap.lookup cfg.Name with
  | none => .error ⟨"invalid memory address or nil pointer dereference"⟩
  | some p => .ok (m.heap p).Node

/-- `Members`: the embedded `Node` of every record of `nodes` that is neither Dead nor Left. -/
def Members (m : Memberlist) : List Node :=
  (m.nodes.filter fun p => !(m.heap p).DeadOrLeft).map fun p => (m.heap p).Node

/-- The pending work `w` taking the lock, once removed from `pending`. -/
def runPending (cfg : Config) (m : Memberlist) (env : Env) :
    Pending → Except Panic (Memberlist × List Effect)
  | .suspicionTimeout node changeTime =>
    match m.nodeMap.lookup node with
    | none => .ok (m, [])
    | some p =>
      let state := m.heap p
      if state.State = StateSuspect ∧ state.StateChange = changeTime then
        .ok ({ m with pending := m.pending ++
            [.markDead { Incarnation := state.Incarnation, Node := state.Node.Name,
                         From := cfg.Name }] }, [])
      else .ok (m, [])
  | .markDead d => .ok (m.deadNode cfg env.now d)
  | .probeWait node =>
    let r := if env.ack then (m, [])
      else m.suspectNode cfg env.now
        { Incarnation := node.Incarnation, Node := node.Node.Name, From := cfg.Name }
    -- the awareness delta is applied when `probeNode` returns
    .ok ({ r.1 with awareness := r.1.awareness.ApplyDelta env.awarenessDelta }, r.2)
  | .merging [] => .ok (m, [])
  | .merging (r :: rest) => do
    let (m, eff) ← m.mergeOne cfg env r
    pure ({ m with pending := m.pending ++ [.merging rest] }, eff)

end Memberlist

/-- What can happen next to a node. -/
inductive Op
  | alive (a : alive)
  | suspect (s : suspect)
  | dead (d : dead)
  | pushPull (join : Bool) (remote : List pushNodeState)
  | sendState
  | fire (i : Nat)
  | probe
  | setAlive (addr : List UInt8) (port : UInt16) (nodeMeta : List UInt8)
  | updateNode (nodeMeta : List UInt8)
  | leave
  deriving DecidableEq, Repr

namespace Memberlist

/-- One step: the handler `op` calls, with `env` deciding what the environment does. -/
def step (cfg : Config) (m : Memberlist) (env : Env) : Op → Except Panic (Memberlist × List Effect)
  | .alive a => m.aliveNode cfg env a none false
  | .suspect s => .ok (m.suspectNode cfg env.now s)
  | .dead d => .ok (m.deadNode cfg env.now d)
  | .pushPull join remote => do
    match ← m.mergeRemoteState cfg env join remote with
    | .ok m' => pure (m', [])
    | .error _ => pure (m, [])
  | .sendState => .ok (m, [.state m.localState])
  | .fire i =>
    match m.pending[i]? with
    | none => .ok (m, [])
    | some w => { m with pending := m.pending.eraseIdx i }.runPending cfg env w
  | .probe => .ok (m.probe cfg env)
  | .setAlive addr port nodeMeta => m.setAlive cfg env addr port nodeMeta
  | .updateNode nodeMeta => m.UpdateNode cfg env nodeMeta
  | .leave => .ok (m.Leave cfg, [])

/-- A step that does not panic, labelled with what the environment decided, the operation
    and the effects. -/
def Step (cfg : Config) (m : Memberlist) (l : Env × Op × List Effect) (m' : Memberlist) : Prop :=
  m.step cfg l.1 l.2.1 = .ok (m', l.2.2)

end Memberlist

/-- The states of a node with configuration `cfg`, from `newMemberlist` on. -/
def Reachable (cfg : Config) : Memberlist → Prop :=
  Transition.Reach (Memberlist.Step cfg) (· = Memberlist.init cfg)

/-- A run of a node. -/
def Run (cfg : Config) : Memberlist → List (Env × Op × List Effect) → Memberlist → Prop :=
  Transition.Steps (Memberlist.Step cfg)

/-- The steps `ops` run one after another, for evaluation. -/
def Memberlist.exec (cfg : Config) : Memberlist → List (Env × Op) →
    Except Panic (Memberlist × List Effect)
  | m, [] => .ok (m, [])
  | m, (env, op) :: ops => do
    let (m, eff) ← m.step cfg env op
    let (m, eff') ← m.exec cfg ops
    pure (m, eff ++ eff')

/-- A state a step leads to from a reachable state is reachable. -/
theorem Reachable.of_step {cfg : Config} {m : Memberlist} (env : Env) (op : Op)
    {r : Memberlist × List Effect} (h : Reachable cfg m) (hs : m.step cfg env op = .ok r) :
    Reachable cfg r.1 :=
  Transition.Reach.step h (show Memberlist.Step cfg m (env, op, r.2) r.1 from hs)

/-- A step that does not panic, followed by a run, is a run. -/
theorem Run.cons_of_step {cfg : Config} {m m' : Memberlist} {env : Env} {op : Op}
    {r : Memberlist × List Effect} {run : List (Env × Op × List Effect)}
    (hs : m.step cfg env op = .ok r) (h : Run cfg r.1 run m') :
    Run cfg m ((env, op, r.2) :: run) m' :=
  Transition.Steps.cons (show Memberlist.Step cfg m (env, op, r.2) r.1 from hs) h

/-- An environment at time `now` in which every draw is zero, every delegate agrees and every
    probe is acked. -/
def Env.at (now : Int) : Env where
  now := now
  rand := 0
  verdict := true
  shuffle := id
  ack := true
  awarenessDelta := 0

end memberlist
