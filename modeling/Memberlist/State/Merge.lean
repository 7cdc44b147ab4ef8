import Memberlist.State.Handlers

/-!
# Merging a remote state (state.go, net.go)

A push/pull exchange hands the receiver the sender's records as `pushNodeState`s.
`mergeRemoteState` first runs `verifyProtocol` over them, then (on a join with a Merge
delegate) lets the delegate veto the merge, and finally `mergeState` feeds each record to
`aliveNode`, `deadNode` or `suspectNode`.

* `verifyProtocol` — its four loops as `remoteBounds`, `localBounds`, `remoteCheck` and the
  check of the local records.  The first and third loops index `rn.Vsn[0]`, `[1]`, `[3]`,
  `[4]` and `n.Vsn[2]`, `[5]` with no length check beyond `len(Vsn) > 0`, so a short
  version vector panics (`verifyProtocol_short_vsn`).
* `mergeNodes` — the `[]*Node` handed to the Merge delegate, indexing `Vsn[0..5]`.
* `mergeOne` — one iteration of `mergeState`: a remote Alive record becomes an alive
  message, Left a dead message from the node itself, and Dead or Suspect a suspicion from us.
* `mergeRemoteState` — the whole exchange; the loop of `mergeState` is left to the caller,
  since each iteration takes the node lock on its own (`Pending.merging`).
-/

namespace memberlist

open Go

/-- The version range `verifyProtocol` narrows: the largest minimum and the smallest maximum
    of the protocol (`p`) and delegate (`d`) versions seen so far. -/
structure VersionBounds where
  maxpmin : UInt8
  minpmax : UInt8
  maxdmin : UInt8
  mindmax : UInt8
  deriving DecidableEq, Repr

/-- The bounds before any node is seen (`math.MaxUint8` for the maxima). -/
def VersionBounds.init : VersionBounds := ⟨0, 255, 0, 255⟩

/-- The bounds narrowed by one node's `pmin`, `pmax`, `dmin`, `dmax`. -/
def VersionBounds.narrow (b : VersionBounds) (pmin pmax dmin dmax : UInt8) : VersionBounds where
  maxpmin := if pmin > b.maxpmin then pmin else b.maxpmin
  minpmax := if pmax < b.minpmax then pmax else b.minpmax
  maxdmin := if dmin > b.maxdmin then dmin else b.maxdmin
  mindmax := if dmax < b.mindmax then dmax else b.mindmax

/-- The error `verifyProtocol` returns: the node, its current version and the range it
    misses, for the protocol or the delegate versions. -/
inductive VerifyError
  | protocol (node : String) (version lo hi : UInt8)
  | delegate (node : String) (version lo hi : UInt8)
  deriving DecidableEq, Repr

/-- A node's current versions checked against the bounds. -/
def VersionBounds.check (b : VersionBounds) (name : String) (pcur dcur : UInt8) :
    Option VerifyError :=
  if pcur < b.maxpmin || pcur > b.minpmax then some (.protocol name pcur b.maxpmin b.minpmax)
  else if dcur < b.maxdmin || dcur > b.mindmax then some (.delegate name dcur b.maxdmin b.mindmax)
  else none

/-- The first loop of `verifyProtocol`, for one remote record: alive records with a version
    vector narrow the bounds by `Vsn[0]`, `Vsn[1]`, `Vsn[3]`, `Vsn[4]`. -/
def remoteBounds (b : VersionBounds) (rn : pushNodeState) : Except Panic VersionBounds :=
  if rn.State ≠ StateAlive then .ok b
  -- nodes without versions just have version zero
  else if rn.Vsn.length = 0 then .ok b
  else do
    let pmin ← index rn.Vsn 0
    let pmax ← index rn.Vsn 1
    let dmin ← index rn.Vsn 3
    let dmax ← index rn.Vsn 4
    pure (b.narrow pmin pmax dmin dmax)

/-- The second loop of `verifyProtocol`, for one local record. -/
def localBounds (b : VersionBounds) (n : nodeState) : VersionBounds :=
  if n.State ≠ StateAlive then b else b.narrow n.Node.PMin n.Node.PMax n.Node.DMin n.Node.DMax

/-- The third loop of `verifyProtocol`, for one remote record: `Vsn[2]` and `Vsn[5]` when the
    vector is non-empty, zero otherwise. -/
def remoteCheck (b : VersionBounds) (n : pushNodeState) : Except Panic (Option VerifyError) := do
  let (pcur, dcur) ←
    if 0 < n.Vsn.length then do
      let pcur ← index n.Vsn 2
      let dcur ← index n.Vsn 5
      pure (pcur, dcur)
    else pure (0, 0)
  pure (b.check n.Name pcur dcur)

/-- `verifyProtocol remote`: `none` for a nil error. -/
def verifyProtocol (m : Memberlist) (remote : List pushNodeState) :
    Except Panic (Option VerifyError) := do
  let b ← remote.foldlM remoteBounds VersionBounds.init
  let b := m.nodes.foldl (fun b p => localBounds b (m.heap p)) b
  match ← firstError (remoteCheck b) remote with
  | some e => pure (some e)
  | none =>
    pure (m.nodes.findSome? fun p => b.check (m.heap p).Node.Name (m.heap p).Node.PCur
      (m.heap p).Node.DCur)

/-- The nodes handed to the Merge delegate on a join, each with `Vsn[0..5]`. -/
def mergeNodes (remote : List pushNodeState) : Except Panic (List Node) :=
  remote.mapM fun n => do
    let pmin ← index n.Vsn 0
    let pmax ← index n.Vsn 1
    let pcur ← index n.Vsn 2
    let dmin ← index n.Vsn 3
    let dmax ← index n.Vsn 4
    let dcur ← index n.Vsn 5
    pure { Name := n.Name, Addr := n.Addr, Port := n.Port, Meta := n.Meta, State := n.State,
           PMin := pmin, PMax := pmax, PCur := pcur, DMin := dmin, DMax := dmax, DCur := dcur }

/-- Why `mergeRemoteState` refused a remote state. -/
inductive MergeError
  | verify (e : VerifyError)
  | delegate
  deriving DecidableEq, Repr

namespace Memberlist

/-- One iteration of `mergeState`, for the remote record `r`. -/
def mergeOne (cfg : Config) (m : Memberlist) (env : Env) (r : pushNodeState) :
    Except Panic (Memberlist × List Effect) :=
  if r.State = StateAlive then
    m.aliveNode cfg env
      { Incarnation := r.Incarnation, Node := r.Name, Addr := r.Addr, Port := r.Port,
        Meta := r.Meta, Vsn := r.Vsn } none false
  else if r.State = StateLeft then
    .ok (m.deadNode cfg env.now { Incarnation := r.Incarnation, Node := r.Name, From := r.Name })
  -- a remote Dead is only suspected here
  else if r.State = StateDead ∨ r.State = StateSuspect then
    .ok (m.suspectNode cfg env.now { Incarnation := r.Incarnation, Node := r.Name, From := cfg.Name })
  else .ok (m, [])

/-- `mergeRemoteState join remote`, with `env.verdict` the Merge delegate's answer: the state
    with the merge queued, or why it was refused. -/
def mergeRemoteState (cfg : Config) (m : Memberlist) (env : Env) (join : Bool)
    (remote : List pushNodeState) : Except Panic (Except MergeError Memberlist) := do
  match ← verifyProtocol m remote with
  | some e => pure (.error (.verify e))
  | none =>
    let merged := { m with pending := m.pending ++ [.merging remote] }
    if join && cfg.Merge then do
      let _ ← mergeNodes remote
      pure (if env.verdict then .ok merged else .error .delegate)
    else pure (.ok merged)

/-- `sendLocalState`'s copy of the records in `nodes`. -/
def localState (m : Memberlist) : List pushNodeState :=
  m.nodes.map fun p =>
    let n := m.heap p
    { Name := n.Node.Name, Addr := n.Node.Addr, Port := n.Node.Port, Meta := n.Node.Meta,
      Incarnation := n.Incarnation, State := n.State, Vsn := n.versions }

end Memberlist

/-! ### Short version vectors -/

/-- The first loop panics on an Alive record whose version vector has one to four bytes. -/
theorem remoteBounds_short (b : VersionBounds) {rn : pushNodeState} (halive : rn.State = StateAlive)
    (hpos : 0 < rn.Vsn.length) (hshort : rn.Vsn.length < 5) :
    remoteBounds b rn = .error ⟨"index out of range"⟩ := by
  have hne : rn.Vsn.length ≠ 0 := by omega
  have hv : ∃ vsn, rn.Vsn = vsn := ⟨_, rfl⟩
  obtain ⟨vsn, hv⟩ := hv
  rw [hv] at hpos hshort hne
  -- the vector is cut at its first missing index among 1, 3 and 4
  match vsn, hpos, hshort with
  | [_], _, _ => simp [remoteBounds, halive, hv, index, bind, Except.bind]
  | [_, _], _, _ => simp [remoteBounds, halive, hv, index, bind, Except.bind]
  | [_, _, _], _, _ => simp [remoteBounds, halive, hv, index, bind, Except.bind]
  | [_, _, _, _], _, _ => simp [remoteBounds, halive, hv, index, bind, Except.bind]

/-- The only panic of the first loop is an index out of range. -/
theorem remoteBounds_error {b : VersionBounds} {rn : pushNodeState} {e : Panic}
    (h : remoteBounds b rn = .error e) : e = ⟨"index out of range"⟩ := by
  have hv : ∃ vsn, rn.Vsn = vsn := ⟨_, rfl⟩
  obtain ⟨vsn, hv⟩ := hv
  by_cases halive : rn.State = StateAlive
  · match vsn with
    | [] => simp [remoteBounds, halive, hv] at h
    | [_] | [_, _] | [_, _, _] | [_, _, _, _] =>
      simp only [remoteBounds, halive, hv, index, bind, Except.bind] at h
      simpa using h.symm
    | _ :: _ :: _ :: _ :: _ :: _ =>
      simp [remoteBounds, halive, hv, index, bind, Except.bind, pure, Except.pure] at h
  · simp [remoteBounds, halive] at h

/-- The first loop panics as soon as one record does, whatever the bounds so far. -/
theorem foldlM_remoteBounds_short {remote : List pushNodeState} {rn : pushNodeState}
    (hmem : rn ∈ remote) (halive : rn.State = StateAlive) (hpos : 0 < rn.Vsn.length)
    (hshort : rn.Vsn.length < 5) (b : VersionBounds) :
    remote.foldlM remoteBounds b = .error ⟨"index out of range"⟩ := by
  induction remote generalizing b with
  | nil => cases hmem
  | cons r rest ih =>
    rw [List.foldlM_cons]
    rcases List.mem_cons.mp hmem with rfl | hrest
    · rw [remoteBounds_short b halive hpos hshort]
      rfl
    · -- `r` narrows the bounds or panics itself
      cases hr : remoteBounds b r with
      | error e =>
        rw [remoteBounds_error hr]
        rfl
      | ok b' => exact ih hrest b'

/-- `verifyProtocol` panics on a remote state holding an Alive record whose version vector has
    one to four bytes. -/
theorem verifyProtocol_short_vsn (m : Memberlist) {remote : List pushNodeState}
    {rn : pushNodeState} (hmem : rn ∈ remote) (halive : rn.State = StateAlive)
    (hpos : 0 < rn.Vsn.length) (hshort : rn.Vsn.length < 5) :
    verifyProtocol m remote = .error ⟨"index out of range"⟩ := by
  unfold verifyProtocol
  rw [foldlM_remoteBounds_short hmem halive hpos hshort]
  rfl

end memberlist
