import Memberlist.Lib.Go
import Mathlib

/-!
# The membership state (state.go, net.go, suspicion.go, awareness.go, config.go)

The data the failure detector works on, translated from the source:

* `NodeStateType` — Go's named `int` with the four constants `StateAlive` … `StateLeft`; a
  decoded `pushNodeState.State` can hold any integer, so it is a wrapper of `Int`, not a closed
  enumeration.
* `Node`, `nodeState` — a member as the API hands it out, and the record memberlist keeps.
  `nodeState` embeds a `Node` and declares its own `State`, which shadows `Node.State`; both
  fields are kept.
* `alive`, `suspect`, `dead`, `pushNodeState` — the gossip messages and push/pull records.
* `suspicion` — the confirmation counter of a suspicion timer.
* `Config` — the configuration fields the modelled functions read; `CIDRsAllowed` holds each
  network as its membership test (`net.IPNet.Contains`), and `Keyring` the installed keys.
* `Memberlist` — the state: `nodes` and `nodeMap` hold pointers into `heap`, so a record is
  shared by the slice and the map exactly as the `*nodeState` of the source; `pending` holds
  the goroutines and timers that will later take the node lock (`Pending`).
* `Effect` — what a handler does outside the state: queued broadcasts, packets sent, and the
  delegate callbacks.
* `Env` — what the environment decides at one handler call: the time `time.Now()` reads, the
  value `rand.Uint32()` draws, the Alive (or Merge) delegate's verdict, the draws of
  `rand.Shuffle`, and for a probe whether an ack came back and the awareness delta the probe
  ends with.

Logging and metrics have no effect on the state and are left out.
-/

namespace memberlist

/-- The zero `time.Time` of a fresh record (times and durations are `Int` nanoseconds). -/
def zeroTime : Int := 0

/-- `NodeStateType`. -/
structure NodeStateType where
  toInt : Int
  deriving DecidableEq, Repr, Inhabited

/-- `StateAlive`. -/
def StateAlive : NodeStateType := ⟨0⟩
/-- `StateSuspect`. -/
def StateSuspect : NodeStateType := ⟨1⟩
/-- `StateDead`. -/
def StateDead : NodeStateType := ⟨2⟩
/-- `StateLeft`. -/
def StateLeft : NodeStateType := ⟨3⟩

/-- `Node`: a member as the API hands it out. -/
structure Node where
  Name : String
  Addr : List UInt8
  Port : UInt16
  Meta : List UInt8
  State : NodeStateType
  PMin : UInt8
  PMax : UInt8
  PCur : UInt8
  DMin : UInt8
  DMax : UInt8
  DCur : UInt8
  deriving DecidableEq, Repr, Inhabited

/-- `nodeState`: the record memberlist keeps of a member. -/
structure nodeState where
  Node : Node
  Incarnation : UInt32
  State : NodeStateType
  StateChange : Int
  deriving DecidableEq, Repr, Inhabited

/-- `nodeState.DeadOrLeft`. -/
def nodeState.DeadOrLeft (n : nodeState) : Bool :=
  n.State = StateDead || n.State = StateLeft

/-- The version vector `[PMin, PMax, PCur, DMin, DMax, DCur]` of a record. -/
def nodeState.versions (n : nodeState) : List UInt8 :=
  [n.Node.PMin, n.Node.PMax, n.Node.PCur, n.Node.DMin, n.Node.DMax, n.Node.DCur]

/-- `alive`: a member announces (or is announced) alive at an incarnation. -/
structure alive where
  Incarnation : UInt32
  Node : String
  Addr : List UInt8
  Port : UInt16
  Meta : List UInt8
  Vsn : List UInt8
  deriving DecidableEq, Repr

/-- `suspect`. -/
structure suspect where
  Incarnation : UInt32
  Node : String
  From : String
  deriving DecidableEq, Repr

/-- `dead`. -/
structure dead where
  Incarnation : UInt32
  Node : String
  From : String
  deriving DecidableEq, Repr

/-- `pushNodeState`: one record of a push/pull state transfer. -/
structure pushNodeState where
  Name : String
  Addr : List UInt8
  Port : UInt16
  Meta : List UInt8
  Incarnation : UInt32
  State : NodeStateType
  Vsn : List UInt8
  deriving DecidableEq, Repr

/-- A gossip message, decoded. -/
inductive Message
  | alive (a : alive)
  | suspect (s : suspect)
  | dead (d : dead)
  deriving DecidableEq, Repr

/-- `suspicion`, without its timer: the confirmations seen (`n`), wanted (`k`), and the
    peers already counted (the accuser included). -/
structure suspicion where
  n : Int32
  k : Int32
  confirmations : List String
  deriving DecidableEq, Repr

/-- `newSuspicion from k`. -/
def newSuspicion (from_ : String) (k : Int) : suspicion :=
  { n := 0, k := Int32.ofInt k, confirmations := [from_] }

/-- `suspicion.Confirm from`: a new peer's confirmation is counted until `k` are reached. -/
def suspicion.Confirm (s : suspicion) (from_ : String) : suspicion × Bool :=
  if s.n ≥ s.k then (s, false)
  else if from_ ∈ s.confirmations then (s, false)
  else ({ s with n := s.n + 1, confirmations := from_ :: s.confirmations }, true)

/-- `awareness`: the health score, kept in `[0, max)`. -/
structure awareness where
  max : Int
  score : Int
  deriving DecidableEq, Repr

/-- `awareness.ApplyDelta`. -/
def awareness.ApplyDelta (a : awareness) (delta : Int) : awareness :=
  let score := a.score + delta
  { a with score := if score < 0 then 0 else if score > a.max - 1 then a.max - 1 else score }

/-- `Keyring`: the installed keys, the primary key first. -/
structure Keyring where
  keys : List (List UInt8)
  deriving DecidableEq, Repr

/-- `Keyring.GetKeys`. -/
def Keyring.GetKeys (k : Keyring) : List (List UInt8) := k.keys

/-- `Keyring.GetPrimaryKey`: the key at position 0, nil for an empty ring. -/
def Keyring.GetPrimaryKey (k : Keyring) : List UInt8 := k.keys.headD []

/-- The configuration fields the modelled functions read.  A Go string that travels on the
    wire (`Label`) is its bytes. -/
structure Config where
  Name : String
  ProtocolVersion : UInt8
  DelegateProtocolVersion : UInt8
  DelegateProtocolMin : UInt8
  DelegateProtocolMax : UInt8
  SuspicionMult : Int
  GossipToTheDeadTime : Int
  DeadNodeReclaimTime : Int
  CIDRsAllowed : List (List UInt8 → Bool)
  Alive : Bool
  Events : Bool
  Conflict : Bool
  Merge : Bool
  AwarenessMaxMultiplier : Int
  BindPort : Nat
  UDPBufferSize : Int
  Label : List UInt8
  SkipInboundLabelCheck : Bool
  EnableCompression : Bool
  GossipVerifyIncoming : Bool
  GossipVerifyOutgoing : Bool
  Keyring : Option Keyring
  RequireNodeNames : Bool

/-- `DefaultLANConfig` with `hostname` as the name: the LAN defaults of the fields above, and no
    delegates. -/
def DefaultLANConfig (hostname : String) : Config where
  Name := hostname
  ProtocolVersion := 2
  DelegateProtocolVersion := 0
  DelegateProtocolMin := 0
  DelegateProtocolMax := 0
  SuspicionMult := 4
  GossipToTheDeadTime := 30 * 1000000000
  DeadNodeReclaimTime := 0
  CIDRsAllowed := []
  Alive := false
  Events := false
  Conflict := false
  Merge := false
  AwarenessMaxMultiplier := 8
  BindPort := 7946
  UDPBufferSize := 1400
  Label := []
  SkipInboundLabelCheck := false
  EnableCompression := true
  GossipVerifyIncoming := true
  GossipVerifyOutgoing := true
  Keyring := none
  RequireNodeNames := false

/-- `ProtocolVersionMin`. -/
def ProtocolVersionMin : UInt8 := 1
/-- `ProtocolVersionMax`. -/
def ProtocolVersionMax : UInt8 := 5
/-- `MetaMaxSize`. -/
def MetaMaxSize : Nat := 512

/-- `Config.BuildVsnArray`. -/
def Config.BuildVsnArray (c : Config) : List UInt8 :=
  [ProtocolVersionMin, ProtocolVersionMax, c.ProtocolVersion,
    c.DelegateProtocolMin, c.DelegateProtocolMax, c.DelegateProtocolVersion]

/-- `Config.IPMustBeChecked`. -/
def Config.IPMustBeChecked (c : Config) : Bool := 0 < c.CIDRsAllowed.length

/-- `Config.IPAllowed`, `true` for a nil error. -/
def Config.IPAllowed (c : Config) (ip : List UInt8) : Bool :=
  !c.IPMustBeChecked || c.CIDRsAllowed.any (· ip)

/-- `Config.EncryptionEnabled`: a keyring with at least one key. -/
def Config.EncryptionEnabled (c : Config) : Bool :=
  match c.Keyring with
  | some k => 0 < k.GetKeys.length
  | none => false

/-- A pointer to a `nodeState`. -/
abbrev Ptr := Nat

/-- The key a broadcast is queued under: a node name, or the text of an address
    (`refute` queues its alive message under `me.Addr.String()`). -/
inductive BroadcastName
  | node (name : String)
  | addr (ip : List UInt8)
  deriving DecidableEq, Repr

/-- The channel a broadcast signals when it is finished. -/
inductive Notify
  | update
  | leaveBroadcast
  deriving DecidableEq, Repr

/-- What a handler does outside the state: broadcasts queued, packets sent, delegate calls,
    and the records `sendLocalState` writes to a push/pull stream. -/
inductive Effect
  | broadcast (name : BroadcastName) (msg : Message) (notify : Option Notify)
  | packet (dest : Node) (msg : Message)
  | notifyJoin (n : Node)
  | notifyLeave (n : Node)
  | notifyUpdate (n : Node)
  | notifyConflict (existing other : Node)
  | state (nodes : List pushNodeState)
  deriving DecidableEq, Repr

/-- Work that will take the node lock later: an armed suspicion timer, a goroutine about to
    call `deadNode` (a fired timer, `Leave`), `probeNode` waiting for acks about a copied
    record, and `mergeState` between two of its handler calls. -/
inductive Pending
  | suspicionTimeout (node : String) (changeTime : Int)
  | markDead (d : dead)
  | probeWait (node : nodeState)
  | merging (remote : List pushNodeState)
  deriving DecidableEq, Repr

/-- The state of a `Memberlist`. -/
structure Memberlist where
  incarnation : UInt32
  numNodes : UInt32
  leave : Bool
  nodes : List Ptr
  nodeMap : AList (fun _ : String => Ptr)
  nodeTimers : AList (fun _ : String => suspicion)
  heap : Ptr → nodeState
  nextPtr : Ptr
  awareness : awareness
  probeIndex : Nat
  pending : List Pending

/-- What the environment decides at one handler call. -/
structure Env where
  now : Int
  rand : UInt32
  verdict : Bool
  shuffle : Nat → Nat
  ack : Bool
  awarenessDelta : Int

/-- `newMemberlist`: no records, no timers, counters at zero. -/
def Memberlist.init (cfg : Config) : Memberlist where
  incarnation := 0
  numNodes := 0
  leave := false
  nodes := []
  nodeMap := ∅
  nodeTimers := ∅
  heap := fun _ => default
  nextPtr := 0
  awareness := { max := cfg.AwarenessMaxMultiplier, score := 0 }
  probeIndex := 0
  pending := []

/-- The record `nodeMap` holds for `name`. -/
def Memberlist.record (m : Memberlist) (name : String) : Option nodeState :=
  (m.nodeMap.lookup name).map m.heap

/-- `estNumNodes`. -/
def Memberlist.estNumNodes (m : Memberlist) : Int := m.numNodes.toNat

end memberlist
