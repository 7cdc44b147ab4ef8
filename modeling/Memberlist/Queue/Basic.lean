import Memberlist.Lib.Go
import Memberlist.Lib.SortedSet
import Mathlib

/-!
# `TransmitLimitedQueue` (queue.go)

The broadcast queue: a B-tree of `limitedBroadcast`s ordered by `Less` (fewest transmits
first, then longest message, then newest id), a map from broadcast name to the queued item
of that name, and the id generator.

* `Broadcast` — a queued broadcast as the queue sees it: the identity of the interface value
  (what `Finished` is called on), its `Message()` bytes (stable, as the queue assumes) and the
  optional interface it implements.  `Invalidates` is user code: the operations take it as a
  function `invalidates b other`.
* `TransmitLimitedQueue` — `tq` and `tm` are `none` while nil (the zero queue and after
  `Reset`), as the source has them.
* `queueBroadcast`, `deleteItem`, `addItem`, `getTransmitRange`, `GetBroadcasts`, `Prune`,
  `Reset`, `NumQueued` — translated from the source; each returns the `Broadcast`s it calls
  `Finished` on, in call order.
* `QueueOp` and `runQueue` — sequences of calls of the public API.

`NumNodes` is a callback; `GetBroadcasts` calls it once and takes its value as an argument.
`retransmitLimit` computes `⌈log₁₀(n+1)⌉` in `float64`; the model uses the exact integer
`Nat.clog 10 (n+1)`, which is what the float computation yields away from exact powers of ten.
-/

namespace memberlist

open Go

/-- How `queueBroadcast` classifies a broadcast: `NamedBroadcast` is tested first, then
    `UniqueBroadcast`. -/
inductive BroadcastKind
  | named (name : String)
  | unique
  | plain
  deriving DecidableEq, Repr

/-- A `Broadcast` value as the queue sees it. -/
structure Broadcast where
  ident : Nat
  Message : List UInt8
  kind : BroadcastKind
  deriving DecidableEq, Repr

/-- `limitedBroadcast`: the B-tree key `(transmits, msgLen, id)`, the broadcast, and its name
    (empty unless it is a `NamedBroadcast`). -/
structure limitedBroadcast where
  transmits : Int
  msgLen : Int
  id : Int
  b : Broadcast
  name : String
  deriving DecidableEq, Repr

/-- `limitedBroadcast.Less`. -/
def limitedBroadcast.Less (b o : limitedBroadcast) : Bool :=
  if b.transmits < o.transmits then true
  else if b.transmits > o.transmits then false
  else if b.msgLen > o.msgLen then true
  else if b.msgLen < o.msgLen then false
  else b.id > o.id

/-- `TransmitLimitedQueue` (the mutex is not modelled: every operation runs under it). -/
structure TransmitLimitedQueue where
  RetransmitMult : Int
  tq : Option (List limitedBroadcast)
  tm : Option (AList (fun _ : String => limitedBroadcast))
  idGen : Int

namespace TransmitLimitedQueue

/-- The queue as `&TransmitLimitedQueue{RetransmitMult: mult}` builds it. -/
def zero (mult : Int) : TransmitLimitedQueue :=
  { RetransmitMult := mult, tq := none, tm := none, idGen := 0 }

/-- The panic of a method call on the nil `*btree.BTree`. -/
def nilTree : Panic := ⟨"invalid memory address or nil pointer dereference"⟩

/-- `lazyInit`. -/
def lazyInit (q : TransmitLimitedQueue) : TransmitLimitedQueue :=
  { q with tq := some (q.tq.getD []), tm := some (q.tm.getD ∅) }

/-- `lenLocked`. -/
def lenLocked (q : TransmitLimitedQueue) : Nat :=
  match q.tq with
  | none => 0
  | some t => t.length

/-- `deleteItem`: delete from the tree and the name map; reset the id generator when the
    tree becomes empty. -/
def deleteItem (q : TransmitLimitedQueue) (cur : limitedBroadcast) :
    Except Panic TransmitLimitedQueue :=
  match q.tq with
  | none => .error nilTree
  | some t =>
    let t := SortedSet.delete limitedBroadcast.Less cur t
    -- `delete` on a nil map is a no-op
    let tm := if cur.name ≠ "" then q.tm.map (·.erase cur.name) else q.tm
    .ok { q with tq := some t, tm := tm, idGen := if t.length = 0 then 0 else q.idGen }

/-- `addItem`: `ReplaceOrInsert` into the tree, and record named items in the map. -/
def addItem (q : TransmitLimitedQueue) (cur : limitedBroadcast) :
    Except Panic TransmitLimitedQueue :=
  match q.tq with
  | none => .error nilTree
  | some t =>
    let t := SortedSet.replaceOrInsert limitedBroadcast.Less cur t
    if cur.name ≠ "" then
      match q.tm with
      | none => .error ⟨"assignment to entry in nil map"⟩
      | some tm => .ok { q with tq := some t, tm := some (tm.insert cur.name cur) }
    else .ok { q with tq := some t }

/-- `deleteItem` on each item in turn. -/
def deleteAll (q : TransmitLimitedQueue) : List limitedBroadcast → Except Panic TransmitLimitedQueue
  | [] => .ok q
  | cur :: rest => do
    let q ← q.deleteItem cur
    q.deleteAll rest

/-- `addItem` on each item in turn. -/
def addAll (q : TransmitLimitedQueue) : List limitedBroadcast → Except Panic TransmitLimitedQueue
  | [] => .ok q
  | cur :: rest => do
    let q ← q.addItem cur
    q.addAll rest

/-- `queueBroadcast b initialTransmits`: stamp a new id, drop what the new broadcast
    invalidates (by name for a named broadcast; by `Invalidates` over the plain items
    otherwise, unique broadcasts invalidating nothing), then add it.  Returns the broadcasts
    `Finished` was called on. -/
def queueBroadcast (invalidates : Broadcast → Broadcast → Bool) (q : TransmitLimitedQueue)
    (b : Broadcast) (initialTransmits : Int) :
    Except Panic (TransmitLimitedQueue × List Broadcast) := do
  let q := q.lazyInit
  let id := if q.idGen = MaxInt64 then 1 else q.idGen + 1
  let q := { q with idGen := id }
  let name := match b.kind with
    | .named n => n
    | _ => ""
  let unique := b.kind = .unique
  let lb : limitedBroadcast :=
    { transmits := initialTransmits, msgLen := b.Message.length, id := id, b := b, name := name }
  let (q, finished) ←
    if lb.name ≠ "" then
      match q.tm.bind (·.lookup lb.name) with
      | some old => do
        let q ← q.deleteItem old
        pure (q, [old.b])
      | none => pure (q, [])
    else if ¬ unique then do
      -- the slow path: the plain items the new broadcast invalidates, in ascending order
      let remove := (q.tq.getD []).filter fun cur => cur.b.kind = .plain ∧ invalidates b cur.b
      let q ← q.deleteAll remove
      pure (q, remove.map (·.b))
    else pure (q, [])
  let q ← q.addItem lb
  pure (q, finished)

/-- `QueueBroadcast`. -/
def QueueBroadcast (invalidates : Broadcast → Broadcast → Bool) (q : TransmitLimitedQueue)
    (b : Broadcast) : Except Panic (TransmitLimitedQueue × List Broadcast) :=
  q.queueBroadcast invalidates b 0

/-- `getTransmitRange`: the transmit counts of the least and greatest items. -/
def getTransmitRange (q : TransmitLimitedQueue) : Int × Int :=
  if q.lenLocked = 0 then (0, 0)
  else
    match (q.tq.getD []).head?, (q.tq.getD []).getLast? with
    | some mn, some mx => (mn.transmits, mx.transmits)
    | _, _ => (0, 0)

end TransmitLimitedQueue

/-- `retransmitLimit retransmitMult n`: `retransmitMult · ⌈log₁₀(n+1)⌉`. -/
def retransmitLimit (retransmitMult : Int) (n : Nat) : Int :=
  retransmitMult * (Nat.clog 10 (n + 1) : Int)

namespace TransmitLimitedQueue

/-- A `limitedBroadcast` used only as a search bound of `AscendRange`. -/
def bound (transmits msgLen : Int) : limitedBroadcast :=
  { transmits := transmits, msgLen := msgLen, id := MaxInt64,
    b := { ident := 0, Message := [], kind := .plain }, name := "" }

/-- The least item of tier `transmits` in `[bound transmits free, bound (transmits+1) ∞)`
    whose message fits in `free` bytes (the iterator of `GetBroadcasts`). -/
def pick (t : List limitedBroadcast) (transmits free : Int) : Option limitedBroadcast :=
  SortedSet.ascendRange limitedBroadcast.Less (bound transmits free) (bound (transmits + 1) MaxInt64)
    (fun keep cur => if (cur.b.Message.length : Int) > free then (keep, true) else (some cur, false))
    t none

/-- The loop of `GetBroadcasts` over the tiers `transmits ≤ maxTr`: the queue, the bytes
    used, the messages to send, the items to re-insert and the finished broadcasts.  Each
    round either advances the tier or deletes an item, so `fuel` = items + tiers suffices. -/
def getLoop (overhead limit transmitLimit maxTr : Int) :
    Nat → TransmitLimitedQueue → Int → Int → List (List UInt8) → List limitedBroadcast →
      List Broadcast →
      Except Panic (TransmitLimitedQueue × List (List UInt8) × List limitedBroadcast × List Broadcast)
  | 0, q, _, _, toSend, reinsert, finished => .ok (q, toSend, reinsert, finished)
  | fuel + 1, q, transmits, bytesUsed, toSend, reinsert, finished =>
    if transmits > maxTr then .ok (q, toSend, reinsert, finished)
    else
      let free := limit - bytesUsed - overhead
      if free ≤ 0 then .ok (q, toSend, reinsert, finished)
      else
        match pick (q.tq.getD []) transmits free with
        | none => getLoop overhead limit transmitLimit maxTr fuel q (transmits + 1) bytesUsed
            toSend reinsert finished
        | some keep => do
          let msg := keep.b.Message
          let q ← q.deleteItem keep
          -- at the limit the item is finished; otherwise it is re-inserted one tier up after
          -- the walk
          if keep.transmits + 1 ≥ transmitLimit then
            getLoop overhead limit transmitLimit maxTr fuel q transmits
              (bytesUsed + overhead + msg.length) (toSend ++ [msg]) reinsert (finished ++ [keep.b])
          else
            getLoop overhead limit transmitLimit maxTr fuel q transmits
              (bytesUsed + overhead + msg.length) (toSend ++ [msg])
              (reinsert ++ [{ keep with transmits := keep.transmits + 1 }]) finished

/-- `GetBroadcasts overhead limit`, with `numNodes` the value `NumNodes()` returns: the
    queue, the messages to send and the broadcasts `Finished` was called on. -/
def GetBroadcasts (q : TransmitLimitedQueue) (overhead limit : Int) (numNodes : Nat) :
    Except Panic (TransmitLimitedQueue × List (List UInt8) × List Broadcast) := do
  if q.lenLocked = 0 then return (q, [], [])
  let transmitLimit := retransmitLimit q.RetransmitMult numNodes
  let (minTr, maxTr) := q.getTransmitRange
  let fuel := q.lenLocked + (maxTr - minTr).toNat + 1
  let (q, toSend, reinsert, finished) ←
    getLoop overhead limit transmitLimit maxTr fuel q minTr 0 [] [] []
  let q ← q.addAll reinsert
  return (q, toSend, finished)

/-- `NumQueued`. -/
def NumQueued (q : TransmitLimitedQueue) : Nat := q.lenLocked

/-- `Reset`: `Finished` on every item in ascending order, then nil tree and map. -/
def Reset (q : TransmitLimitedQueue) : TransmitLimitedQueue × List Broadcast :=
  ({ q with tq := none, tm := none, idGen := 0 }, (q.tq.getD []).map (·.b))

/-- The loop of `Prune`: while more than `maxRetain` items are queued, finish and delete the
    greatest.  `q.tq.Len()` on the nil tree panics. -/
def pruneLoop (maxRetain : Int) : Nat → TransmitLimitedQueue → List Broadcast →
    Except Panic (TransmitLimitedQueue × List Broadcast)
  | 0, q, finished => .ok (q, finished)
  | fuel + 1, q, finished =>
    match q.tq with
    | none => .error nilTree
    | some t =>
      if (t.length : Int) > maxRetain then
        match t.getLast? with
        | none => .ok (q, finished)
        | some cur => do
          let q ← q.deleteItem cur
          pruneLoop maxRetain fuel q (finished ++ [cur.b])
      else .ok (q, finished)

/-- `Prune maxRetain`. -/
def Prune (q : TransmitLimitedQueue) (maxRetain : Int) :
    Except Panic (TransmitLimitedQueue × List Broadcast) :=
  pruneLoop maxRetain (q.lenLocked + 1) q []

end TransmitLimitedQueue

/-- A call of the queue's public API. -/
inductive QueueOp
  | QueueBroadcast (b : Broadcast)
  | GetBroadcasts (overhead limit : Int) (numNodes : Nat)
  | Prune (maxRetain : Int)
  | Reset

/-- One call: the queue after it and the broadcasts it finished. -/
def QueueOp.apply (invalidates : Broadcast → Broadcast → Bool) (q : TransmitLimitedQueue) :
    QueueOp → Except Panic (TransmitLimitedQueue × List Broadcast)
  | .QueueBroadcast b => q.QueueBroadcast invalidates b
  | .GetBroadcasts overhead limit numNodes => do
    let (q, _, finished) ← q.GetBroadcasts overhead limit numNodes
    pure (q, finished)
  | .Prune maxRetain => q.Prune maxRetain
  | .Reset => .ok q.Reset

/-- A sequence of calls: the final queue and every `Finished` call, in order. -/
def runQueue (invalidates : Broadcast → Broadcast → Bool) :
    TransmitLimitedQueue → List QueueOp → Except Panic (TransmitLimitedQueue × List Broadcast)
  | q, [] => .ok (q, [])
  | q, op :: ops => do
    let (q, fin) ← op.apply invalidates q
    let (q, fin') ← runQueue invalidates q ops
    pure (q, fin ++ fin')

/-- The broadcasts the calls queue, in order. -/
def queued : List QueueOp → List Broadcast
  | [] => []
  | .QueueBroadcast b :: ops => b :: queued ops
  | _ :: ops => queued ops

/-- `b` has been lost by a run's outcome: it is in neither the tree nor the finished list. -/
def Lost (b : Broadcast) : Except Panic (TransmitLimitedQueue × List Broadcast) → Prop
  | .ok (q, finished) => b ∉ (q.tq.getD []).map (·.b) ∧ b ∉ finished
  | .error _ => False

instance (b : Broadcast) : DecidablePred (Lost b) := fun r =>
  match r with
  | .ok _ => inferInstanceAs (Decidable (_ ∧ _))
  | .error _ => isFalse id

/-- Two plain one-byte broadcasts that invalidate nothing. -/
def lossA : Broadcast := { ident := 1, Message := [120], kind := .plain }

/-- The second broadcast of `idReuseRun`. -/
def lossB : Broadcast := { ident := 2, Message := [121], kind := .plain }

/-- Queue `lossA`, send it once (the tree empties while it waits for re-insertion, so the id
    generator restarts), queue `lossB` (which gets `lossA`'s id again), send it once: its
    re-insertion lands on `lossA`'s key `(1, 1, 1)` and `ReplaceOrInsert` drops `lossA`. -/
def idReuseRun : List QueueOp :=
  [.QueueBroadcast lossA, .GetBroadcasts 0 1 1, .QueueBroadcast lossB, .GetBroadcasts 0 1 1]

theorem getBroadcasts_idReset_loses_broadcast :
    lossA ∈ queued idReuseRun ∧
      Lost lossA (runQueue (fun _ _ => false) (TransmitLimitedQueue.zero 2) idReuseRun) := by
  decide

end memberlist
