import Memberlist.State.Step

/-!
# A cluster of memberlist instances

Instances with distinct names exchange gossip and probe packets and push/pull streams.  The
network is the list of everything sent so far: an instance may receive any of it, any number
of times and in any order, or never, so loss, duplication, delay and reordering need no rule of
their own.  Nothing is forged: an instance only receives what some instance sent.

* `Wire` — what travels: a message, or the records of a push/pull stream.
* `Effect.wire`, `Op.input` — what a step sends and what it receives.
* `Cluster.Step` — one instance takes one step of its own model.
* `Cluster.Reachable` — the states of runs in which no incarnation counter reaches
  `2^32 - 1`.
-/

namespace memberlist

/-- What travels between instances: a message, or the records of a push/pull stream. -/
inductive Wire
  | msg (m : Message)
  | state (nodes : List pushNodeState)
  deriving DecidableEq, Repr

/-- What an effect puts on the network: a queued broadcast is gossiped, a packet is sent, and
    `sendLocalState` writes the records to a stream. -/
def Effect.wire : Effect → Option Wire
  | .broadcast _ msg _ => some (.msg msg)
  | .packet _ msg => some (.msg msg)
  | .state nodes => some (.state nodes)
  | _ => none

/-- What an operation receives from the network. -/
def Op.input : Op → Option Wire
  | .alive a => some (.msg (.alive a))
  | .suspect s => some (.msg (.suspect s))
  | .dead d => some (.msg (.dead d))
  | .pushPull _ remote => some (.state remote)
  | _ => none

/-- The instances, by name, and everything sent so far. -/
structure Cluster where
  inst : String → Memberlist
  net : List Wire

/-- Every instance as `newMemberlist` leaves it, and nothing sent. -/
def Cluster.init (cfg : String → Config) : Cluster where
  inst X := Memberlist.init (cfg X)
  net := []

/-- The instance `X` of `members` takes a step, on input from the network, and sends what the
    step's effects send. -/
inductive Cluster.Step (cfg : String → Config) (members : List String) :
    Cluster → String × Env × Op × List Effect → Cluster → Prop
  | step {c : Cluster} {X : String} {env : Env} {op : Op} {m' : Memberlist}
      {eff : List Effect} :
      X ∈ members → (∀ w, op.input = some w → w ∈ c.net) →
      (c.inst X).step (cfg X) env op = .ok (m', eff) →
      Cluster.Step cfg members c (X, env, op, eff)
        ⟨Function.update c.inst X m', c.net ++ eff.filterMap Effect.wire⟩

/-- `2^32 - 1`, the incarnation counter no instance reaches. -/
def maxIncarnation : Nat := 4294967295

/-- A step after which no counter has reached `2^32 - 1`. -/
def Cluster.NoWrapStep (cfg : String → Config) (members : List String) (c : Cluster)
    (l : String × Env × Op × List Effect) (c' : Cluster) : Prop :=
  Cluster.Step cfg members c l c' ∧ ∀ X, (c'.inst X).incarnation.toNat < maxIncarnation

/-- The states of the cluster, from every instance new, along runs in which no incarnation
    counter reaches `2^32 - 1`. -/
def Cluster.Reachable (cfg : String → Config) (members : List String) : Cluster → Prop :=
  Transition.Reach (Cluster.NoWrapStep cfg members) (· = Cluster.init cfg)

/-- A step of one instance from a reachable state, after which no counter has reached
    `2^32 - 1`, leads to a reachable state. -/
theorem Cluster.Reachable.of_step {cfg : String → Config} {members : List String} {c : Cluster}
    {X : String} {env : Env} {op : Op} {r : Memberlist × List Effect}
    (h : Cluster.Reachable cfg members c) (hX : X ∈ members)
    (hin : ∀ w, op.input = some w → w ∈ c.net) (hs : (c.inst X).step (cfg X) env op = .ok r)
    (hroom : ∀ Y, (Function.update c.inst X r.1 Y).incarnation.toNat < maxIncarnation) :
    Cluster.Reachable cfg members ⟨Function.update c.inst X r.1, c.net ++ r.2.filterMap Effect.wire⟩ :=
  Transition.Reach.step h
    (show Cluster.NoWrapStep cfg members c (X, env, op, r.2) _ from ⟨.step hX hin hs, hroom⟩)

end memberlist
