import Memberlist.State.Timers

/-!
# Membership events (event_delegate.go)

The `EventDelegate` calls are effects of the handlers: `aliveNode` notifies a join when the
record it updated was Dead or Left ("if Dead/Left -> Alive, notify of join") and an update when
the meta changed, and `deadNode` notifies a leave when it marks a record Left or Dead.

* `nodeEvents X` — the calls about the node `X` among a list of effects;
* `eventsOrdered` — the automaton of `(NotifyJoin NotifyUpdate* NotifyLeave)*` followed by at
  most one `NotifyJoin NotifyUpdate*`, started joined or not.

The join notification also runs after the refutation branch of `aliveNode`, which leaves the
local record in its state: an alive message about the local name that arrives before
`setAlive` creates a Dead record, refutes it, and notifies a join for a record that stays Dead
(`refute_notifies_join_twice`).
-/

namespace memberlist

/-- The three `EventDelegate` calls. -/
inductive NodeEvent
  | join
  | update
  | leave
  deriving DecidableEq, Repr

/-- The `EventDelegate` call an effect makes about the node named `X`. -/
def Effect.event (X : String) : Effect → Option NodeEvent
  | .notifyJoin n => if n.Name = X then some .join else none
  | .notifyUpdate n => if n.Name = X then some .update else none
  | .notifyLeave n => if n.Name = X then some .leave else none
  | _ => none

/-- The `EventDelegate` calls about `X`, in order. -/
def nodeEvents (X : String) (es : List Effect) : List NodeEvent :=
  es.filterMap (Effect.event X)

/-- Whether the calls follow `(NotifyJoin NotifyUpdate* NotifyLeave)*`, possibly ending after a
    `NotifyJoin NotifyUpdate*`, from a node that is `joined` or not. -/
def eventsOrdered : Bool → List NodeEvent → Bool
  | _, [] => true
  | false, .join :: es => eventsOrdered true es
  | true, .update :: es => eventsOrdered true es
  | true, .leave :: es => eventsOrdered false es
  | _, _ :: _ => false

theorem refute_notifies_join_twice :
    ∃ r, (Memberlist.init { DefaultLANConfig "a" with Events := true }).exec
        { DefaultLANConfig "a" with Events := true }
        [(Env.at 0, .alive ⟨1, "a", [10, 0, 0, 1], 7946, [], []⟩),
         (Env.at 1, .alive ⟨5, "a", [10, 0, 0, 1], 7946, [], []⟩)] = .ok r ∧
      nodeEvents "a" r.2 = [.join, .join] ∧ eventsOrdered false (nodeEvents "a" r.2) = false ∧
      r.1.nodeMap.lookup "a" = some 0 ∧ (r.1.heap 0).State = StateDead :=
  ⟨_, rfl, rfl, rfl, rfl, rfl⟩

end memberlist
