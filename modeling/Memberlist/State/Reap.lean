import Memberlist.State.Handlers
import Mathlib

/-!
# Reaping and shuffling the member list (util.go, state.go)

* `moveDeadNodes` — the partition loop: a record that is Dead or Left and changed more than
  `gossipToTheDeadTime` ago (`reapable`) is swapped with the last record not yet moved, and
  the same index is looked at again.  The loop is translated with its own measure
  `n - numDead - i`.
* `shuffleNodes` — `rand.Shuffle`'s Fisher–Yates pass, `draw i` being the value drawn at
  step `i` (the swap partner is `draw i % (i+1)`).
* `resetNodes` — reap the records `moveDeadNodes` moved to the end (from `nodeMap` and
  `nodes`), store the new count in `numNodes`, and shuffle.

The loop's specification (`moveDeadNodes_perm`, `moveDeadNodes_reapable`,
`moveDeadNodes_kept`) says the result is a permutation whose tail from the returned index
holds exactly the reapable records.
-/

namespace memberlist

/-- A record `moveDeadNodes` moves to the end. -/
def reapable (gossipToTheDeadTime now : Int) (st : nodeState) : Bool :=
  st.DeadOrLeft && decide (now - st.StateChange > gossipToTheDeadTime)

/-- The loop of `moveDeadNodes` at index `i`, with `numDead` records already at the end. -/
def moveDeadNodes.loop (heap : Ptr → nodeState) (gossipToTheDeadTime now : Int) (n : Nat)
    (nodes : List Ptr) (numDead i : Nat) : List Ptr × Nat :=
  if i < n - numDead then
    let st := heap (nodes.getD i 0)
    if ¬ st.DeadOrLeft then loop heap gossipToTheDeadTime now n nodes numDead (i + 1)
    -- respect the gossip to the dead interval
    else if now - st.StateChange ≤ gossipToTheDeadTime then
      loop heap gossipToTheDeadTime now n nodes numDead (i + 1)
    else loop heap gossipToTheDeadTime now n (nodes.swap i (n - numDead - 1)) (numDead + 1) i
  else (nodes, numDead)
termination_by n - numDead - i

/-- `moveDeadNodes nodes gossipToTheDeadTime`: the permuted slice and the index of the first
    moved record. -/
def moveDeadNodes (heap : Ptr → nodeState) (gossipToTheDeadTime now : Int) (nodes : List Ptr) :
    List Ptr × Nat :=
  let r := moveDeadNodes.loop heap gossipToTheDeadTime now nodes.length nodes 0 0
  (r.1, nodes.length - r.2)

/-- `shuffleNodes`: swap position `i` with `draw i % (i+1)` for `i = n-1, …, 1`. -/
def shuffleNodes (nodes : List Ptr) (draw : Nat → Nat) : List Ptr :=
  loop (nodes.length - 1) nodes
where
  /-- The passes `i, i-1, …, 1`. -/
  loop : Nat → List Ptr → List Ptr
    | 0, l => l
    | i + 1, l => loop i (l.swap (i + 1) (draw (i + 1) % (i + 2)))

namespace Memberlist

/-- `resetNodes`, with the time `now` and the draws of the shuffle taken from `env`. -/
def resetNodes (cfg : Config) (m : Memberlist) (env : Env) : Memberlist :=
  let r := moveDeadNodes m.heap cfg.GossipToTheDeadTime env.now m.nodes
  { m with
    nodeMap := (r.1.drop r.2).foldl (fun mp p => mp.erase (m.heap p).Node.Name) m.nodeMap
    nodes := shuffleNodes (r.1.take r.2) env.shuffle
    numNodes := UInt32.ofNat r.2 }

end Memberlist

/-! ### The partition loop -/

section MoveDead

variable (heap : Ptr → nodeState) (g now : Int)

/-- What holds between two rounds of the loop: the length is kept, the records before `i` stay,
    and the `numDead` last ones are reapable. -/
structure MoveInv (n : Nat) (nodes : List Ptr) (numDead i : Nat) : Prop where
  length : nodes.length = n
  bound : numDead + i ≤ n
  kept : ∀ j (hj : j < nodes.length), j < i → reapable g now (heap nodes[j]) = false
  moved : ∀ j (hj : j < nodes.length), n - numDead ≤ j → reapable g now (heap nodes[j]) = true

theorem moveDeadNodes.loop_perm (n : Nat) (nodes : List Ptr) (numDead i : Nat) :
    (moveDeadNodes.loop heap g now n nodes numDead i).1.Perm nodes := by
  fun_induction moveDeadNodes.loop heap g now n nodes numDead i with
  | case1 => assumption
  | case2 => assumption
  | case3 nodes numDead i _ _ _ _ ih => exact ih.trans (List.swap_perm _ _ _)
  | case4 => exact List.Perm.refl _

section Rounds

variable {heap g now} {n : Nat} {nodes : List Ptr} {numDead i : Nat}

/-- A round that keeps the record at `i`, which is not reapable. -/
theorem MoveInv.keep (h : MoveInv heap g now n nodes numDead i) (hi : i < n - numDead)
    (hkeep : ∀ hi' : i < nodes.length, reapable g now (heap nodes[i]) = false) :
    MoveInv heap g now n nodes numDead (i + 1) := by
  have hb := h.bound
  refine ⟨h.length, by omega, fun j hj hji => ?_, h.moved⟩
  rcases Nat.lt_succ_iff_lt_or_eq.mp hji with hji | rfl
  · exact h.kept j hj hji
  · exact hkeep hj

/-- A round that swaps the reapable record at `i` with the last record not yet moved. -/
theorem MoveInv.move (h : MoveInv heap g now n nodes numDead i) (hi : i < n - numDead)
    (hmove : ∀ hi' : i < nodes.length, reapable g now (heap nodes[i]) = true) :
    MoveInv heap g now n (nodes.swap i (n - numDead - 1)) (numDead + 1) i := by
  have hlen := h.length
  have hb := h.bound
  have hi' : i < nodes.length := by omega
  refine ⟨by simp [hlen], by omega, fun j hj hji => ?_, fun j hj hjn => ?_⟩
  · rw [List.getElem_swap_of_ne (by omega) (by omega)]
    exact h.kept j (by simpa using hj) hji
  · by_cases hjl : j = n - numDead - 1
    · subst hjl
      rw [List.getElem_swap_right_of_lt hi']
      exact hmove hi'
    · by_cases hji : j = i
      · subst hji
        rw [List.getElem_swap_left_of_lt (by omega)]
        exact h.moved _ (by omega) (by omega)
      · rw [List.getElem_swap_of_ne hji hjl]
        exact h.moved j (by simpa using hj) (by omega)

end Rounds

/-- One round keeps `MoveInv`; at the exit `i` has met the moved block. -/
theorem moveDeadNodes.loop_spec (n : Nat) (nodes : List Ptr) (numDead i : Nat)
    (h : MoveInv heap g now n nodes numDead i) :
    let r := moveDeadNodes.loop heap g now n nodes numDead i
    MoveInv heap g now n r.1 r.2 (n - r.2) := by
  fun_induction moveDeadNodes.loop heap g now n nodes numDead i with
  | case1 nodes numDead i hi st hst ih =>
    -- a record neither Dead nor Left stays
    refine ih (h.keep hi fun hj => ?_)
    have hd : (heap nodes[i]).DeadOrLeft = false := by
      simp only [st, List.getD_eq_getElem _ 0 hj] at hst; simpa using hst
    simp [reapable, hd]
  | case2 nodes numDead i hi st hst hold ih =>
    -- a record that changed within the gossip to the dead interval stays
    refine ih (h.keep hi fun hj => ?_)
    simp only [reapable, Bool.and_eq_false_iff, decide_eq_false_iff_not]
    right
    have hold' : now - (heap nodes[i]).StateChange ≤ g := by
      simpa only [st, List.getD_eq_getElem _ 0 hj] using hold
    omega
  | case3 nodes numDead i hi st hst hold ih =>
    -- the record at `i` is reapable: it goes to the last unmoved position
    refine ih (h.move hi fun hi' => ?_)
    have hd : (heap nodes[i]).DeadOrLeft = true := by
      simp only [st, List.getD_eq_getElem _ 0 hi'] at hst; simpa using hst
    have hold' : ¬ now - (heap nodes[i]).StateChange ≤ g := by
      simpa only [st, List.getD_eq_getElem _ 0 hi'] using hold
    simp only [reapable, Bool.and_eq_true, decide_eq_true_eq]
    exact ⟨hd, by omega⟩
  | case4 nodes numDead i hi =>
    have hb := h.bound
    refine ⟨h.length, by omega, fun j hj hji => h.kept j hj (by omega), fun j hj hjn => ?_⟩
    exact h.moved j hj (by omega)

variable (nodes : List Ptr)

/-- The loop's invariant at its entry. -/
theorem moveDeadNodes.inv_start : MoveInv heap g now nodes.length nodes 0 0 :=
  ⟨rfl, by omega, fun _ _ h => absurd h (Nat.not_lt_zero _), fun _ hj h => by omega⟩

theorem moveDeadNodes_perm : (moveDeadNodes heap g now nodes).1.Perm nodes :=
  moveDeadNodes.loop_perm heap g now _ _ _ _

theorem moveDeadNodes_le : (moveDeadNodes heap g now nodes).2 ≤ nodes.length := by
  simp [moveDeadNodes]

theorem moveDeadNodes_length : (moveDeadNodes heap g now nodes).1.length = nodes.length :=
  (moveDeadNodes_perm heap g now nodes).length_eq

/-- Every record from the returned index on is reapable. -/
theorem moveDeadNodes_reapable :
    ∀ p ∈ (moveDeadNodes heap g now nodes).1.drop (moveDeadNodes heap g now nodes).2,
      reapable g now (heap p) = true := by
  intro p hp
  have hs := moveDeadNodes.loop_spec heap g now nodes.length nodes 0 0
    (moveDeadNodes.inv_start heap g now nodes)
  obtain ⟨j, hj, rfl⟩ := List.getElem_of_mem hp
  rw [List.getElem_drop]
  exact hs.moved _ _ (by simp [moveDeadNodes])

/-- Every record before the returned index is kept. -/
theorem moveDeadNodes_kept :
    ∀ p ∈ (moveDeadNodes heap g now nodes).1.take (moveDeadNodes heap g now nodes).2,
      reapable g now (heap p) = false := by
  intro p hp
  have hs := moveDeadNodes.loop_spec heap g now nodes.length nodes 0 0
    (moveDeadNodes.inv_start heap g now nodes)
  obtain ⟨j, hj, rfl⟩ := List.getElem_of_mem hp
  rw [List.getElem_take]
  simp only [List.length_take] at hj
  exact hs.kept _ _ (by simp [moveDeadNodes] at hj ⊢; omega)

/-- A list cut where a test turns from false to true: the part before the cut is what fails the
    test, the part after it what passes. -/
theorem filter_eq_take_drop {α : Type} {f : α → Bool} {l : List α} {k : Nat}
    (hk : ∀ a ∈ l.take k, f a = false) (hd : ∀ a ∈ l.drop k, f a = true) :
    l.filter (fun a => !f a) = l.take k ∧ l.filter f = l.drop k := by
  have hsplit := List.take_append_drop k l
  constructor
  · conv_lhs => rw [← hsplit]
    rw [List.filter_append, List.filter_eq_self.mpr (by simpa using hk),
      List.filter_eq_nil_iff.mpr (by simpa using hd), List.append_nil]
  · conv_lhs => rw [← hsplit]
    rw [List.filter_append, List.filter_eq_nil_iff.mpr (by simpa using hk),
      List.filter_eq_self.mpr hd, List.nil_append]

/-- `moveDeadNodes` partitions: it permutes the slice, the records before the index it returns
    are exactly (with their multiplicities) the input records that are not reapable, and the
    records from it on exactly those that are. -/
theorem moveDeadNodes_partitions :
    (moveDeadNodes heap g now nodes).1.Perm nodes ∧
      ((moveDeadNodes heap g now nodes).1.take (moveDeadNodes heap g now nodes).2).Perm
        (nodes.filter fun p => !reapable g now (heap p)) ∧
      ((moveDeadNodes heap g now nodes).1.drop (moveDeadNodes heap g now nodes).2).Perm
        (nodes.filter fun p => reapable g now (heap p)) := by
  have hperm := moveDeadNodes_perm heap g now nodes
  -- filtering the permuted slice gives the two parts, and filtering commutes with `Perm`
  obtain ⟨hkept, hmoved⟩ := filter_eq_take_drop (moveDeadNodes_kept heap g now nodes)
    (moveDeadNodes_reapable heap g now nodes)
  refine ⟨hperm, ?_, ?_⟩
  · rw [← hkept]
    exact hperm.filter _
  · rw [← hmoved]
    exact hperm.filter _

end MoveDead

/-! ### The shuffle -/

theorem shuffleNodes.loop_perm (draw : Nat → Nat) (i : Nat) (l : List Ptr) :
    (shuffleNodes.loop draw i l).Perm l := by
  induction i generalizing l with
  | zero => exact List.Perm.refl _
  | succ i ih => exact (ih _).trans (List.swap_perm _ _ _)

theorem shuffleNodes_perm (nodes : List Ptr) (draw : Nat → Nat) :
    (shuffleNodes nodes draw).Perm nodes :=
  shuffleNodes.loop_perm draw _ _

section ResetFields

variable (cfg : Config) (m : Memberlist) (env : Env)

@[simp] theorem Memberlist.resetNodes_heap : (m.resetNodes cfg env).heap = m.heap := rfl
@[simp] theorem Memberlist.resetNodes_nodeTimers :
    (m.resetNodes cfg env).nodeTimers = m.nodeTimers := rfl
@[simp] theorem Memberlist.resetNodes_nextPtr : (m.resetNodes cfg env).nextPtr = m.nextPtr := rfl
@[simp] theorem Memberlist.resetNodes_pending : (m.resetNodes cfg env).pending = m.pending := rfl
@[simp] theorem Memberlist.resetNodes_leave : (m.resetNodes cfg env).leave = m.leave := rfl
@[simp] theorem Memberlist.resetNodes_incarnation :
    (m.resetNodes cfg env).incarnation = m.incarnation := rfl

end ResetFields

/-- `resetNodes` drops from `nodeMap` the names of the records it reaps, and only those. -/
theorem Memberlist.resetNodes_nodeMap_lookup (cfg : Config) (m : Memberlist) (env : Env)
    (k : String) :
    (m.resetNodes cfg env).nodeMap.lookup k =
      if k ∈ ((moveDeadNodes m.heap cfg.GossipToTheDeadTime env.now m.nodes).1.drop
          (moveDeadNodes m.heap cfg.GossipToTheDeadTime env.now m.nodes).2).map
          (fun p => (m.heap p).Node.Name) then none
      else m.nodeMap.lookup k :=
  Go.lookup_foldl_erase _ _ _ _

/-- `resetNodes` never lengthens `nodes`: what `probe` counts its rounds against. -/
theorem Memberlist.resetNodes_length_le (cfg : Config) (m : Memberlist) (env : Env) :
    (m.resetNodes cfg env).nodes.length ≤ m.nodes.length := by
  have hperm := shuffleNodes_perm
    ((moveDeadNodes m.heap cfg.GossipToTheDeadTime env.now m.nodes).1.take
      (moveDeadNodes m.heap cfg.GossipToTheDeadTime env.now m.nodes).2) env.shuffle
  have hlen := moveDeadNodes_length m.heap cfg.GossipToTheDeadTime env.now m.nodes
  simp only [Memberlist.resetNodes, hperm.length_eq, List.length_take]
  omega

/-- `resetNodes` keeps some of the records of `nodes`, in some order, and adds none. -/
theorem Memberlist.resetNodes_mem {cfg : Config} {m : Memberlist} {env : Env} {p : Ptr}
    (hp : p ∈ (m.resetNodes cfg env).nodes) : p ∈ m.nodes := by
  set r := moveDeadNodes m.heap cfg.GossipToTheDeadTime env.now m.nodes
  have htake : p ∈ r.1.take r.2 := (shuffleNodes_perm (r.1.take r.2) env.shuffle).mem_iff.mp hp
  exact (moveDeadNodes_perm m.heap cfg.GossipToTheDeadTime env.now m.nodes).mem_iff.mp
    (List.mem_of_mem_take htake)

end memberlist
