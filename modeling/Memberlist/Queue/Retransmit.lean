import Mathlib
import Memberlist.Queue.Greedy
import Memberlist.Lib.Run

/-!
# Bounded retransmission (queue.go)

`GetBroadcasts` sends each item it takes once more; an item whose count then reaches
`retransmitLimit` is finished, and the others go back a tier up.  Over every run of the
queue's API in which `NumNodes()` is one `n`, a broadcast queued `k` times is therefore returned
by at most `k · sendCap mult n` calls, and the call in which it reaches that number finishes it
and leaves no item of it in the queue (`getBroadcasts_transmits_bounded`).

* `QueueOp.sends` — the broadcasts whose messages a call returns (`GetBroadcasts_msgs`);
  `sendCount` — how many calls of a run return a broadcast, the cost of the run in the sense of
  `Run.cost`.
* `Shrinks` — what `deleteItem`, `deleteAll` and `Prune` do to a queue: they only delete.
* `RunInv` — the invariant of the runs: the tree sorted, each count below `sendCap mult n`,
  the name map present with the tree.
* `budget` — the potential: over the items of a broadcast, how many more calls may return it.
  Each call keeps `RunInv` and pays what it sends out of `budget`; queueing the broadcast tops
  it up by `sendCap mult n` (`RunInv.apply`).  `Run.cost_le` and `Run.run_cost_le` do the rest.

The bound holds even where ids collide (`getBroadcasts_idReset_loses_broadcast`): a collision
loses an item, which only lowers the budget.
-/

namespace memberlist

open Go limitedBroadcast

/-- The broadcasts whose messages a call returns: for `GetBroadcasts`, those of the items its
    walk takes, in order; the other calls return no messages. -/
def QueueOp.sends (q : TransmitLimitedQueue) : QueueOp → List Broadcast
  | .GetBroadcasts overhead limit _ => (q.taken overhead limit).map (·.b)
  | _ => []

/-- The call sees `NumNodes() = n` if it asks for it. -/
def QueueOp.numNodesIs (n : Nat) : QueueOp → Prop
  | .GetBroadcasts _ _ numNodes => numNodes = n
  | _ => True

/-- How many calls of `GetBroadcasts` may return a queued broadcast with `NumNodes() = n`: the
    limit, and at least one, since an item is sent before its count is compared. -/
def sendCap (mult : Int) (n : Nat) : Int := max 1 (retransmitLimit mult n)

/-- How many calls of the run `ops` from `q` return `b`, up to the first panic. -/
def sendCount (invalidates : Broadcast → Broadcast → Bool) (b : Broadcast)
    (q : TransmitLimitedQueue) (ops : List QueueOp) : Nat :=
  Run.cost (fun q op => op.apply invalidates q) (fun q op => if b ∈ op.sends q then 1 else 0) q ops

theorem runQueue_eq_run (invalidates : Broadcast → Broadcast → Bool) (ops : List QueueOp) :
    ∀ q, runQueue invalidates q ops = Run.run (fun q op => op.apply invalidates q) q ops := by
  induction ops with
  | nil => exact fun q => rfl
  | cons op ops ih =>
    intro q
    rw [runQueue, Run.run]
    simp only [ih]

theorem queued_cons (op : QueueOp) (ops : List QueueOp) :
    queued (op :: ops) = queued [op] ++ queued ops := by
  cases op <;> rfl

/-- What the calls of a run top the budget of `b` up by: `cap` for each time it is queued. -/
theorem sum_count_queued (b : Broadcast) (cap : Nat) :
    ∀ ops : List QueueOp,
      (ops.map fun op => (queued [op]).count b * cap).sum = (queued ops).count b * cap
  | [] => by rw [List.map_nil, List.sum_nil, queued, List.count_nil, Nat.zero_mul]
  | op :: ops => by
    rw [List.map_cons, List.sum_cons, sum_count_queued b cap ops, queued_cons op ops,
      List.count_append, Nat.add_mul]

namespace TransmitLimitedQueue

/-! ### Deleting -/

/-- `q'` is `q` with items deleted: the tree a sublist, the tree and the map nil exactly when
    they were, `RetransmitMult` unchanged. -/
structure Shrinks (q q' : TransmitLimitedQueue) : Prop where
  mult_eq : q'.RetransmitMult = q.RetransmitMult
  tq_isSome : q'.tq.isSome = q.tq.isSome
  tm_isSome : q'.tm.isSome = q.tm.isSome
  sublist : (q'.tq.getD []).Sublist (q.tq.getD [])

theorem Shrinks.refl (q : TransmitLimitedQueue) : Shrinks q q :=
  ⟨rfl, rfl, rfl, List.Sublist.refl _⟩

theorem Shrinks.trans {q₁ q₂ q₃ : TransmitLimitedQueue} (h₁ : Shrinks q₁ q₂) (h₂ : Shrinks q₂ q₃) :
    Shrinks q₁ q₃ :=
  ⟨h₂.mult_eq.trans h₁.mult_eq, h₂.tq_isSome.trans h₁.tq_isSome, h₂.tm_isSome.trans h₁.tm_isSome,
    h₂.sublist.trans h₁.sublist⟩

theorem deleteItem_shrinks {q q' : TransmitLimitedQueue} {cur : limitedBroadcast}
    (h : q.deleteItem cur = .ok q') : Shrinks q q' := by
  unfold deleteItem at h
  split at h
  · cases h
  · rename_i t ht
    cases h
    refine ⟨rfl, by rw [ht]; rfl, ?_, ?_⟩
    · -- the name map loses at most a name
      dsimp only
      split
      · exact Option.isSome_map
      · rfl
    · rw [ht]
      exact SortedSet.delete_sublist _ _

theorem deleteAll_shrinks : ∀ {q q' : TransmitLimitedQueue} {P : List limitedBroadcast},
    q.deleteAll P = .ok q' → Shrinks q q'
  | q, q', [], h => by
    rw [deleteAll] at h
    cases h
    exact Shrinks.refl q
  | q, q', cur :: P, h => by
    rw [deleteAll] at h
    simp only [bind, Except.bind] at h
    split at h
    · cases h
    · rename_i q₁ h₁
      exact (deleteItem_shrinks h₁).trans (deleteAll_shrinks h)

theorem pruneLoop_shrinks (maxRetain : Int) : ∀ (fuel : Nat) {q q' : TransmitLimitedQueue}
    {finished finished' : List Broadcast},
    pruneLoop maxRetain fuel q finished = .ok (q', finished') → Shrinks q q'
  | 0, q, q', _, _, h => by
    rw [pruneLoop] at h
    cases h
    exact Shrinks.refl q
  | fuel + 1, q, q', _, _, h => by
    rw [pruneLoop] at h
    split at h
    · cases h
    · split at h
      · split at h
        · cases h
          exact Shrinks.refl q
        · -- the greatest item is deleted, and the loop goes on
          simp only [bind, Except.bind] at h
          split at h
          · cases h
          · rename_i q₁ h₁
            exact (deleteItem_shrinks h₁).trans (pruneLoop_shrinks maxRetain fuel h)
      · cases h
        exact Shrinks.refl q

theorem Prune_shrinks {q q' : TransmitLimitedQueue} {maxRetain : Int} {finished : List Broadcast}
    (h : q.Prune maxRetain = .ok (q', finished)) : Shrinks q q' :=
  pruneLoop_shrinks maxRetain _ h

/-! ### Adding -/

theorem addItem_eq_ok {q q' : TransmitLimitedQueue} {cur : limitedBroadcast}
    (h : q.addItem cur = .ok q') :
    q'.RetransmitMult = q.RetransmitMult ∧ q.tq.isSome ∧
      q'.tq = some (SortedSet.replaceOrInsert limitedBroadcast.Less cur (q.tq.getD [])) ∧
      (q.tm.isSome → q'.tm.isSome) := by
  unfold addItem at h
  split at h
  · cases h
  · rename_i t ht
    rw [ht]
    split at h
    · split at h
      · cases h
      · cases h
        exact ⟨rfl, rfl, rfl, fun _ => rfl⟩
    · cases h
      exact ⟨rfl, rfl, rfl, id⟩

/-- `queueBroadcast` only deletes, and then adds the new item, with the initial count. -/
theorem queueBroadcast_shrinks_add {invalidates : Broadcast → Broadcast → Bool}
    {q q' : TransmitLimitedQueue} {b : Broadcast} {initialTransmits : Int}
    {finished : List Broadcast}
    (h : q.queueBroadcast invalidates b initialTransmits = .ok (q', finished)) :
    ∃ q₁ lb, Shrinks q.lazyInit q₁ ∧ lb.transmits = initialTransmits ∧ lb.b = b ∧
      q₁.addItem lb = .ok q' := by
  -- stamping the id changes nothing the lemma is about
  have hid : ∀ id, Shrinks q.lazyInit { q.lazyInit with idGen := id } :=
    fun _ => ⟨rfl, rfl, rfl, List.Sublist.refl _⟩
  unfold queueBroadcast at h
  dsimp only [pure, Except.pure] at h
  split at h
  · -- a named broadcast
    split at h
    · split at h
      · -- the item of the same name is deleted
        simp only [bind_eq_ok] at h
        obtain ⟨q₁, hdel, _, ⟨⟩, q₂, hadd, ⟨⟩⟩ := h
        exact ⟨q₁, _, (hid _).trans (deleteItem_shrinks hdel), rfl, rfl, hadd⟩
      · simp only [bind_eq_ok] at h
        obtain ⟨_, ⟨⟩, q₂, hadd, ⟨⟩⟩ := h
        exact ⟨_, _, hid _, rfl, rfl, hadd⟩
    · split at h
      · -- the empty name: the plain items it invalidates are deleted
        simp only [bind_eq_ok] at h
        obtain ⟨q₁, hdel, _, ⟨⟩, q₂, hadd, ⟨⟩⟩ := h
        exact ⟨q₁, _, (hid _).trans (deleteAll_shrinks hdel), rfl, rfl, hadd⟩
      · simp only [bind_eq_ok] at h
        obtain ⟨_, ⟨⟩, q₂, hadd, ⟨⟩⟩ := h
        exact ⟨_, _, hid _, rfl, rfl, hadd⟩
  · split at h
    · -- an unnamed broadcast has the empty name
      exact absurd rfl ‹"" ≠ ""›
    · split at h
      · -- a plain broadcast: the plain items it invalidates are deleted
        simp only [bind_eq_ok] at h
        obtain ⟨q₁, hdel, _, ⟨⟩, q₂, hadd, ⟨⟩⟩ := h
        exact ⟨q₁, _, (hid _).trans (deleteAll_shrinks hdel), rfl, rfl, hadd⟩
      · -- a unique broadcast invalidates nothing
        simp only [bind_eq_ok] at h
        obtain ⟨_, ⟨⟩, q₂, hadd, ⟨⟩⟩ := h
        exact ⟨_, _, hid _, rfl, rfl, hadd⟩

/-! ### The potential -/

/-- How many more calls may return `b` through the item `x`: `cap - x.transmits` if `x` is
    `b`'s. -/
def weight (cap : Int) (b : Broadcast) (x : limitedBroadcast) : Nat :=
  if x.b = b then (cap - x.transmits).toNat else 0

/-- How many more calls may return `b` through the items of `t`. -/
def budget (cap : Int) (b : Broadcast) (t : List limitedBroadcast) : Nat :=
  (t.map (weight cap b)).sum

section Budget

variable {cap : Int} {b : Broadcast}

theorem budget_cons (x : limitedBroadcast) (l : List limitedBroadcast) :
    budget cap b (x :: l) = weight cap b x + budget cap b l := by
  rw [budget, List.map_cons, List.sum_cons]
  rfl

theorem budget_append (l₁ l₂ : List limitedBroadcast) :
    budget cap b (l₁ ++ l₂) = budget cap b l₁ + budget cap b l₂ := by
  rw [budget, List.map_append, List.sum_append]
  rfl

theorem budget_perm {l t : List limitedBroadcast} (h : l.Perm t) :
    budget cap b l = budget cap b t :=
  (h.map _).sum_eq

theorem budget_le_of_subperm {l t : List limitedBroadcast} (h : l.Subperm t) :
    budget cap b l ≤ budget cap b t := by
  obtain ⟨l', hperm, hsub⟩ := h
  rw [← budget_perm hperm]
  exact (hsub.map _).sum_le_sum fun _ _ => Nat.zero_le _

theorem weight_le_budget {x : limitedBroadcast} {t : List limitedBroadcast} (hx : x ∈ t) :
    weight cap b x ≤ budget cap b t :=
  List.le_sum_of_mem (List.mem_map_of_mem hx)

/-- An item of `b` below the cap may still be returned. -/
theorem one_le_weight {x : limitedBroadcast} (hb : x.b = b) (hx : x.transmits < cap) :
    1 ≤ weight cap b x := by
  rw [weight, if_pos hb]
  omega

/-- Sending an item below the cap once more uses one of its calls if it is `b`'s. -/
theorem weight_bump {x : limitedBroadcast} (hx : x.transmits < cap) :
    (if x.b = b then 1 else 0) + weight cap b x.bump = weight cap b x := by
  unfold weight
  rw [bump_b]
  split
  · rw [bump_transmits]
    omega
  · rfl

/-- Where every count is below the cap, a spent budget leaves no item of `b`. -/
theorem not_mem_of_budget_eq_zero {t : List limitedBroadcast} (ht : ∀ x ∈ t, x.transmits < cap)
    (h0 : budget cap b t = 0) : b ∉ t.map (·.b) := by
  intro hb
  obtain ⟨x, hx, hxb⟩ := List.mem_map.mp hb
  have := (one_le_weight hxb (ht x hx)).trans (weight_le_budget hx)
  omega

/-- Sending the items `P` once more pays for itself: the times it sends `b` plus the budget of
    the items re-inserted a tier up is at most the budget of `P`. -/
theorem count_add_budget_bumped (transmitLimit : Int) : ∀ {P : List limitedBroadcast},
    (∀ x ∈ P, x.transmits < cap) →
      (P.map (·.b)).count b +
          budget cap b ((P.filter fun x => !reachesLimit transmitLimit x).map bump) ≤
        budget cap b P
  | [], _ => Nat.le_refl 0
  | x :: P, hP => by
    have hw := weight_bump (b := b) (hP x List.mem_cons_self)
    have ih := count_add_budget_bumped transmitLimit fun y hy => hP y (List.mem_cons_of_mem x hy)
    rw [List.map_cons, List.count_cons, budget_cons]
    have hind : (if (x.b == b) = true then 1 else 0) = if x.b = b then 1 else 0 := by
      simp only [beq_iff_eq]
    rw [hind]
    by_cases hr : reachesLimit transmitLimit x = true
    · -- at the limit: `x` is finished
      rw [List.filter_cons_of_neg (by rw [hr]; decide)]
      omega
    · -- below the limit: `x` goes back a tier up
      rw [List.filter_cons_of_pos (by simpa using hr), List.map_cons, budget_cons]
      omega

/-- Over a whole tree: the items `P` taken pay for what is sent and re-inserted, and the others
    are left as they were. -/
theorem count_add_budget_reinserted (transmitLimit : Int) {t P : List limitedBroadcast}
    (ht : ∀ x ∈ t, x.transmits < cap) (hP : P.Subperm t) :
    (P.map (·.b)).count b + budget cap b
        (((P.filter fun x => !reachesLimit transmitLimit x).map bump).foldl
          (fun t x => SortedSet.replaceOrInsert limitedBroadcast.Less x t) (t.diff P)) ≤
      budget cap b t := by
  set B := (P.filter fun x => !reachesLimit transmitLimit x).map bump with hBdef
  have hsub : (B.foldl (fun t x => SortedSet.replaceOrInsert limitedBroadcast.Less x t)
      (t.diff P)).Subperm (B ++ t.diff P) :=
    SortedSet.foldl_replaceOrInsert_subperm _ _
  have hperm : (P ++ t.diff P).Perm t :=
    List.subperm_append_diff_self_of_count_le (List.subperm_ext_iff.mp hP)
  have hpay := count_add_budget_bumped (b := b) transmitLimit fun x hx => ht x (hP.subset hx)
  rw [← hBdef] at hpay
  calc (P.map (·.b)).count b + budget cap b
          (B.foldl (fun t x => SortedSet.replaceOrInsert limitedBroadcast.Less x t) (t.diff P))
      ≤ (P.map (·.b)).count b + budget cap b (B ++ t.diff P) :=
        Nat.add_le_add_left (budget_le_of_subperm hsub) _
    _ = (P.map (·.b)).count b + budget cap b B + budget cap b (t.diff P) := by
        rw [budget_append, Nat.add_assoc]
    _ ≤ budget cap b P + budget cap b (t.diff P) := Nat.add_le_add_right hpay _
    _ = budget cap b t := by rw [← budget_append, budget_perm hperm]

end Budget

/-! ### The invariant of the runs -/

/-- The invariant of the runs with `RetransmitMult = mult` and `NumNodes() = n`: the tree is
    sorted, every count is below `sendCap mult n`, and the map is there when the tree is. -/
structure RunInv (mult : Int) (n : Nat) (q : TransmitLimitedQueue) : Prop where
  mult_eq : q.RetransmitMult = mult
  sorted : (q.tq.getD []).Pairwise (·.Less ·)
  transmits_lt : ∀ x ∈ q.tq.getD [], x.transmits < sendCap mult n
  tm_isSome : q.tq.isSome → q.tm.isSome

section Step

variable {mult : Int} {n : Nat} {b : Broadcast}

theorem RunInv.zero (mult : Int) (n : Nat) : RunInv mult n (zero mult) where
  mult_eq := rfl
  sorted := List.Pairwise.nil
  transmits_lt x hx := by cases hx
  tm_isSome h := by cases h

theorem RunInv.of_shrinks {q q' : TransmitLimitedQueue} (hq : RunInv mult n q) (h : Shrinks q q') :
    RunInv mult n q' where
  mult_eq := h.mult_eq.trans hq.mult_eq
  sorted := hq.sorted.sublist h.sublist
  transmits_lt x hx := hq.transmits_lt x (h.sublist.subset hx)
  tm_isSome h' := by
    rw [h.tm_isSome]
    exact hq.tm_isSome (by rw [← h.tq_isSome]; exact h')

theorem one_le_sendCap (mult : Int) (n : Nat) : 1 ≤ sendCap mult n := le_max_left 1 _

/-- `QueueBroadcast` keeps the invariant and tops the budget of `b` up by `sendCap mult n` if
    it queues `b`. -/
theorem RunInv.queueBroadcast {invalidates : Broadcast → Broadcast → Bool}
    {q q' : TransmitLimitedQueue}
    {b' : Broadcast} {finished : List Broadcast} (hq : RunInv mult n q)
    (h : q.QueueBroadcast invalidates b' = .ok (q', finished)) :
    RunInv mult n q' ∧ budget (sendCap mult n) b (q'.tq.getD []) ≤
      budget (sendCap mult n) b (q.tq.getD []) + [b'].count b * (sendCap mult n).toNat := by
  obtain ⟨q₁, lb, hs, htr, hb, hadd⟩ := queueBroadcast_shrinks_add h
  -- after `lazyInit` the tree and the map are there
  have hinit : RunInv mult n q.lazyInit := ⟨hq.mult_eq, hq.sorted, hq.transmits_lt, fun _ => rfl⟩
  have h₁ := hinit.of_shrinks hs
  obtain ⟨hmult, hsome, htq, htm⟩ := addItem_eq_ok hadd
  have hsub : (SortedSet.replaceOrInsert limitedBroadcast.Less lb (q₁.tq.getD [])).Subperm
      (lb :: q₁.tq.getD []) :=
    SortedSet.replaceOrInsert_subperm lb _
  refine ⟨⟨hmult.trans h₁.mult_eq, ?_, ?_, fun _ => htm (h₁.tm_isSome hsome)⟩, ?_⟩
  · rw [htq]
    exact SortedSet.pairwise_replaceOrInsert Less_isStrictWeakOrder h₁.sorted
  · intro x hx
    rw [htq, Option.getD_some] at hx
    rcases List.mem_cons.mp (hsub.subset hx) with rfl | hx
    · -- the new item has not been sent
      have := one_le_sendCap mult n
      omega
    · exact h₁.transmits_lt x hx
  · have hw : weight (sendCap mult n) b lb = [b'].count b * (sendCap mult n).toNat := by
      rw [weight, hb, htr, List.count_singleton, Int.sub_zero]
      split
      · rename_i hbb
        rw [if_pos (beq_iff_eq.mpr hbb), Nat.one_mul]
      · rename_i hbb
        rw [if_neg (fun h => hbb (beq_iff_eq.mp h)), Nat.zero_mul]
    calc budget (sendCap mult n) b (q'.tq.getD [])
        ≤ budget (sendCap mult n) b (lb :: q₁.tq.getD []) := by
          rw [htq]
          exact budget_le_of_subperm hsub
      _ = weight (sendCap mult n) b lb + budget (sendCap mult n) b (q₁.tq.getD []) :=
          budget_cons _ _
      _ ≤ weight (sendCap mult n) b lb + budget (sendCap mult n) b (q.tq.getD []) :=
          Nat.add_le_add_left (budget_le_of_subperm hs.sublist.subperm) _
      _ = _ := by rw [hw, Nat.add_comm]

/-- `sendTaken` of distinct items of the tree keeps the invariant, finishes those of them that
    reach the limit, and pays for each item of `b` among them out of the budget of `b`. -/
theorem RunInv.sendTaken {q : TransmitLimitedQueue} (hq : RunInv mult n q)
    {t P : List limitedBroadcast} (ht : q.tq = some t) (hP : P.Subperm t) :
    ∃ q', q.sendTaken (retransmitLimit mult n) P =
        .ok (q', P.map (·.b.Message), (P.filter (reachesLimit (retransmitLimit mult n))).map (·.b)) ∧
      RunInv mult n q' ∧
      (P.map (·.b)).count b + budget (sendCap mult n) b (q'.tq.getD []) ≤
        budget (sendCap mult n) b t := by
  obtain ⟨m, hm⟩ : ∃ m, q.tm = some m :=
    Option.isSome_iff_exists.mp (hq.tm_isSome (by rw [ht]; rfl))
  have hst : t.Pairwise (·.Less ·) := by
    have := hq.sorted
    rwa [ht, Option.getD_some] at this
  have htr : ∀ x ∈ t, x.transmits < sendCap mult n := by
    have := hq.transmits_lt
    rwa [ht, Option.getD_some] at this
  have hlim : retransmitLimit mult n ≤ sendCap mult n := le_max_right 1 _
  rw [sendTaken_eq ht hm hst _ hP]
  set B := (P.filter fun x => !reachesLimit (retransmitLimit mult n) x).map bump with hBdef
  -- the items re-inserted stay below the cap
  have hB : ∀ x ∈ B, x.transmits < sendCap mult n := by
    intro x hx
    obtain ⟨p, hp, rfl⟩ := List.mem_map.mp hx
    have hnr := (List.mem_filter.mp hp).2
    simp only [reachesLimit, Bool.not_eq_eq_eq_not, Bool.not_true, decide_eq_false_iff_not] at hnr
    rw [bump_transmits]
    omega
  have hsub : (B.foldl (fun t x => SortedSet.replaceOrInsert limitedBroadcast.Less x t)
      (t.diff P)).Subperm (B ++ t.diff P) :=
    SortedSet.foldl_replaceOrInsert_subperm _ _
  refine ⟨_, rfl, ⟨hq.mult_eq, ?_, ?_, fun _ => rfl⟩, count_add_budget_reinserted _ htr hP⟩
  · exact SortedSet.pairwise_foldl_replaceOrInsert Less_isStrictWeakOrder
      (hst.sublist (List.diff_sublist t P))
  · intro x hx
    rcases List.mem_append.mp (hsub.subset hx) with hx | hx
    · exact hB x hx
    · exact htr x ((List.diff_sublist t P).subset hx)

/-- `GetBroadcasts` with `NumNodes() = n` never panics under the invariant, keeps it, finishes
    the items it takes that reach the limit, and pays for each item of `b` it takes out of the
    budget of `b`. -/
theorem RunInv.getBroadcasts {q : TransmitLimitedQueue} (hq : RunInv mult n q)
    (overhead limit : Int) :
    ∃ q' msgs, q.GetBroadcasts overhead limit n = .ok (q', msgs,
        ((q.taken overhead limit).filter (reachesLimit (retransmitLimit mult n))).map (·.b)) ∧
      RunInv mult n q' ∧
      ((q.taken overhead limit).map (·.b)).count b + budget (sendCap mult n) b (q'.tq.getD []) ≤
        budget (sendCap mult n) b (q.tq.getD []) := by
  rw [GetBroadcasts_eq, hq.mult_eq]
  cases ht : q.tq with
  | none =>
    -- the nil tree: nothing is taken
    have hP : q.taken overhead limit = [] := by
      rw [taken, if_pos (by rw [lenLocked_eq, ht]; rfl)]
    rw [hP]
    refine ⟨q, [], rfl, hq, ?_⟩
    rw [ht, List.map_nil, List.count_nil, Nat.zero_add]
  | some t =>
    have hP : (q.taken overhead limit).Subperm t := by
      have := taken_subperm hq.sorted overhead limit
      rwa [ht, Option.getD_some] at this
    obtain ⟨q', hsend, hq', hpay⟩ := hq.sendTaken (b := b) ht hP
    exact ⟨q', _, hsend, hq', hpay⟩

theorem RunInv.prune {q q' : TransmitLimitedQueue} {maxRetain : Int} {finished : List Broadcast}
    (hq : RunInv mult n q) (h : q.Prune maxRetain = .ok (q', finished)) :
    RunInv mult n q' ∧
      budget (sendCap mult n) b (q'.tq.getD []) ≤ budget (sendCap mult n) b (q.tq.getD []) :=
  ⟨hq.of_shrinks (Prune_shrinks h), budget_le_of_subperm (Prune_shrinks h).sublist.subperm⟩

theorem RunInv.reset {q : TransmitLimitedQueue} (hq : RunInv mult n q) :
    RunInv mult n q.Reset.1 where
  mult_eq := hq.mult_eq
  sorted := List.Pairwise.nil
  transmits_lt x hx := by cases hx
  tm_isSome h := by cases h

/-- **The step.**  Every call keeps the invariant, and pays for returning `b` out of the budget
    of `b`, which only queueing `b` tops up, by `sendCap mult n`. -/
theorem RunInv.apply (invalidates : Broadcast → Broadcast → Bool) (b : Broadcast)
    {q q' : TransmitLimitedQueue} {op : QueueOp} {finished : List Broadcast} (hq : RunInv mult n q)
    (hop : op.numNodesIs n) (h : op.apply invalidates q = .ok (q', finished)) :
    RunInv mult n q' ∧
      (if b ∈ op.sends q then 1 else 0) + budget (sendCap mult n) b (q'.tq.getD []) ≤
        budget (sendCap mult n) b (q.tq.getD []) +
          (queued [op]).count b * (sendCap mult n).toNat := by
  cases op with
  | QueueBroadcast b' =>
    obtain ⟨hq', hle⟩ := hq.queueBroadcast (b := b) h
    have hs : (QueueOp.QueueBroadcast b').sends q = [] := rfl
    refine ⟨hq', ?_⟩
    rw [hs, if_neg List.not_mem_nil, Nat.zero_add]
    exact hle
  | GetBroadcasts overhead limit numNodes =>
    obtain rfl : numNodes = n := hop
    obtain ⟨q₁, msgs, hget, hq₁, hpay⟩ := hq.getBroadcasts (b := b) overhead limit
    rw [QueueOp.apply, hget] at h
    cases h
    refine ⟨hq₁, ?_⟩
    -- each time `b` is returned, an item of it is taken
    have hind : (if b ∈ (QueueOp.GetBroadcasts overhead limit numNodes).sends q then 1 else 0) ≤
        ((q.taken overhead limit).map (·.b)).count b := by
      split
      · exact List.count_pos_iff.mpr ‹_›
      · exact Nat.zero_le _
    have hq0 : (queued [.GetBroadcasts overhead limit numNodes]).count b = 0 := rfl
    rw [hq0, Nat.zero_mul, Nat.add_zero]
    omega
  | Prune maxRetain =>
    obtain ⟨hq', hle⟩ := hq.prune (b := b) h
    have hs : (QueueOp.Prune maxRetain).sends q = [] := rfl
    refine ⟨hq', ?_⟩
    rw [hs, if_neg List.not_mem_nil, Nat.zero_add]
    omega
  | Reset =>
    cases h
    have hs : QueueOp.Reset.sends q = [] := rfl
    refine ⟨hq.reset, ?_⟩
    rw [hs, if_neg List.not_mem_nil, Nat.zero_add]
    exact Nat.zero_le _

end Step

/-! ### Whole runs -/

section Runs

variable {mult : Int} {n : Nat} (invalidates : Broadcast → Broadcast → Bool) (b : Broadcast)

/-- A run whose calls see `NumNodes() = n`, from a queue with the invariant, returns `b` by at
    most as many calls as its budget, plus `sendCap mult n` for each time it queues `b`. -/
theorem RunInv.sendCount_le {q : TransmitLimitedQueue} (hq : RunInv mult n q) {ops : List QueueOp}
    (hG : ∀ op ∈ ops, op.numNodesIs n) :
    sendCount invalidates b q ops ≤
      budget (sendCap mult n) b (q.tq.getD []) + (queued ops).count b * (sendCap mult n).toNat := by
  have hcost := Run.cost_le (RunInv mult n) _ (fun q => budget (sendCap mult n) b (q.tq.getD []))
    (fun op => (queued [op]).count b * (sendCap mult n).toNat)
    (fun _ _ _ _ hq hop h => hq.apply invalidates b hop h) hq hG
  rwa [sum_count_queued] at hcost

/-- A run that does not panic keeps the invariant, and the calls that return `b` and the budget
    it leaves are within the same bound. -/
theorem RunInv.runQueue {q q' : TransmitLimitedQueue} {finished : List Broadcast}
    (hq : RunInv mult n q) {ops : List QueueOp} (hG : ∀ op ∈ ops, op.numNodesIs n)
    (h : runQueue invalidates q ops = .ok (q', finished)) :
    RunInv mult n q' ∧ sendCount invalidates b q ops + budget (sendCap mult n) b (q'.tq.getD []) ≤
      budget (sendCap mult n) b (q.tq.getD []) + (queued ops).count b * (sendCap mult n).toNat := by
  rw [runQueue_eq_run] at h
  have hrun := Run.run_cost_le (RunInv mult n) _ (fun q => budget (sendCap mult n) b (q.tq.getD []))
    (fun op => (queued [op]).count b * (sendCap mult n).toNat)
    (fun _ _ _ _ hq hop h => hq.apply invalidates b hop h) hq hG h
  rwa [sum_count_queued] at hrun

/-- **The last return.**  Where one more return of `b` is left, a call that returns `b` does not
    panic, finishes `b` and leaves no item of it. -/
theorem RunInv.last_send {q : TransmitLimitedQueue} (hq : RunInv mult n q)
    (hone : budget (sendCap mult n) b (q.tq.getD []) ≤ 1) {op : QueueOp} (hop : op.numNodesIs n)
    (hsend : b ∈ op.sends q) :
    ∃ q' finished, op.apply invalidates q = .ok (q', finished) ∧ b ∈ finished ∧
      b ∉ (q'.tq.getD []).map (·.b) := by
  -- only `GetBroadcasts` returns anything
  cases op with
  | GetBroadcasts overhead limit numNodes =>
    obtain rfl : numNodes = n := hop
    obtain ⟨q', msgs, hget, hq', hpay⟩ := hq.getBroadcasts (b := b) overhead limit
    obtain ⟨x, hx, hxb⟩ := List.mem_map.mp hsend
    refine ⟨q', _, by rw [QueueOp.apply, hget]; rfl, ?_, ?_⟩
    · -- the item of `b` taken had one call left: it reaches the limit and is finished
      have hxt : x ∈ q.tq.getD [] := (taken_subperm hq.sorted overhead limit).subset hx
      have hw : weight (sendCap mult numNodes) b x ≤ 1 := (weight_le_budget hxt).trans hone
      rw [weight, if_pos hxb] at hw
      have hlim : retransmitLimit mult numNodes ≤ sendCap mult numNodes := le_max_right 1 _
      have hr : reachesLimit (retransmitLimit mult numNodes) x = true := by
        rw [reachesLimit, decide_eq_true_eq]
        omega
      rw [← hxb]
      exact List.mem_map_of_mem (List.mem_filter.mpr ⟨hx, hr⟩)
    · -- and it was the last item of `b`: the budget is spent
      apply not_mem_of_budget_eq_zero hq'.transmits_lt
      have := List.count_pos_iff.mpr (List.mem_map_of_mem (f := (·.b)) hx)
      rw [hxb] at this
      omega
  | QueueBroadcast b' => exact absurd hsend List.not_mem_nil
  | Prune maxRetain => exact absurd hsend List.not_mem_nil
  | Reset => exact absurd hsend List.not_mem_nil

end Runs

/-- **Bounded retransmission.**  In every run of the queue's API from a new queue in which
    `NumNodes()` is `n`, a broadcast `b` is returned by at most `sendCap mult n` calls of
    `GetBroadcasts` for each time it is queued; and the call that returns it for the last time
    those allow finishes it and leaves no item of it in the queue. -/
theorem getBroadcasts_transmits_bounded (invalidates : Broadcast → Broadcast → Bool) (mult : Int)
    (n : Nat) (ops : List QueueOp)
    (hn : ∀ overhead limit numNodes,
      QueueOp.GetBroadcasts overhead limit numNodes ∈ ops → numNodes = n)
    (b : Broadcast) :
    sendCount invalidates b (zero mult) ops ≤ (queued ops).count b * (sendCap mult n).toNat ∧
      ∀ pre op post q finished, ops = pre ++ op :: post →
        runQueue invalidates (zero mult) pre = .ok (q, finished) → b ∈ op.sends q →
        sendCount invalidates b (zero mult) pre + 1 =
          (queued pre).count b * (sendCap mult n).toNat →
        ∃ q' finished', op.apply invalidates q = .ok (q', finished') ∧ b ∈ finished' ∧
          b ∉ (q'.tq.getD []).map (·.b) := by
  have hG : ∀ op ∈ ops, op.numNodesIs n := by
    intro op hop
    cases op with
    | GetBroadcasts overhead limit numNodes => exact hn overhead limit numNodes hop
    | _ => trivial
  -- a new queue has nothing to send
  have h0 : budget (sendCap mult n) b ((zero mult).tq.getD []) = 0 := rfl
  constructor
  · have hle := (RunInv.zero mult n).sendCount_le invalidates b hG
    rwa [h0, Nat.zero_add] at hle
  · intro pre op post q finished hops hrun hsend hlast
    have hmem : ∀ op' ∈ pre, op' ∈ ops := fun op' h => by
      rw [hops]
      exact List.mem_append_left _ h
    obtain ⟨hq, hpay⟩ := (RunInv.zero mult n).runQueue invalidates b
      (fun op' h => hG op' (hmem op' h)) hrun
    rw [h0, Nat.zero_add] at hpay
    -- before the call, one more return of `b` is left
    have hone : budget (sendCap mult n) b (q.tq.getD []) ≤ 1 := by omega
    have hop : op ∈ ops := by
      rw [hops]
      exact List.mem_append_right _ List.mem_cons_self
    exact hq.last_send invalidates b hone (hG op hop) hsend

/-- Queue `lossA`, send it, queue the same broadcast again and send it again. -/
def requeueRun : List QueueOp :=
  [.QueueBroadcast lossA, .GetBroadcasts 0 1 9, .QueueBroadcast lossA, .GetBroadcasts 0 1 9]

theorem requeueRun_numNodes : ∀ overhead limit numNodes,
    QueueOp.GetBroadcasts overhead limit numNodes ∈ requeueRun → numNodes = 9 := by
  intro overhead limit numNodes h
  simp only [requeueRun, List.mem_cons, QueueOp.GetBroadcasts.injEq, reduceCtorEq, List.not_mem_nil,
    false_or, or_false, or_self] at h
  exact h.2.2

theorem getBroadcasts_transmits_bounded_requeueRun :
    (∀ overhead limit numNodes,
        QueueOp.GetBroadcasts overhead limit numNodes ∈ requeueRun → numNodes = 9) ∧
      (sendCount (fun _ _ => false) lossA (zero 1) requeueRun ≤
          (queued requeueRun).count lossA * (sendCap 1 9).toNat ∧
        ∀ pre op post q finished, requeueRun = pre ++ op :: post →
          runQueue (fun _ _ => false) (zero 1) pre = .ok (q, finished) → lossA ∈ op.sends q →
          sendCount (fun _ _ => false) lossA (zero 1) pre + 1 =
            (queued pre).count lossA * (sendCap 1 9).toNat →
          ∃ q' finished', op.apply (fun _ _ => false) q = .ok (q', finished') ∧ lossA ∈ finished' ∧
            lossA ∉ (q'.tq.getD []).map (·.b)) :=
  ⟨requeueRun_numNodes,
    getBroadcasts_transmits_bounded (fun _ _ => false) 1 9 requeueRun requeueRun_numNodes lossA⟩

/-- Queued a second time, a broadcast is returned by more calls than one queueing allows. -/
theorem getBroadcasts_requeued_exceeds_limit :
    (∀ overhead limit numNodes,
        QueueOp.GetBroadcasts overhead limit numNodes ∈ requeueRun → numNodes = 9) ∧
      lossA ∈ queued requeueRun ∧
      (max 1 (retransmitLimit 1 9)).toNat <
        sendCount (fun _ _ => false) lossA (zero 1) requeueRun :=
  ⟨requeueRun_numNodes, by decide, by decide⟩

end TransmitLimitedQueue

end memberlist
