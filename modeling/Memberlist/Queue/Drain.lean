import Mathlib
import Memberlist.Queue.Refinement

/-!
# The queue drains (queue.go)

When nothing new is queued, each call of `GetBroadcasts overhead limit` on a valid queue takes
at least one item, as long as every message fits in the room a call has, `limit - overhead`.
Each item it takes uses up one of the calls left to it before it reaches `retransmitLimit` and
is finished.  So as many calls as the queue has calls left empty it, and the broadcasts those
calls finish are exactly the ones that were queued, each once (`getBroadcasts_drains`).

* `callsLeft transmitLimit x` — how many more calls take `x` before one of them finishes it.
  It is at least one, and one fewer a tier up (`callsLeft_bump`).
* `load transmitLimit t` — the potential: the calls left of all the items of a tree.  Taking
  the items `P` lowers it by at least `P.length` (`length_add_load_bumped`).
* `Valid.getBroadcasts_load` — one call on a valid queue.  It does not panic, keeps the queue
  valid, moves the broadcasts it finishes out of the tree, and pays for the items it takes out
  of the load.
* `greedyPicks_ne_nil` — where every message fits, a call takes something from a tree that is
  not empty.

A message longer than `limit - overhead` is never taken.  It stays in the queue however many
calls are made, so the hypothesis that every message fits cannot be dropped.
-/

namespace memberlist

open Go

namespace TransmitLimitedQueue

open limitedBroadcast

/-! ### The potential -/

/-- How many more calls of `GetBroadcasts` with `transmitLimit` take `x` before one finishes
    it: the call that brings its count to the limit, or any call once it is past the limit. -/
def callsLeft (transmitLimit : Int) (x : limitedBroadcast) : Nat :=
  max 1 (transmitLimit - x.transmits).toNat

/-- The calls left of all the items of `t`. -/
def load (transmitLimit : Int) (t : List limitedBroadcast) : Nat :=
  (t.map (callsLeft transmitLimit)).sum

section Load

variable {transmitLimit : Int}

theorem one_le_callsLeft (x : limitedBroadcast) : 1 ≤ callsLeft transmitLimit x :=
  le_max_left _ _

/-- Below the limit, an item has one call fewer left a tier up. -/
theorem callsLeft_bump {x : limitedBroadcast} (h : reachesLimit transmitLimit x = false) :
    callsLeft transmitLimit x.bump + 1 = callsLeft transmitLimit x := by
  simp only [reachesLimit, decide_eq_false_iff_not, not_le] at h
  unfold callsLeft
  rw [bump_transmits]
  omega

theorem load_cons (x : limitedBroadcast) (t : List limitedBroadcast) :
    load transmitLimit (x :: t) = callsLeft transmitLimit x + load transmitLimit t := by
  rw [load, List.map_cons, List.sum_cons]
  rfl

theorem load_append (l₁ l₂ : List limitedBroadcast) :
    load transmitLimit (l₁ ++ l₂) = load transmitLimit l₁ + load transmitLimit l₂ := by
  rw [load, List.map_append, List.sum_append]
  rfl

theorem load_perm {l t : List limitedBroadcast} (h : l.Perm t) :
    load transmitLimit l = load transmitLimit t :=
  (h.map _).sum_eq

/-- Every item has a call left, so a tree with no calls left is empty. -/
theorem length_le_load : ∀ t : List limitedBroadcast, t.length ≤ load transmitLimit t
  | [] => Nat.le_refl 0
  | x :: t => by
    have ih := length_le_load t
    have hx : 1 ≤ callsLeft transmitLimit x := one_le_callsLeft x
    rw [List.length_cons, load_cons]
    omega

/-- Sending the items `P` once more uses a call of each: those re-inserted a tier up have one
    call fewer left, and those finished have none. -/
theorem length_add_load_bumped : ∀ P : List limitedBroadcast,
    P.length + load transmitLimit ((P.filter fun x => !reachesLimit transmitLimit x).map bump) ≤
      load transmitLimit P
  | [] => Nat.le_refl 0
  | x :: P => by
    have ih := length_add_load_bumped P
    rw [List.length_cons, load_cons]
    cases hr : reachesLimit transmitLimit x with
    | true =>
      -- at the limit: `x` is finished
      rw [List.filter_cons_of_neg (by rw [hr]; decide)]
      have : 1 ≤ callsLeft transmitLimit x := one_le_callsLeft x
      omega
    | false =>
      -- below the limit: `x` goes back a tier up
      rw [List.filter_cons_of_pos (by rw [hr]; rfl), List.map_cons, load_cons]
      have := callsLeft_bump hr
      omega

end Load

/-! ### One call -/

section Step

variable {overhead limit : Int}

/-- The broadcasts of the items `P` taken from `t`: those of the items re-inserted a tier up
    and those finished. -/
theorem map_b_perm_sendTaken (transmitLimit : Int) {t P : List limitedBroadcast}
    (hP : P.Subperm t) :
    (t.map (·.b)).Perm ((t.diff P ++ (P.filter fun x => !reachesLimit transmitLimit x).map bump).map
      (·.b) ++ (P.filter (reachesLimit transmitLimit)).map (·.b)) := by
  have ht : (P ++ t.diff P).Perm t :=
    List.subperm_append_diff_self_of_count_le (List.subperm_ext_iff.mp hP)
  -- a tier up an item keeps its broadcast
  have hbump : ((P.filter fun x => !reachesLimit transmitLimit x).map bump).map (·.b) =
      (P.filter fun x => !reachesLimit transmitLimit x).map (·.b) := by
    rw [List.map_map]
    rfl
  have hsplit : ((P.filter fun x => !reachesLimit transmitLimit x) ++
      P.filter (reachesLimit transmitLimit)).Perm P :=
    List.perm_append_comm.trans (List.filter_append_perm _ P)
  rw [List.map_append, hbump, List.append_assoc, ← List.map_append, ← List.map_append]
  exact ((ht.symm.trans List.perm_append_comm).trans
    (List.Perm.append_left _ hsplit.symm)).map _

/-- **One call.**  On a valid queue with a non-negative overhead, `GetBroadcasts` does not
    panic and leaves a valid queue with the same multiplier.  The broadcasts of the tree are
    those left in it and those finished.  The items the greedy selection takes pay for
    themselves: each uses up at least one call of the load. -/
theorem Valid.getBroadcasts_load {q : TransmitLimitedQueue} (hq : q.Valid) (hov : 0 ≤ overhead)
    (limit : Int) (numNodes : Nat) :
    ∃ q' msgs finished, q.GetBroadcasts overhead limit numNodes = .ok (q', msgs, finished) ∧
      q'.Valid ∧ q'.RetransmitMult = q.RetransmitMult ∧
      ((q.tq.getD []).map (·.b)).Perm ((q'.tq.getD []).map (·.b) ++ finished) ∧
      (q.greedyPicks overhead limit).length +
          load (retransmitLimit q.RetransmitMult numNodes) (q'.tq.getD []) ≤
        load (retransmitLimit q.RetransmitMult numNodes) (q.tq.getD []) := by
  set transmitLimit := retransmitLimit q.RetransmitMult numNodes
  have hP := q.greedyPicks_subperm overhead limit
  rw [GetBroadcasts_eq, taken_eq_greedy hq.sorted hq.wellFormed hov]
  change ∃ q' msgs finished, q.sendTaken transmitLimit (q.greedyPicks overhead limit) = _ ∧ _
  cases ht : q.tq with
  | none =>
    -- no tree: nothing is taken and nothing changes
    have hnil : q.greedyPicks overhead limit = [] := by
      rw [ht, Option.getD_none, List.subperm_nil] at hP
      exact hP
    rw [hnil, sendTaken_nil]
    refine ⟨q, [], [], rfl, hq, rfl, ?_, ?_⟩
    · rw [ht]
      exact List.Perm.refl _
    · rw [ht]
      exact Nat.le_refl _
  | some t =>
    rw [ht, Option.getD_some] at hP
    obtain ⟨q', hsend, hperm, hvalid, hmult, -⟩ := hq.sendTaken ht hP transmitLimit
    refine ⟨q', _, _, hsend, hvalid, hmult, ?_, ?_⟩
    · rw [Option.getD_some]
      exact (map_b_perm_sendTaken transmitLimit hP).trans
        (List.Perm.append_right _ (hperm.map _).symm)
    · -- the items left keep their calls; those taken lose one each
      have hsplit :
          (q.greedyPicks overhead limit ++ t.diff (q.greedyPicks overhead limit)).Perm t :=
        List.subperm_append_diff_self_of_count_le (List.subperm_ext_iff.mp hP)
      have hpay := @length_add_load_bumped transmitLimit (q.greedyPicks overhead limit)
      rw [load_perm hperm, load_append, Option.getD_some, ← load_perm hsplit, load_append]
      omega

/-- Where every message fits in the room a call has, the call takes something from a tree that
    is not empty. -/
theorem greedyPicks_ne_nil {q : TransmitLimitedQueue} (hroom : overhead < limit)
    (hfit : ∀ x ∈ q.tq.getD [], overhead + x.size ≤ limit) (hne : q.tq.getD [] ≠ []) :
    q.greedyPicks overhead limit ≠ [] := by
  obtain ⟨x, hx⟩ := List.exists_mem_of_ne_nil _ hne
  have := hfit x hx
  exact Greedy.greedy_ne_nil hx (by omega) (by omega)

/-- The messages of a tree whose broadcasts come from one where every message fits, fit too. -/
theorem fits_of_map_b_perm {t t' : List limitedBroadcast} {finished : List Broadcast}
    (hperm : (t.map (·.b)).Perm (t'.map (·.b) ++ finished))
    (hfit : ∀ x ∈ t, overhead + x.size ≤ limit) : ∀ x ∈ t', overhead + x.size ≤ limit := by
  intro x hx
  have hb : x.b ∈ t.map (·.b) :=
    hperm.symm.subset (List.mem_append_left _ (List.mem_map_of_mem hx))
  obtain ⟨y, hy, hyb⟩ := List.mem_map.mp hb
  have hsize : x.size = y.size := by rw [size, size, hyb]
  rw [hsize]
  exact hfit y hy

end Step

/-! ### The run -/

/-- **The queue drains.**  From a valid queue in which every message fits in the room a call of
    `GetBroadcasts overhead limit` has, with a non-negative overhead and `NumNodes()` one `n`,
    as many calls as the queue has calls left do not panic, leave the queue valid and empty,
    and finish exactly the broadcasts that were queued, each once. -/
theorem getBroadcasts_drains (invalidates : Broadcast → Broadcast → Bool) {overhead limit : Int}
    (hov : 0 ≤ overhead) (hroom : overhead < limit) (numNodes : Nat) :
    ∀ (k : Nat) {q : TransmitLimitedQueue}, q.Valid →
      (∀ x ∈ q.tq.getD [], overhead + x.size ≤ limit) →
      load (retransmitLimit q.RetransmitMult numNodes) (q.tq.getD []) ≤ k →
      ∃ q' finished, runQueue invalidates q
          (List.replicate k (.GetBroadcasts overhead limit numNodes)) = .ok (q', finished) ∧
        q'.Valid ∧ q'.tq.getD [] = [] ∧ finished.Perm ((q.tq.getD []).map (·.b))
  | 0, q, hq, _, hk => by
    -- no call is left: the tree is empty already
    have hnil : q.tq.getD [] = [] :=
      List.eq_nil_of_length_eq_zero (Nat.le_zero.mp ((length_le_load _).trans hk))
    exact ⟨q, [], rfl, hq, hnil, by rw [hnil]; exact List.Perm.refl _⟩
  | k + 1, q, hq, hfit, hk => by
    obtain ⟨q₁, msgs, fin, hget, hq₁, hmult, hperm, hpay⟩ :=
      hq.getBroadcasts_load hov limit numNodes
    -- the call takes something unless the tree is empty, and then there is nothing left to pay
    have hk₁ : load (retransmitLimit q₁.RetransmitMult numNodes) (q₁.tq.getD []) ≤ k := by
      rw [hmult]
      by_cases hne : q.tq.getD [] = []
      · have h0 : load (retransmitLimit q.RetransmitMult numNodes) (q.tq.getD []) = 0 := by
          rw [hne]
          rfl
        omega
      · have := List.length_pos_iff.mpr (greedyPicks_ne_nil hroom hfit hne)
        omega
    obtain ⟨q', fin', hrun, hq', hnil, hperm'⟩ :=
      getBroadcasts_drains invalidates hov hroom numNodes k hq₁ (fits_of_map_b_perm hperm hfit) hk₁
    refine ⟨q', fin ++ fin', ?_, hq', hnil, ?_⟩
    · rw [List.replicate_succ, runQueue, QueueOp.apply, hget]
      simp only [bind, Except.bind, pure, Except.pure]
      rw [hrun]
    · -- what the first call finishes, then what the rest finish of what it left
      exact ((List.Perm.append_left fin hperm').trans List.perm_append_comm).trans hperm.symm

/-- The two one-byte broadcasts of `twoQueued`, one call left to each, drain in two calls with
    room for one message each. -/
theorem getBroadcasts_drains_twoQueued :
    (0 : Int) ≤ 0 ∧ (0 : Int) < 1 ∧ twoQueued.Valid ∧
      (∀ x ∈ twoQueued.tq.getD [], 0 + x.size ≤ 1) ∧
      load (retransmitLimit twoQueued.RetransmitMult 9) (twoQueued.tq.getD []) ≤ 2 ∧
      ∃ q' finished, runQueue (fun _ _ => false) twoQueued
          (List.replicate 2 (.GetBroadcasts 0 1 9)) = .ok (q', finished) ∧
        q'.Valid ∧ q'.tq.getD [] = [] ∧ finished.Perm ((twoQueued.tq.getD []).map (·.b)) :=
  ⟨le_refl 0, Int.zero_lt_one, twoQueued_valid, by decide, by decide,
    getBroadcasts_drains (fun _ _ => false) (le_refl 0) Int.zero_lt_one 9 2 twoQueued_valid
      (by decide) (by decide)⟩

end TransmitLimitedQueue

end memberlist
