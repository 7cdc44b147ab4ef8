import Mathlib
import Memberlist.Queue.Basic
import Memberlist.Lib.Greedy

/-!
# `GetBroadcasts` against a greedy selection (queue.go)

`GetBroadcasts` walks the transmit tiers from the least to the greatest, and in each tier
takes, while there is room, the least item whose message fits; what it takes waits outside
the tree until the walk is over.  This file separates what the walk takes from what is done
with it, and then compares what it takes with the plain greedy selection of `Greedy`.

* `pickLoop` and `taken` — the items the walk takes, in order: `getLoop` without its
  bookkeeping.  `getLoop_eq` and `GetBroadcasts_eq` show that the rest of `GetBroadcasts` is
  `sendTaken`: delete the items taken, re-insert a tier up those below the limit, send their
  messages and finish the others.  This holds of every queue.
* `Less_isStrictWeakOrder` — `Less` is the strict weak order the B-tree asks for; its
  equivalence classes are the keys `(transmits, msgLen, id)`.
* `pickLoop_eq_greedy`, `taken_eq_greedy` — on a sorted tree of well-formed items, with a
  non-negative overhead, the walk takes exactly what `Greedy.greedy` picks, by the size of the
  messages.
-/

namespace memberlist

open Go

namespace limitedBroadcast

/-- `len(b.Message())`: what the item costs in the budget of `GetBroadcasts`. -/
def size (x : limitedBroadcast) : Int := x.b.Message.length

/-- The item `GetBroadcasts` re-inserts after taking `x` below the limit. -/
def bump (x : limitedBroadcast) : limitedBroadcast := { x with transmits := x.transmits + 1 }

@[simp] theorem bump_transmits (x : limitedBroadcast) : x.bump.transmits = x.transmits + 1 := rfl
@[simp] theorem bump_msgLen (x : limitedBroadcast) : x.bump.msgLen = x.msgLen := rfl
@[simp] theorem bump_id (x : limitedBroadcast) : x.bump.id = x.id := rfl
@[simp] theorem bump_b (x : limitedBroadcast) : x.bump.b = x.b := rfl
@[simp] theorem bump_name (x : limitedBroadcast) : x.bump.name = x.name := rfl

/-- An item as `queueBroadcast` builds it: `msgLen` is the length of the message, and the
    length and the id are `int64`s. -/
structure WellFormed (x : limitedBroadcast) : Prop where
  msgLen_eq : x.msgLen = x.size
  msgLen_le : x.msgLen ≤ MaxInt64
  id_le : x.id ≤ MaxInt64

instance (x : limitedBroadcast) : Decidable x.WellFormed :=
  decidable_of_iff (x.msgLen = x.size ∧ x.msgLen ≤ MaxInt64 ∧ x.id ≤ MaxInt64)
    ⟨fun h => ⟨h.1, h.2.1, h.2.2⟩, fun h => ⟨h.msgLen_eq, h.msgLen_le, h.id_le⟩⟩

/-- A tier up, an item is as well formed as it was. -/
theorem WellFormed.bump {x : limitedBroadcast} (h : x.WellFormed) : x.bump.WellFormed :=
  ⟨h.msgLen_eq, h.msgLen_le, h.id_le⟩

/-- `Less` compares the keys `(transmits, -msgLen, -id)` lexicographically. -/
theorem Less_iff {b o : limitedBroadcast} :
    b.Less o = true ↔ b.transmits < o.transmits ∨
      b.transmits = o.transmits ∧ (o.msgLen < b.msgLen ∨ b.msgLen = o.msgLen ∧ o.id < b.id) := by
  unfold Less
  split_ifs <;>
    simp only [decide_eq_true_eq, true_iff, false_iff] <;>
    omega

/-- `Less` is a strict weak order, as the B-tree requires. -/
theorem Less_isStrictWeakOrder : IsStrictWeakOrder limitedBroadcast fun a b => a.Less b = true where
  irrefl a := by
    rw [Less_iff]
    omega
  trans a b c hab hbc := by
    rw [Less_iff] at hab hbc ⊢
    omega
  incomp_trans a b c hab hbc := by
    simp only [Less_iff] at hab hbc ⊢
    omega

theorem transmits_le_of_Less {b o : limitedBroadcast} (h : b.Less o = true) :
    b.transmits ≤ o.transmits := by
  rw [Less_iff] at h
  omega

/-- Items of different ids are never equivalent. -/
theorem Less_or_Less_of_id_ne {b o : limitedBroadcast} (h : b.id ≠ o.id) :
    b.Less o = true ∨ o.Less b = true := by
  simp only [Less_iff]
  omega

/-- A tier up, the order between two items is the same. -/
@[simp]
theorem bump_Less_bump {b o : limitedBroadcast} : b.bump.Less o.bump = b.Less o := by
  rw [Bool.eq_iff_iff, Less_iff, Less_iff]
  simp only [bump]
  omega

end limitedBroadcast

namespace TransmitLimitedQueue

open limitedBroadcast

/-! ### What the walk takes -/

/-- Whether taking `x` reaches the limit: it is then finished, not re-inserted. -/
def reachesLimit (transmitLimit : Int) (x : limitedBroadcast) : Bool :=
  decide (x.transmits + 1 ≥ transmitLimit)

/-- The items the loop of `GetBroadcasts` takes from the tree `t`, in order: `getLoop` without
    the bookkeeping of what it sends, finishes and re-inserts. -/
def pickLoop (overhead limit maxTr : Int) :
    Nat → List limitedBroadcast → Int → Int → List limitedBroadcast
  | 0, _, _, _ => []
  | fuel + 1, t, transmits, bytesUsed =>
    if transmits > maxTr then []
    else
      let free := limit - bytesUsed - overhead
      if free ≤ 0 then []
      else
        match pick t transmits free with
        | none => pickLoop overhead limit maxTr fuel t (transmits + 1) bytesUsed
        | some keep =>
          keep :: pickLoop overhead limit maxTr fuel (SortedSet.delete limitedBroadcast.Less keep t)
            transmits (bytesUsed + overhead + keep.b.Message.length)

/-- The items `GetBroadcasts overhead limit` takes, in order. -/
def taken (q : TransmitLimitedQueue) (overhead limit : Int) : List limitedBroadcast :=
  if q.lenLocked = 0 then []
  else
    let (minTr, maxTr) := q.getTransmitRange
    pickLoop overhead limit maxTr (q.lenLocked + (maxTr - minTr).toNat + 1) (q.tq.getD []) minTr 0

/-- `GetBroadcasts` once the items it takes are known: delete them, re-insert a tier up those
    below the limit, and return their messages and the broadcasts finished. -/
def sendTaken (q : TransmitLimitedQueue) (transmitLimit : Int) (P : List limitedBroadcast) :
    Except Panic (TransmitLimitedQueue × List (List UInt8) × List Broadcast) := do
  let q₁ ← q.deleteAll P
  let q₂ ← q₁.addAll ((P.filter fun x => !reachesLimit transmitLimit x).map bump)
  pure (q₂, P.map (·.b.Message), (P.filter (reachesLimit transmitLimit)).map (·.b))

theorem deleteItem_tq {q q' : TransmitLimitedQueue} {cur : limitedBroadcast}
    (h : q.deleteItem cur = .ok q') :
    q'.tq = some (SortedSet.delete limitedBroadcast.Less cur (q.tq.getD [])) := by
  unfold deleteItem at h
  split at h
  · cases h
  · cases h
    rename_i t ht
    rw [ht]
    rfl

/-- What `getLoop` does with the items it takes: it deletes them one by one, appends their
    messages, finishes those at the limit and keeps the others, a tier up, for re-insertion. -/
theorem getLoop_eq (overhead limit transmitLimit maxTr : Int) :
    ∀ (fuel : Nat) (q : TransmitLimitedQueue) (transmits bytesUsed : Int)
      (toSend : List (List UInt8)) (reinsert : List limitedBroadcast) (finished : List Broadcast),
      getLoop overhead limit transmitLimit maxTr fuel q transmits bytesUsed toSend reinsert finished =
        (fun q' =>
          let P := pickLoop overhead limit maxTr fuel (q.tq.getD []) transmits bytesUsed
          (q', toSend ++ P.map (·.b.Message),
            reinsert ++ (P.filter fun x => !reachesLimit transmitLimit x).map bump,
            finished ++ (P.filter (reachesLimit transmitLimit)).map (·.b))) <$>
          q.deleteAll (pickLoop overhead limit maxTr fuel (q.tq.getD []) transmits bytesUsed)
  | 0, q, _, _, toSend, reinsert, finished => by
    simp only [getLoop, pickLoop, deleteAll, List.map_nil, List.filter_nil, List.append_nil]
    rfl
  | fuel + 1, q, transmits, bytesUsed, toSend, reinsert, finished => by
    rw [getLoop, pickLoop]
    by_cases hdone : transmits > maxTr
    · simp only [if_pos hdone, deleteAll, List.map_nil, List.filter_nil, List.append_nil]
      rfl
    · simp only [if_neg hdone]
      by_cases hfree : limit - bytesUsed - overhead ≤ 0
      · simp only [if_pos hfree, deleteAll, List.map_nil, List.filter_nil, List.append_nil]
        rfl
      · simp only [if_neg hfree]
        cases hp : pick (q.tq.getD []) transmits (limit - bytesUsed - overhead) with
        | none =>
          -- the tier has nothing that fits: the walk moves up a tier
          exact getLoop_eq overhead limit transmitLimit maxTr fuel q (transmits + 1) bytesUsed
            toSend reinsert finished
        | some keep =>
          -- `keep` is deleted first; the rest of the walk starts from what is left
          simp only [deleteAll, bind, Except.bind]
          cases hdel : q.deleteItem keep with
          | error e => rfl
          | ok q₁ =>
            dsimp only
            have htq : q₁.tq.getD [] = SortedSet.delete limitedBroadcast.Less keep (q.tq.getD []) := by
              rw [deleteItem_tq hdel]
              rfl
            by_cases hlim : keep.transmits + 1 ≥ transmitLimit
            · rw [if_pos hlim, getLoop_eq overhead limit transmitLimit maxTr fuel, htq]
              simp [reachesLimit, hlim]
            · rw [if_neg hlim, getLoop_eq overhead limit transmitLimit maxTr fuel, htq]
              simp [reachesLimit, hlim, bump]

/-- `GetBroadcasts` is `sendTaken` applied to the items the walk takes. -/
theorem GetBroadcasts_eq (q : TransmitLimitedQueue) (overhead limit : Int) (numNodes : Nat) :
    q.GetBroadcasts overhead limit numNodes =
      q.sendTaken (retransmitLimit q.RetransmitMult numNodes) (q.taken overhead limit) := by
  unfold GetBroadcasts taken sendTaken
  split
  · -- the empty queue: nothing is taken
    simp only [deleteAll, addAll, List.filter_nil, List.map_nil]
    rfl
  · simp only [getLoop_eq]
    cases q.deleteAll _ with
    | error e => rfl
    | ok q₁ => rfl

theorem lenLocked_eq (q : TransmitLimitedQueue) : q.lenLocked = (q.tq.getD []).length := by
  unfold lenLocked
  split <;> rename_i h <;> rw [h] <;> rfl

/-! ### The walk is the greedy selection -/

/-- On a sorted tree of well-formed items, the iterator of `GetBroadcasts` finds the first
    item of the tier whose message fits: the bounds given to `AscendRange` are exactly tight. -/
theorem pick_eq_find? {t : List limitedBroadcast} (hs : t.Pairwise (·.Less ·))
    (hwf : ∀ x ∈ t, x.WellFormed) (transmits free : Int) :
    pick t transmits free = t.find? fun y => decide (y.transmits = transmits ∧ y.msgLen ≤ free) := by
  rw [pick, SortedSet.ascendRange_first Less_isStrictWeakOrder hs, Option.or_none]
  apply List.find?_congr
  intro y hy
  have hw := hwf y hy
  -- below `bound transmits free` are the lower tiers and the longer messages of this tier;
  -- below `bound (transmits + 1) MaxInt64` is everything up to this tier
  have hlen : (y.b.Message.length : Int) = y.msgLen := hw.msgLen_eq.symm
  rw [Bool.eq_iff_iff]
  simp only [Bool.and_eq_true, decide_eq_true_eq, Bool.not_eq_eq_eq_not, Bool.not_true,
    Bool.eq_false_iff, ne_eq, Less_iff, bound, hlen]
  have := hw.msgLen_le
  have := hw.id_le
  omega

variable {overhead limit maxTr : Int}

/-- What the walk keeps true of the tree `t` it has left at tier `transmits` with `used` bytes
    spent: the tree is sorted and well formed, no item is above tier `maxTr`, and nothing in the
    tiers passed fits any more. -/
structure WalkInv (overhead limit maxTr : Int) (t : List limitedBroadcast) (transmits used : Int) :
    Prop where
  sorted : t.Pairwise (·.Less ·)
  wellFormed : ∀ x ∈ t, x.WellFormed
  le_maxTr : ∀ x ∈ t, x.transmits ≤ maxTr
  passed : ∀ x ∈ t, x.transmits < transmits → limit - used - overhead < x.size
  tier_le : transmits ≤ maxTr + 1

namespace WalkInv

variable {t : List limitedBroadcast} {transmits used : Int}

/-- The first item of the tier that fits is the first item that fits at all. -/
theorem first_fit (inv : WalkInv overhead limit maxTr t transmits used) {keep : limitedBroadcast}
    (hp : t.find? (fun y => decide (y.transmits = transmits ∧ y.msgLen ≤ limit - used - overhead)) =
      some keep) :
    t.find? (fun x => decide (x.size ≤ limit - used - overhead)) = some keep := by
  obtain ⟨hk, as, bs, rfl, has⟩ := List.find?_eq_some_iff_append.mp hp
  simp only [decide_eq_true_eq] at hk
  have hwk := inv.wellFormed keep (by simp)
  refine List.find?_eq_some_iff_append.mpr ⟨?_, as, bs, rfl, fun a ha => ?_⟩
  · simpa [← hwk.msgLen_eq] using hk.2
  · -- an earlier item that fits is in a passed tier, or in this one before `keep`
    have hlt : a.Less keep = true :=
      (List.pairwise_append.mp inv.sorted).2.2 a ha keep List.mem_cons_self
    have htr := transmits_le_of_Less hlt
    have hwa := inv.wellFormed a (by simp [ha])
    have hpass := inv.passed a (by simp [ha])
    have hpa := has a ha
    simp only [Bool.not_eq_true', decide_eq_false_iff_not] at hpa ⊢
    have := hwa.msgLen_eq
    omega

/-- A tier with nothing that fits is passed. -/
theorem next_tier (inv : WalkInv overhead limit maxTr t transmits used) (hdone : ¬ transmits > maxTr)
    (hp : t.find? (fun y => decide (y.transmits = transmits ∧ y.msgLen ≤ limit - used - overhead)) =
      none) :
    WalkInv overhead limit maxTr t (transmits + 1) used where
  sorted := inv.sorted
  wellFormed := inv.wellFormed
  le_maxTr := inv.le_maxTr
  passed x hx hlt := by
    have hnone := List.find?_eq_none.mp hp x hx
    have hpass := inv.passed x hx
    have := (inv.wellFormed x hx).msgLen_eq
    simp only [decide_eq_true_eq] at hnone
    omega
  tier_le := by omega

/-- Taking an item leaves the invariant: less room only keeps the passed tiers passed. -/
theorem take (inv : WalkInv overhead limit maxTr t transmits used) (hov : 0 ≤ overhead)
    (keep : limitedBroadcast) :
    WalkInv overhead limit maxTr (t.erase keep) transmits (used + overhead + keep.size) where
  sorted := inv.sorted.erase keep
  wellFormed x hx := inv.wellFormed x (List.mem_of_mem_erase hx)
  le_maxTr x hx := inv.le_maxTr x (List.mem_of_mem_erase hx)
  passed x hx hlt := by
    have hpass := inv.passed x (List.mem_of_mem_erase hx) hlt
    have hsize : 0 ≤ keep.size := Int.natCast_nonneg _
    omega
  tier_le := inv.tier_le

end WalkInv

/-- **The walk is the greedy selection.**  From a tree and tier satisfying `WalkInv`, with enough
    fuel for every item and every tier left, the walk takes what `Greedy.greedy` picks. -/
theorem pickLoop_eq_greedy (hov : 0 ≤ overhead) :
    ∀ (fuel : Nat) (t : List limitedBroadcast) (transmits used : Int),
      WalkInv overhead limit maxTr t transmits used →
      t.length + (maxTr + 1 - transmits).toNat ≤ fuel →
      pickLoop overhead limit maxTr fuel t transmits used =
        Greedy.greedy limitedBroadcast.Less size overhead limit t used
  | 0, t, transmits, used, _, hfuel => by
    -- no fuel: no item is left
    have ht : t = [] := List.length_eq_zero_iff.mp (by omega)
    subst ht
    rw [pickLoop, Greedy.greedy_eq_nil]
    intro x hx
    cases hx
  | fuel + 1, t, transmits, used, inv, hfuel => by
    rw [pickLoop]
    by_cases hdone : transmits > maxTr
    · -- past the last tier nothing fits
      rw [if_pos hdone, Greedy.greedy_eq_nil]
      intro x hx
      exact inv.passed x hx (by have := inv.le_maxTr x hx; omega)
    · rw [if_neg hdone]
      simp only
      by_cases hfree : limit - used - overhead ≤ 0
      · rw [if_pos hfree, Greedy.greedy_eq, if_pos hfree]
      · rw [if_neg hfree, pick_eq_find? inv.sorted inv.wellFormed]
        cases hp : t.find? fun y =>
            decide (y.transmits = transmits ∧ y.msgLen ≤ limit - used - overhead) with
        | none =>
          exact pickLoop_eq_greedy hov fuel t (transmits + 1) used (inv.next_tier hdone hp)
            (by omega)
        | some keep =>
          -- the first item of the tier that fits is the least item that fits
          have hmem : keep ∈ t := List.mem_of_find?_eq_some hp
          rw [Greedy.greedy_eq, if_neg hfree,
            Greedy.least_filter_eq_find? Less_isStrictWeakOrder inv.sorted, inv.first_fit hp]
          dsimp only
          rw [SortedSet.delete_eq_erase Less_isStrictWeakOrder inv.sorted hmem]
          have hlen := List.length_erase_of_mem hmem
          have hpos := List.length_pos_of_mem hmem
          exact congrArg (keep :: ·)
            (pickLoop_eq_greedy hov fuel (t.erase keep) transmits _ (inv.take hov keep) (by omega))

/-- In a sorted tree the first item has the least tier. -/
theorem head_transmits_le {h : limitedBroadcast} {rest : List limitedBroadcast}
    (hs : (h :: rest).Pairwise (·.Less ·)) : ∀ x ∈ h :: rest, h.transmits ≤ x.transmits := by
  intro x hx
  rcases List.mem_cons.mp hx with rfl | hxr
  · exact Int.le_refl _
  · exact transmits_le_of_Less ((List.pairwise_cons.mp hs).1 x hxr)

/-- In a sorted tree the last item has the greatest tier. -/
theorem transmits_le_getLast {t : List limitedBroadcast} (hs : t.Pairwise (·.Less ·))
    (hne : t ≠ []) : ∀ x ∈ t, x.transmits ≤ (t.getLast hne).transmits := by
  intro x hx
  rw [← List.dropLast_append_getLast hne] at hs hx
  rcases List.mem_append.mp hx with hx | hx
  · exact transmits_le_of_Less
      ((List.pairwise_append.mp hs).2.2 x hx _ (List.mem_singleton_self _))
  · rw [List.mem_singleton.mp hx]

theorem getTransmitRange_eq {q : TransmitLimitedQueue} {h : limitedBroadcast}
    {rest : List limitedBroadcast} (ht : q.tq.getD [] = h :: rest) :
    q.getTransmitRange =
      (h.transmits, ((h :: rest).getLast (List.cons_ne_nil h rest)).transmits) := by
  unfold getTransmitRange
  rw [lenLocked_eq, ht, if_neg (by simp), List.head?_cons,
    List.getLast?_eq_some_getLast (List.cons_ne_nil h rest)]

/-- On a sorted tree of well-formed items, with a non-negative overhead, `GetBroadcasts` takes
    exactly what the greedy selection picks. -/
theorem taken_eq_greedy {q : TransmitLimitedQueue} (hs : (q.tq.getD []).Pairwise (·.Less ·))
    (hwf : ∀ x ∈ q.tq.getD [], x.WellFormed) (hov : 0 ≤ overhead) (limit : Int) :
    q.taken overhead limit =
      Greedy.greedy limitedBroadcast.Less size overhead limit (q.tq.getD []) 0 := by
  unfold taken
  rw [lenLocked_eq]
  cases ht : q.tq.getD [] with
  | nil =>
    rw [List.length_nil, if_pos rfl, Greedy.greedy_eq_nil]
    intro x hx
    cases hx
  | cons h rest =>
    rw [ht] at hs hwf
    rw [if_neg (by simp), getTransmitRange_eq ht]
    dsimp only
    -- the walk starts at the first item's tier and ends at the last item's
    have hlast := transmits_le_getLast hs (List.cons_ne_nil h rest)
    have hfirst := head_transmits_le hs
    have hle := hlast h List.mem_cons_self
    refine pickLoop_eq_greedy hov _ _ _ _ ⟨hs, hwf, hlast, ?_, by omega⟩ (by omega)
    intro x hx hlt
    exact absurd hlt (Int.not_lt.mpr (hfirst x hx))

/-! ### What `sendTaken` does to the queue -/

/-- The name map after `deleteItem` of each of `P`. -/
def eraseNames (P : List limitedBroadcast) (m : AList fun _ : String => limitedBroadcast) :
    AList fun _ : String => limitedBroadcast :=
  P.foldl (fun m cur => if cur.name ≠ "" then m.erase cur.name else m) m

/-- The name map after `addItem` of each of `L`. -/
def insertNames (L : List limitedBroadcast) (m : AList fun _ : String => limitedBroadcast) :
    AList fun _ : String => limitedBroadcast :=
  L.foldl (fun m cur => if cur.name ≠ "" then m.insert cur.name cur else m) m

theorem eraseNames_cons (x : limitedBroadcast) (P : List limitedBroadcast)
    (m : AList fun _ : String => limitedBroadcast) :
    eraseNames (x :: P) m = eraseNames P (if x.name ≠ "" then m.erase x.name else m) := rfl

theorem insertNames_cons (x : limitedBroadcast) (L : List limitedBroadcast)
    (m : AList fun _ : String => limitedBroadcast) :
    insertNames (x :: L) m = insertNames L (if x.name ≠ "" then m.insert x.name x else m) := rfl

/-- The iterator of `GetBroadcasts` returns an item of the tree. -/
theorem pick_mem {t : List limitedBroadcast} (hs : t.Pairwise (·.Less ·)) {transmits free : Int}
    {x : limitedBroadcast} (h : pick t transmits free = some x) : x ∈ t := by
  rw [pick, SortedSet.ascendRange_first Less_isStrictWeakOrder hs, Option.or_none] at h
  exact List.mem_of_find?_eq_some h

/-- On a sorted tree the walk takes distinct items of it. -/
theorem pickLoop_subperm {overhead limit maxTr : Int} :
    ∀ (fuel : Nat) {t : List limitedBroadcast} (transmits used : Int), t.Pairwise (·.Less ·) →
      (pickLoop overhead limit maxTr fuel t transmits used).Subperm t
  | 0, _, _, _, _ => List.nil_subperm
  | fuel + 1, t, transmits, used, hs => by
    rw [pickLoop]
    split
    · exact List.nil_subperm
    · simp only
      split
      · exact List.nil_subperm
      · split
        · exact pickLoop_subperm fuel _ _ hs
        · -- the item taken is deleted from the tree the walk goes on with
          rename_i keep hp
          have hmem := pick_mem hs hp
          rw [SortedSet.delete_eq_erase Less_isStrictWeakOrder hs hmem]
          exact ((List.subperm_cons keep).mpr (pickLoop_subperm fuel _ _ (hs.erase keep))).trans
            (List.perm_cons_erase hmem).symm.subperm

theorem taken_subperm {q : TransmitLimitedQueue} (hs : (q.tq.getD []).Pairwise (·.Less ·))
    (overhead limit : Int) : (q.taken overhead limit).Subperm (q.tq.getD []) := by
  unfold taken
  split
  · exact List.nil_subperm
  · exact pickLoop_subperm _ _ _ hs

/-- `deleteAll` of distinct items of a sorted tree: the tree loses them, the name map their
    names, and the id generator restarts if the tree ends up empty. -/
theorem deleteAll_eq {t : List limitedBroadcast} (hs : t.Pairwise (·.Less ·)) :
    ∀ {q : TransmitLimitedQueue} {P : List limitedBroadcast}, q.tq = some t → P.Subperm t →
      q.deleteAll P = .ok { q with
        tq := some (t.diff P), tm := q.tm.map (eraseNames P),
        idGen := if P ≠ [] ∧ t.diff P = [] then 0 else q.idGen }
  | q, [], ht, _ => by
    have hnames : eraseNames [] = fun m => m := rfl
    rw [deleteAll]
    cases q
    simp only at ht
    simp [ht, hnames]
  | q, x :: P, ht, hP => by
    have hx : x ∈ t := hP.subset List.mem_cons_self
    have hP' : P.Subperm (t.erase x) := by simpa using hP.erase x
    have hdel : q.deleteItem x = .ok { q with
        tq := some (t.erase x),
        tm := if x.name ≠ "" then q.tm.map (·.erase x.name) else q.tm,
        idGen := if (t.erase x).length = 0 then 0 else q.idGen } := by
      unfold deleteItem
      rw [ht]
      simp only [SortedSet.delete_eq_erase Less_isStrictWeakOrder hs hx]
    rw [deleteAll, hdel]
    simp only [bind, Except.bind]
    rw [deleteAll_eq (hs.erase x) rfl hP']
    simp only [List.diff_cons, Except.ok.injEq]
    congr 1
    · -- the name map loses `x`'s name first
      by_cases hn : x.name ≠ ""
      · rw [if_pos hn, Option.map_map]
        exact congrArg (Option.map · q.tm) (funext fun m => by rw [eraseNames_cons, if_pos hn]; rfl)
      · rw [if_neg hn]
        exact congrArg (Option.map · q.tm) (funext fun m => by rw [eraseNames_cons, if_neg hn])
    · -- the id generator restarts when the tree ends up empty
      by_cases he : t.erase x = []
      · rw [he, List.subperm_nil] at hP'
        subst hP'
        simp [he]
      · have hlen : (t.erase x).length ≠ 0 := fun h => he (List.length_eq_zero_iff.mp h)
        by_cases hP0 : P = []
        · subst hP0
          simp [he]
        · simp [hP0, hlen]

/-- `addAll` into a tree with a name map: each item goes into the tree by `ReplaceOrInsert`,
    and each named one into the map. -/
theorem addAll_eq : ∀ {q : TransmitLimitedQueue} {t : List limitedBroadcast}
    {m : AList fun _ : String => limitedBroadcast} (L : List limitedBroadcast),
    q.tq = some t → q.tm = some m →
      q.addAll L = .ok { q with
        tq := some (L.foldl (fun t x => SortedSet.replaceOrInsert limitedBroadcast.Less x t) t),
        tm := some (insertNames L m) }
  | q, t, m, [], ht, hm => by
    rw [addAll]
    cases q
    simp only at ht hm
    rw [ht, hm]
    rfl
  | q, t, m, x :: L, ht, hm => by
    have hadd : q.addItem x = .ok { q with
        tq := some (SortedSet.replaceOrInsert limitedBroadcast.Less x t),
        tm := some (if x.name ≠ "" then m.insert x.name x else m) } := by
      unfold addItem
      rw [ht]
      dsimp only
      by_cases hn : x.name ≠ ""
      · rw [if_pos hn, hm, if_pos hn]
      · rw [if_neg hn, if_neg hn]
        cases q
        simp only at hm
        rw [hm]
    rw [addAll, hadd]
    simp only [bind, Except.bind]
    rw [addAll_eq L rfl rfl]
    rfl

/-- `sendTaken` of distinct items of a sorted tree with a name map, in closed form. -/
theorem sendTaken_eq {q : TransmitLimitedQueue} {t : List limitedBroadcast}
    {m : AList fun _ : String => limitedBroadcast} (ht : q.tq = some t) (hm : q.tm = some m)
    (hs : t.Pairwise (·.Less ·)) (transmitLimit : Int) {P : List limitedBroadcast}
    (hP : P.Subperm t) :
    q.sendTaken transmitLimit P = .ok ({ q with
        tq := some (((P.filter fun x => !reachesLimit transmitLimit x).map bump).foldl
          (fun t x => SortedSet.replaceOrInsert limitedBroadcast.Less x t) (t.diff P)),
        tm := some (insertNames ((P.filter fun x => !reachesLimit transmitLimit x).map bump)
          (eraseNames P m)),
        idGen := if P ≠ [] ∧ t.diff P = [] then 0 else q.idGen },
      P.map (·.b.Message), (P.filter (reachesLimit transmitLimit)).map (·.b)) := by
  unfold sendTaken
  rw [deleteAll_eq hs ht hP]
  simp only [bind, Except.bind]
  rw [addAll_eq _ rfl (by rw [hm]; rfl)]
  rfl

end TransmitLimitedQueue

end memberlist
