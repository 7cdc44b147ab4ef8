import Memberlist.Queue.Greedy

/-!
# `GetBroadcasts` refines the greedy selection (queue.go)

On a queue satisfying the representation invariant `Valid` (the tree sorted by `Less`, its
items well formed with pairwise distinct ids, the name map holding exactly the named items of
the tree), `GetBroadcasts` returns the messages of `Greedy.greedy` in order, finishes those
that reach the limit, and leaves the tree the old one with each item it took either gone or
back a tier up; the name map follows the tree, and the id generator restarts only if the tree
emptied.

* `lookup_eraseNames`, `lookup_insertNames` — the name map after `deleteItem` and `addItem`
  of a list of items.
* `Valid` and `Valid.name_inj` — the invariant; it makes names unique in the tree.
-/

namespace memberlist

open Go

namespace TransmitLimitedQueue

open limitedBroadcast

/-! ### The name map -/

section Names

variable {n : String} (hn : n ≠ "")
include hn

theorem lookup_eraseNames (P : List limitedBroadcast) (m : AList fun _ : String => limitedBroadcast) :
    (eraseNames P m).lookup n = if n ∈ P.map (·.name) then none else m.lookup n := by
  induction P generalizing m with
  | nil => rfl
  | cons x P ih =>
    rw [eraseNames_cons, ih, List.map_cons]
    by_cases hP : n ∈ P.map (·.name)
    · rw [if_pos hP, if_pos (List.mem_cons_of_mem _ hP)]
    · rw [if_neg hP]
      by_cases hx : x.name = n
      · -- `x` carries the name: it is erased
        have hxn : x.name ≠ "" := by rw [hx]; exact hn
        rw [if_pos (List.mem_cons.mpr (Or.inl hx.symm)), if_pos hxn, hx, AList.lookup_erase]
      · have hnot : n ∉ x.name :: P.map (·.name) := fun h =>
          (List.mem_cons.mp h).elim (fun h => hx h.symm) hP
        rw [if_neg hnot]
        split
        · exact AList.lookup_erase_ne (Ne.symm hx)
        · rfl

theorem lookup_insertNames (L : List limitedBroadcast) (m : AList fun _ : String => limitedBroadcast) :
    (insertNames L m).lookup n = (L.filter (·.name = n)).getLast?.or (m.lookup n) := by
  induction L generalizing m with
  | nil => rfl
  | cons x L ih =>
    rw [insertNames_cons, ih]
    by_cases hx : x.name = n
    · -- `x` carries the name: it is the last inserted unless a later item does too
      have hxn : x.name ≠ "" := by rw [hx]; exact hn
      rw [if_pos hxn, hx, AList.lookup_insert, List.filter_cons_of_pos (by simpa using hx),
        List.getLast?_cons]
      cases (L.filter (·.name = n)).getLast? <;> rfl
    · rw [List.filter_cons_of_neg (by simpa using hx)]
      split
      · rw [AList.lookup_insert_ne (Ne.symm hx)]
      · rfl

end Names

/-! ### The representation invariant -/

/-- The representation invariant: the tree is sorted by `Less`, its items are well formed with
    pairwise distinct ids, and the name map, present with the tree, holds exactly the named
    items of the tree. -/
structure Valid (q : TransmitLimitedQueue) : Prop where
  sorted : (q.tq.getD []).Pairwise (·.Less ·)
  wellFormed : ∀ x ∈ q.tq.getD [], x.WellFormed
  ids : ((q.tq.getD []).map (·.id)).Nodup
  tm_isSome : q.tm.isSome = q.tq.isSome
  names : ∀ n x, n ≠ "" → ((q.tm.getD ∅).lookup n = some x ↔ x ∈ q.tq.getD [] ∧ x.name = n)

/-- Named items of a valid queue have distinct names. -/
theorem Valid.name_inj {q : TransmitLimitedQueue} (hq : q.Valid) {x y : limitedBroadcast}
    (hx : x ∈ q.tq.getD []) (hy : y ∈ q.tq.getD []) (hname : x.name = y.name)
    (hne : x.name ≠ "") : x = y := by
  have hlx := (hq.names x.name x hne).mpr ⟨hx, rfl⟩
  have hly := (hq.names x.name y hne).mpr ⟨hy, hname.symm⟩
  rw [hlx] at hly
  exact Option.some.inj hly

/-- A sublist up to order of a list with distinct ids has distinct ids. -/
theorem nodup_ids_of_subperm {L t : List limitedBroadcast} (hL : L.Subperm t)
    (ht : (t.map (·.id)).Nodup) : (L.map (·.id)).Nodup := by
  obtain ⟨l, hperm, hsub⟩ := hL
  exact (hperm.map _).nodup_iff.mp (ht.sublist (hsub.map _))

/-- The ids of the items of a valid tree are distinct. -/
theorem Valid.ids_of_eq {q : TransmitLimitedQueue} {t : List limitedBroadcast} (hq : q.Valid)
    (ht : q.tq = some t) : (t.map (·.id)).Nodup := by
  have hids := hq.ids
  rwa [ht, Option.getD_some] at hids

/-- Two different items of a valid tree are never equivalent: their ids differ. -/
theorem Valid.comparable_of_mem {q : TransmitLimitedQueue} {t : List limitedBroadcast}
    (hq : q.Valid) (ht : q.tq = some t) {x y : limitedBroadcast} (hx : x ∈ t) (hy : y ∈ t) (hxy : x ≠ y) :
    x.Less y = true ∨ y.Less x = true :=
  Less_or_Less_of_id_ne fun h => hxy (List.inj_on_of_nodup_map (hq.ids_of_eq ht) hx hy h)

/-- Where `p` is the one item of `R` named `n`, the last item named `n` among the bumps of `R`
    is `p`'s bump. -/
theorem getLast?_filter_name_bump {R : List limitedBroadcast} {p : limitedBroadcast} {n : String}
    (hpR : p ∈ R) (hpn : p.name = n) (hall : ∀ p' ∈ R, p'.name = n → p' = p) :
    ((R.map bump).filter (·.name = n)).getLast? = some p.bump := by
  have hne : (R.map bump).filter (·.name = n) ≠ [] :=
    List.ne_nil_of_mem (List.mem_filter.mpr ⟨List.mem_map_of_mem hpR, decide_eq_true hpn⟩)
  have hall' : ∀ y ∈ (R.map bump).filter (·.name = n), y = p.bump := by
    intro y hy
    obtain ⟨hyB, hyn⟩ := List.mem_filter.mp hy
    obtain ⟨p', hp'R, rfl⟩ := List.mem_map.mp hyB
    rw [hall p' hp'R (of_decide_eq_true hyn)]
  rw [List.getLast?_eq_some_getLast hne, hall' _ (List.getLast_mem hne)]

section SendTaken

variable {q : TransmitLimitedQueue} {t P : List limitedBroadcast} (hq : q.Valid)
  (ht : q.tq = some t) (hP : P.Subperm t)
include hq ht hP

/-- The items re-inserted a tier up: pairwise never equivalent, and never equivalent to an
    item left in the tree. -/
theorem Valid.bumped_comparable (transmitLimit : Int) :
    ((P.filter fun x => !reachesLimit transmitLimit x).map bump).Pairwise
        (fun x y => x.Less y = true ∨ y.Less x = true) ∧
      ∀ x ∈ (P.filter fun x => !reachesLimit transmitLimit x).map bump, ∀ y ∈ t.diff P,
        x.Less y = true ∨ y.Less x = true := by
  have htn : t.Nodup := (hq.ids_of_eq ht).of_map _
  have hPn : P.Nodup := by
    obtain ⟨l, hperm, hsub⟩ := hP
    exact hperm.nodup_iff.mp (htn.sublist hsub)
  constructor
  · -- distinct items taken have distinct ids, and so do their bumps
    rw [List.pairwise_map]
    refine ((hPn.sublist List.filter_sublist).imp_of_mem fun ha hb hab => ?_)
    have ha' := hP.subset (List.mem_of_mem_filter ha)
    have hb' := hP.subset (List.mem_of_mem_filter hb)
    rw [bump_Less_bump, bump_Less_bump]
    exact hq.comparable_of_mem ht ha' hb' hab
  · intro x hx y hy
    obtain ⟨p, hp, rfl⟩ := List.mem_map.mp hx
    have hpP := List.mem_of_mem_filter hp
    obtain ⟨hyt, hyP⟩ := (htn.mem_sdiff_iff).mp hy
    -- `p` was taken and `y` was not, so they differ, and `bump p` has `p`'s id
    have hne : p ≠ y := fun h => hyP (h ▸ hpP)
    have hid : p.bump.id ≠ y.id := fun h =>
      hne (List.inj_on_of_nodup_map (hq.ids_of_eq ht) (hP.subset hpP) hyt h)
    exact Less_or_Less_of_id_ne hid

/-- After `sendTaken`, the name map holds exactly the named items of the new tree `T`, given
    by its items: those left and those re-inserted. -/
theorem Valid.names_sendTaken {m : AList fun _ : String => limitedBroadcast} (hm : q.tm = some m)
    (transmitLimit : Int) {T : List limitedBroadcast}
    (hT : ∀ x, x ∈ T ↔ x ∈ t.diff P ∨ x ∈ (P.filter fun x => !reachesLimit transmitLimit x).map bump)
    (n : String) (x : limitedBroadcast) (hn : n ≠ "") :
    (insertNames ((P.filter fun x => !reachesLimit transmitLimit x).map bump)
        (eraseNames P m)).lookup n = some x ↔ x ∈ T ∧ x.name = n := by
  have htn : t.Nodup := (hq.ids_of_eq ht).of_map _
  have hmt : ∀ y, m.lookup n = some y ↔ y ∈ t ∧ y.name = n := by
    intro y
    have h := hq.names n y hn
    rwa [ht, hm, Option.getD_some, Option.getD_some] at h
  -- two items of the tree with the name `n` are one
  have hinj : ∀ y ∈ t, ∀ z ∈ t, y.name = n → z.name = n → y = z := by
    intro y hy z hz hyn hzn
    refine hq.name_inj (by rw [ht]; exact hy) (by rw [ht]; exact hz) (hyn.trans hzn.symm) ?_
    rw [hyn]
    exact hn
  have hmemT : x ∈ T ↔ (x ∈ t ∧ x ∉ P) ∨
      ∃ p ∈ P.filter (fun x => !reachesLimit transmitLimit x), p.bump = x := by
    rw [hT, htn.mem_sdiff_iff, List.mem_map]
  rw [lookup_insertNames hn, lookup_eraseNames hn, hmemT]
  by_cases hR : ∃ p ∈ P.filter (fun x => !reachesLimit transmitLimit x), p.name = n
  · -- a re-inserted item has the name: it is the one the map holds
    obtain ⟨p, hpR, hpn⟩ := hR
    have hpt : p ∈ t := hP.subset (List.mem_of_mem_filter hpR)
    have hlast := getLast?_filter_name_bump hpR hpn fun p' hp'R hp'n =>
      hinj p' (hP.subset (List.mem_of_mem_filter hp'R)) p hpt hp'n hpn
    rw [hlast, Option.some_or]
    constructor
    · rintro ⟨⟩
      exact ⟨Or.inr ⟨p, hpR, rfl⟩, hpn⟩
    · rintro ⟨hx | ⟨p', hp'R, rfl⟩, hxn⟩
      · -- an item left with the name would be `p`, which was taken
        exact absurd (hinj x hx.1 p hpt hxn hpn ▸ List.mem_of_mem_filter hpR) hx.2
      · have hp't : p' ∈ t := hP.subset (List.mem_of_mem_filter hp'R)
        rw [hinj p' hp't p hpt (by simpa only [bump_name] using hxn) hpn]
  · -- no re-inserted item has the name
    have hB : ((P.filter fun x => !reachesLimit transmitLimit x).map bump).filter (·.name = n) = [] := by
      refine List.filter_eq_nil_iff.mpr fun y hy hyn => hR ?_
      obtain ⟨p, hpR, rfl⟩ := List.mem_map.mp hy
      exact ⟨p, hpR, of_decide_eq_true hyn⟩
    have hnotB : ¬ ∃ p ∈ P.filter (fun x => !reachesLimit transmitLimit x), p.bump = x ∧
        x.name = n := by
      rintro ⟨p, hpR, rfl, hpn⟩
      exact hR ⟨p, hpR, hpn⟩
    rw [hB, List.getLast?_nil, Option.none_or]
    by_cases hPn : n ∈ P.map (·.name)
    · -- a finished item had the name: the map loses it, and no item left has it
      rw [if_pos hPn]
      obtain ⟨p, hpP, hpn⟩ := List.mem_map.mp hPn
      constructor
      · rintro ⟨⟩
      · rintro ⟨hx | hx, hxn⟩
        · exact absurd (hinj x hx.1 p (hP.subset hpP) hxn hpn ▸ hpP) hx.2
        · obtain ⟨p', hp'R, hp'x⟩ := hx
          exact absurd ⟨p', hp'R, hp'x, hxn⟩ hnotB
    · -- the name is untouched: the items left with it are the old ones
      rw [if_neg hPn, hmt]
      constructor
      · rintro ⟨hxt, hxn⟩
        exact ⟨Or.inl ⟨hxt, fun hxP => hPn (List.mem_map.mpr ⟨x, hxP, hxn⟩)⟩, hxn⟩
      · rintro ⟨hx | ⟨p', hp'R, hp'x⟩, hxn⟩
        · exact ⟨hx.1, hxn⟩
        · exact absurd ⟨p', hp'R, hp'x, hxn⟩ hnotB

end SendTaken

/-! ### The refinement -/

/-- What the greedy reference picks from the queue for `GetBroadcasts overhead limit`. -/
def greedyPicks (q : TransmitLimitedQueue) (overhead limit : Int) : List limitedBroadcast :=
  Greedy.greedy limitedBroadcast.Less size overhead limit (q.tq.getD []) 0

theorem greedyPicks_subperm (q : TransmitLimitedQueue) (overhead limit : Int) :
    (q.greedyPicks overhead limit).Subperm (q.tq.getD []) :=
  Greedy.select_subperm _ _ _

/-- The tree after `sendTaken` of distinct items of a valid queue: the items left and those
    re-inserted, all there since none is equivalent to another, and the queue is valid again. -/
theorem Valid.sendTaken {q : TransmitLimitedQueue} (hq : q.Valid) {t P : List limitedBroadcast}
    (ht : q.tq = some t) (hP : P.Subperm t) (transmitLimit : Int) :
    ∃ q', q.sendTaken transmitLimit P =
        .ok (q', P.map (·.b.Message), (P.filter (reachesLimit transmitLimit)).map (·.b)) ∧
      (q'.tq.getD []).Perm (t.diff P ++ (P.filter fun x => !reachesLimit transmitLimit x).map bump) ∧
      q'.Valid ∧ q'.RetransmitMult = q.RetransmitMult ∧
      q'.idGen = (if P ≠ [] ∧ t.diff P = [] then 0 else q.idGen) := by
  obtain ⟨m, hm⟩ : ∃ m, q.tm = some m :=
    Option.isSome_iff_exists.mp (hq.tm_isSome.trans (by rw [ht]; rfl))
  have hs : t.Pairwise (·.Less ·) := by
    have := hq.sorted
    rwa [ht, Option.getD_some] at this
  obtain ⟨hB, hBt⟩ := hq.bumped_comparable ht hP transmitLimit
  have hperm := SortedSet.foldl_replaceOrInsert_perm hB hBt
  have hmem : ∀ x, x ∈ (((P.filter fun x => !reachesLimit transmitLimit x).map bump).foldl
      (fun t x => SortedSet.replaceOrInsert limitedBroadcast.Less x t) (t.diff P)) ↔
      x ∈ t.diff P ∨ x ∈ (P.filter fun x => !reachesLimit transmitLimit x).map bump := by
    intro x
    rw [hperm.mem_iff, List.mem_append, or_comm]
  -- the items left and those taken back in are, up to order, part of the old tree
  have hsub : (t.diff P ++ P.filter fun x => !reachesLimit transmitLimit x).Subperm t :=
    ((List.subperm_append_left _).mpr List.filter_sublist.subperm).trans
      (List.perm_append_comm.trans
        (List.subperm_append_diff_self_of_count_le (List.subperm_ext_iff.mp hP))).subperm
  have hids : (t.map (·.id)).Nodup := hq.ids_of_eq ht
  rw [sendTaken_eq ht hm hs transmitLimit hP]
  refine ⟨_, rfl, hperm.trans List.perm_append_comm, ⟨?_, ?_, ?_, rfl, ?_⟩, rfl, rfl⟩
  · exact SortedSet.pairwise_foldl_replaceOrInsert Less_isStrictWeakOrder
      (hs.sublist (List.diff_sublist t P))
  · intro x hx
    have hwf := hq.wellFormed
    rw [ht, Option.getD_some] at hwf
    rcases (hmem x).mp hx with hx | hx
    · exact hwf x ((List.diff_sublist t P).subset hx)
    · obtain ⟨p, hp, rfl⟩ := List.mem_map.mp hx
      exact (hwf p (hP.subset (List.mem_of_mem_filter hp))).bump
  · -- a tier up, an item keeps its id
    have hbid : ((P.filter fun x => !reachesLimit transmitLimit x).map bump).map (·.id) =
        (P.filter fun x => !reachesLimit transmitLimit x).map (·.id) := by
      rw [List.map_map]
      rfl
    refine ((hperm.trans List.perm_append_comm).map (·.id)).nodup_iff.mpr ?_
    rw [List.map_append, hbid, ← List.map_append]
    exact nodup_ids_of_subperm hsub hids
  · exact hq.names_sendTaken ht hP hm transmitLimit hmem

theorem sendTaken_nil (q : TransmitLimitedQueue) (transmitLimit : Int) :
    q.sendTaken transmitLimit [] = .ok (q, [], []) := rfl

/-- Two plain one-byte broadcasts queued in turn: `lossB` is the newer, so it comes first. -/
def twoQueued : TransmitLimitedQueue :=
  { RetransmitMult := 1,
    tq := some [⟨0, 1, 2, lossB, ""⟩, ⟨0, 1, 1, lossA, ""⟩],
    tm := some ∅,
    idGen := 2 }

theorem twoQueued_valid : twoQueued.Valid where
  sorted := by decide
  wellFormed := by decide
  ids := by decide
  tm_isSome := rfl
  names n x hn := by
    -- no item is named, and neither is anything in the map
    simp only [twoQueued, Option.getD_some, AList.lookup_empty, reduceCtorEq, false_iff,
      List.mem_cons, List.not_mem_nil, or_false, not_and]
    rintro (rfl | rfl) <;> exact fun h => hn h.symm

/-- The queue after queueing `lossA`, sending it once and queueing `lossB` (the first three
    calls of `idReuseRun`): the tree emptied while `lossA` waited for re-insertion, so `lossB`
    got `lossA`'s id. -/
def collidedQueue : TransmitLimitedQueue :=
  { RetransmitMult := 2,
    tq := some [⟨0, 1, 1, lossB, ""⟩, ⟨1, 1, 1, lossA, ""⟩],
    tm := some ∅,
    idGen := 1 }

/-- Without distinct ids the re-insertion can drop an item that was not taken.  The reachable
    `collidedQueue` is sorted and well formed; `GetBroadcasts 0 1` sends what the greedy
    selection picks, `lossB`, but re-inserting it a tier up replaces `lossA`, which it did not
    take: the tree is not the old one with the item taken moved up. -/
theorem getBroadcasts_reinsert_drops_untaken :
    runQueue (fun _ _ => false) (TransmitLimitedQueue.zero 2)
        [.QueueBroadcast lossA, .GetBroadcasts 0 1 1, .QueueBroadcast lossB] =
      .ok (collidedQueue, []) ∧
    (collidedQueue.tq.getD []).Pairwise (·.Less ·) ∧
    (∀ x ∈ collidedQueue.tq.getD [], x.WellFormed) ∧
    ∃ q', collidedQueue.GetBroadcasts 0 1 1 =
        .ok (q', (collidedQueue.greedyPicks 0 1).map (·.b.Message), []) ∧
      ¬ (q'.tq.getD []).Perm ((collidedQueue.tq.getD []).diff (collidedQueue.greedyPicks 0 1) ++
        ((collidedQueue.greedyPicks 0 1).filter
          fun x => !reachesLimit (retransmitLimit collidedQueue.RetransmitMult 1) x).map bump) :=
  ⟨rfl, by decide, by decide,
    ⟨{ RetransmitMult := 2, tq := some [⟨1, 1, 1, lossB, ""⟩], tm := some ∅, idGen := 1 },
      rfl, by decide⟩⟩

end TransmitLimitedQueue

end memberlist
