import Mathlib
import Memberlist.Queue.Refinement
import Memberlist.Queue.Retransmit

/-!
# The name map of the queue (queue.go)

`queueBroadcast` finds the queued item of a `NamedBroadcast`'s name through the map `tm`, not
the tree, and deletes it before it adds the new item.  Where ids collide the two drift apart:
`ReplaceOrInsert` may drop an item whose entry the map keeps
(`getBroadcasts_reinsert_drops_untaken`).  What every run keeps is one direction of the
correspondence, and it is enough for the map to find every item of a name.

* `NameInv` — the tree sorted, the map present with the tree, every entry under a name an item
  of that name, and every named item of the tree the entry under its name.  Stale entries, of
  items no longer queued, are allowed.
* `lookup_deleteItem`, `lookup_addItem` — what the two primitives do to the map.
* `NameInv.deleteItem`, `NameInv.addItem`, `NameInv.deleteAll` — deleting an item the map gives
  for its name, and adding an item whose name no queued item has, keep the invariant.
* `NameInv.queueBroadcast_adds` — what `queueBroadcast` does: it adds the new item to a queue
  that holds no item of its nonempty name.
* `NameInv.queueBroadcast`, `NameInv.getBroadcasts`, `NameInv.prune`, `NameInv.apply` — so every
  call of the API keeps the invariant, with any `Invalidates` and any `NumNodes()`;
  `NameInv.runQueue` over whole runs.
* `runQueue_names_unique` — over every run from a new queue, each named item of the tree is the
  entry under its name and the only queued item of that name.
* `queueBroadcast_named_replaces` — in every state reached so, a named broadcast replaces the
  queued item of its name.
-/

namespace memberlist

open Go limitedBroadcast

namespace TransmitLimitedQueue

/-- A tree sorted by `Less` holds no item twice. -/
theorem nodup_of_sorted {t : List limitedBroadcast} (hs : t.Pairwise (·.Less ·)) : t.Nodup :=
  hs.imp fun {a b} hab heq => by
    subst heq
    exact Less_isStrictWeakOrder.irrefl a hab

section Primitives

variable {q q' : TransmitLimitedQueue} {cur : limitedBroadcast}

/-- The map after `deleteItem cur`: the entry under `cur`'s name is gone, the others stay. -/
theorem lookup_deleteItem (h : q.deleteItem cur = .ok q') (n : String) :
    (q'.tm.getD ∅).lookup n =
      if cur.name ≠ "" ∧ n = cur.name then none else (q.tm.getD ∅).lookup n := by
  unfold deleteItem at h
  split at h
  · cases h
  · cases h
    dsimp only
    by_cases hn : cur.name ≠ ""
    · rw [if_pos hn]
      cases q.tm with
      | none => simp
      | some m =>
        rw [Option.map_some, Option.getD_some, Option.getD_some]
        by_cases hnc : n = cur.name
        · rw [if_pos ⟨hn, hnc⟩, hnc, AList.lookup_erase]
        · rw [if_neg fun h => hnc h.2, AList.lookup_erase_ne hnc]
    · rw [if_neg hn, if_neg fun h => hn h.1]

/-- The map after `addItem cur`: a named `cur` is the entry under its name. -/
theorem lookup_addItem (h : q.addItem cur = .ok q') (n : String) :
    (q'.tm.getD ∅).lookup n =
      if cur.name ≠ "" ∧ n = cur.name then some cur else (q.tm.getD ∅).lookup n := by
  unfold addItem at h
  split at h
  · cases h
  · split at h
    · rename_i hn
      split at h
      · cases h
      · rename_i m hm
        cases h
        rw [hm, Option.getD_some, Option.getD_some]
        by_cases hnc : n = cur.name
        · rw [if_pos ⟨hn, hnc⟩, hnc, AList.lookup_insert]
        · rw [if_neg fun h => hnc h.2, AList.lookup_insert_ne hnc]
    · rename_i hn
      cases h
      rw [if_neg fun h => hn h.1]

end Primitives

/-! ### The invariant -/

/-- The invariant of the name map over every run: the tree is sorted, the map is there when the
    tree is, an entry under a nonempty name is an item of that name, and each named item of the
    tree is the entry under its name. -/
structure NameInv (q : TransmitLimitedQueue) : Prop where
  sorted : (q.tq.getD []).Pairwise (·.Less ·)
  tm_isSome : q.tq.isSome → q.tm.isSome
  keys : ∀ n x, n ≠ "" → (q.tm.getD ∅).lookup n = some x → x.name = n
  names : ∀ x ∈ q.tq.getD [], x.name ≠ "" → (q.tm.getD ∅).lookup x.name = some x

namespace NameInv

variable {q q' : TransmitLimitedQueue}

/-- A queue with neither tree nor map: the new queue, and the queue after `Reset`. -/
theorem of_nil (htq : q.tq = none) (htm : q.tm = none) : q.NameInv where
  sorted := by rw [htq]; exact List.Pairwise.nil
  tm_isSome h := by rw [htq] at h; cases h
  keys n x _ hx := by rw [htm, Option.getD_none, AList.lookup_empty] at hx; cases hx
  names x hx := by rw [htq] at hx; cases hx

theorem zero (mult : Int) : (TransmitLimitedQueue.zero mult).NameInv := of_nil rfl rfl

/-- Two queued items of one nonempty name are one. -/
theorem name_inj (hq : q.NameInv) {x y : limitedBroadcast} (hx : x ∈ q.tq.getD [])
    (hy : y ∈ q.tq.getD []) (hname : y.name = x.name) (hn : x.name ≠ "") : y = x := by
  have hlx := hq.names x hx hn
  have hly := hq.names y hy (hname ▸ hn)
  rw [hname, hlx] at hly
  exact (Option.some.inj hly).symm

/-- Where the map has no entry under a nonempty name, no queued item has that name. -/
theorem fresh_of_lookup_none (hq : q.NameInv) {n : String} (hn : n ≠ "")
    (hlook : (q.tm.getD ∅).lookup n = none) : ∀ y ∈ q.tq.getD [], y.name ≠ n := by
  intro y hy hyn
  have hly := hq.names y hy (by rw [hyn]; exact hn)
  rw [hyn, hlook] at hly
  cases hly

/-- `deleteItem cur` keeps the invariant when the map gives `cur` for its name. -/
theorem deleteItem (hq : q.NameInv) {cur : limitedBroadcast}
    (hcur : cur.name ≠ "" → (q.tm.getD ∅).lookup cur.name = some cur)
    (h : q.deleteItem cur = .ok q') : q'.NameInv := by
  have hs := deleteItem_shrinks h
  refine ⟨hq.sorted.sublist hs.sublist, fun h' => ?_, ?_, ?_⟩
  · rw [hs.tm_isSome]
    exact hq.tm_isSome (by rw [← hs.tq_isSome]; exact h')
  · intro n x hn hx
    rw [lookup_deleteItem h] at hx
    split at hx
    · cases hx
    · exact hq.keys n x hn hx
  · intro x hx hn
    have hxt := hs.sublist.subset hx
    rw [lookup_deleteItem h]
    split
    · -- `x` has `cur`'s name, so it is `cur`, which the deletion removed
      rename_i hc
      have h1 := hq.names x hxt hn
      rw [hc.2, hcur hc.1] at h1
      obtain rfl := Option.some.inj h1
      rw [deleteItem_tq h, Option.getD_some,
        SortedSet.delete_eq_erase Less_isStrictWeakOrder hq.sorted hxt] at hx
      exact absurd hx (nodup_of_sorted hq.sorted).not_mem_erase
    · exact hq.names x hxt hn

/-- `addItem cur` keeps the invariant when no queued item has `cur`'s name. -/
theorem addItem (hq : q.NameInv) {cur : limitedBroadcast}
    (hfresh : cur.name ≠ "" → ∀ y ∈ q.tq.getD [], y.name ≠ cur.name)
    (h : q.addItem cur = .ok q') : q'.NameInv := by
  obtain ⟨-, hsome, htq, htm⟩ := addItem_eq_ok h
  have hsub : (SortedSet.replaceOrInsert limitedBroadcast.Less cur (q.tq.getD [])).Subperm
      (cur :: q.tq.getD []) :=
    SortedSet.replaceOrInsert_subperm cur _
  refine ⟨?_, fun _ => htm (hq.tm_isSome hsome), ?_, ?_⟩
  · rw [htq, Option.getD_some]
    exact SortedSet.pairwise_replaceOrInsert Less_isStrictWeakOrder hq.sorted
  · intro n x hn hx
    rw [lookup_addItem h] at hx
    split at hx
    · rename_i hc
      cases hx
      exact hc.2.symm
    · exact hq.keys n x hn hx
  · intro x hx hn
    rw [htq, Option.getD_some] at hx
    rw [lookup_addItem h]
    rcases List.mem_cons.mp (hsub.subset hx) with rfl | hx
    · rw [if_pos ⟨hn, rfl⟩]
    · split
      · -- an old item with the new item's name: there is none
        rename_i hc
        exact absurd hc.2 (hfresh hc.1 x hx)
      · exact hq.names x hx hn

/-- `deleteAll` of distinct items, each the entry under its name, keeps the invariant. -/
theorem deleteAll : ∀ {q q' : TransmitLimitedQueue} {P : List limitedBroadcast}, q.NameInv →
    P.Nodup → (∀ cur ∈ P, cur.name ≠ "" → (q.tm.getD ∅).lookup cur.name = some cur) →
    q.deleteAll P = .ok q' → q'.NameInv
  | q, q', [], hq, _, _, h => by
    rw [TransmitLimitedQueue.deleteAll] at h
    cases h
    exact hq
  | q, q', cur :: P, hq, hnd, hP, h => by
    rw [TransmitLimitedQueue.deleteAll] at h
    obtain ⟨q₁, h₁, h⟩ := bind_eq_ok.mp h
    refine deleteAll (hq.deleteItem (hP cur List.mem_cons_self) h₁) (List.nodup_cons.mp hnd).2
      (fun c hc hcn => ?_) h
    -- the later items keep their entries: none of them has `cur`'s name
    have hlc := hP c (List.mem_cons_of_mem cur hc) hcn
    rw [lookup_deleteItem h₁, if_neg]
    · exact hlc
    · rintro ⟨hn, hcc⟩
      rw [hcc, hP cur List.mem_cons_self hn] at hlc
      exact (List.nodup_cons.mp hnd).1 (Option.some.inj hlc ▸ hc)

/-- Deleting the items of the tree that a test picks keeps the invariant: the branch of
    `queueBroadcast` for the empty name. -/
theorem deleteAll_plain (hq : q.NameInv) {p : limitedBroadcast → Bool}
    (hdel : q.deleteAll ((q.tq.getD []).filter p) = .ok q') : q'.NameInv :=
  hq.deleteAll ((nodup_of_sorted hq.sorted).filter p)
    (fun cur hcur => hq.names cur (List.mem_of_mem_filter hcur)) hdel

/-- What `queueBroadcast` does, under the invariant: it adds an unsent item of `b`, under `b`'s
    name, to a queue that keeps the invariant and, for a nonempty name, holds no item of it.
    For a nonempty name the entry under the name is deleted first; otherwise the plain items
    the broadcast invalidates are, or none. -/
theorem queueBroadcast_adds (hq : q.NameInv) {invalidates : Broadcast → Broadcast → Bool}
    {b : Broadcast} {initialTransmits : Int} {finished : List Broadcast}
    (h : q.queueBroadcast invalidates b initialTransmits = .ok (q', finished)) :
    ∃ (q₁ : TransmitLimitedQueue) (lb : limitedBroadcast), q₁.NameInv ∧ lb.b = b ∧
      lb.transmits = initialTransmits ∧
      (∀ n, b.kind = .named n → lb.name = n) ∧
      (lb.name ≠ "" → ∀ y ∈ q₁.tq.getD [], y.name ≠ lb.name) ∧ q₁.addItem lb = .ok q' := by
  -- `lazyInit` and the new id change neither the tree nor the entries of the map
  have hinit : ∀ id, NameInv { q.lazyInit with idGen := id } :=
    fun _ => ⟨hq.sorted, fun _ => rfl, hq.keys, hq.names⟩
  unfold TransmitLimitedQueue.queueBroadcast at h
  dsimp only [pure, Except.pure] at h
  split at h
  · -- a named broadcast: the item takes its name
    rename_i n hkind
    have hname : ∀ n', b.kind = .named n' → n = n' := fun n' h' => by
      rw [hkind] at h'
      cases h'
      rfl
    split at h
    · split at h
      · -- the entry under the name is deleted first, after which no queued item has the name
        rename_i hn _ old hold
        simp only [bind_eq_ok] at h
        obtain ⟨q₁, hdel, _, ⟨⟩, q₂, hadd, ⟨⟩⟩ := h
        have hlook : (q.tm.getD ∅).lookup n = some old := hold
        have hold_name : old.name = n := hq.keys n old hn hlook
        have hq₁ := (hinit _).deleteItem (fun _ => by rw [hold_name]; exact hlook) hdel
        have hnone : (q₁.tm.getD ∅).lookup n = none := by
          rw [lookup_deleteItem hdel, if_pos ⟨by rw [hold_name]; exact hn, hold_name.symm⟩]
        exact ⟨q₁, _, hq₁, rfl, rfl, hname, fun _ => hq₁.fresh_of_lookup_none hn hnone, hadd⟩
      · -- no entry under the name: no queued item has it
        rename_i hn _ hnone
        simp only [bind_eq_ok] at h
        obtain ⟨_, ⟨⟩, q₂, hadd, ⟨⟩⟩ := h
        have hlook : (q.tm.getD ∅).lookup n = none := hnone
        exact ⟨_, _, hinit _, rfl, rfl, hname, fun _ => hq.fresh_of_lookup_none hn hlook, hadd⟩
    · -- the empty name: the plain items the broadcast invalidates are deleted, or none
      rename_i hn
      split at h
      · simp only [bind_eq_ok] at h
        obtain ⟨q₁, hdel, _, ⟨⟩, q₂, hadd, ⟨⟩⟩ := h
        exact ⟨q₁, _, (hinit _).deleteAll_plain hdel, rfl, rfl, hname, fun h' => absurd h' hn,
          hadd⟩
      · simp only [bind_eq_ok] at h
        obtain ⟨_, ⟨⟩, q₂, hadd, ⟨⟩⟩ := h
        exact ⟨_, _, hinit _, rfl, rfl, hname, fun h' => absurd h' hn, hadd⟩
  · -- a broadcast without a name has the empty name
    rename_i hnamed
    have hname : ∀ n', b.kind = .named n' → "" = n' := fun n' h' => absurd h' (hnamed n')
    split at h
    · exact absurd rfl ‹"" ≠ ""›
    · rename_i hn
      split at h
      · simp only [bind_eq_ok] at h
        obtain ⟨q₁, hdel, _, ⟨⟩, q₂, hadd, ⟨⟩⟩ := h
        exact ⟨q₁, _, (hinit _).deleteAll_plain hdel, rfl, rfl, hname, fun h' => absurd h' hn,
          hadd⟩
      · simp only [bind_eq_ok] at h
        obtain ⟨_, ⟨⟩, q₂, hadd, ⟨⟩⟩ := h
        exact ⟨_, _, hinit _, rfl, rfl, hname, fun h' => absurd h' hn, hadd⟩

/-- `queueBroadcast` keeps the invariant. -/
theorem queueBroadcast (hq : q.NameInv) {invalidates : Broadcast → Broadcast → Bool}
    {b : Broadcast} {initialTransmits : Int} {finished : List Broadcast}
    (h : q.queueBroadcast invalidates b initialTransmits = .ok (q', finished)) : q'.NameInv := by
  obtain ⟨q₁, lb, hq₁, -, -, -, hfresh, hadd⟩ := hq.queueBroadcast_adds h
  exact hq₁.addItem hfresh hadd

/-- `sendTaken` of distinct items of the tree keeps the invariant: an item re-inserted a tier up
    is the last entered under its name, and an item left keeps its entry, since no item taken
    has its name. -/
theorem sendTaken (hq : q.NameInv) {t P : List limitedBroadcast} (ht : q.tq = some t)
    (hP : P.Subperm t) (transmitLimit : Int) {msgs : List (List UInt8)} {finished : List Broadcast}
    (h : q.sendTaken transmitLimit P = .ok (q', msgs, finished)) : q'.NameInv := by
  obtain ⟨m, hm⟩ : ∃ m, q.tm = some m :=
    Option.isSome_iff_exists.mp (hq.tm_isSome (by rw [ht]; rfl))
  have hs : t.Pairwise (·.Less ·) := by
    have := hq.sorted
    rwa [ht, Option.getD_some] at this
  have hkeys : ∀ n x, n ≠ "" → m.lookup n = some x → x.name = n := by
    have := hq.keys
    rwa [hm, Option.getD_some] at this
  have hnames : ∀ x ∈ t, x.name ≠ "" → m.lookup x.name = some x := by
    have := hq.names
    rwa [ht, hm, Option.getD_some, Option.getD_some] at this
  have hinj : ∀ x ∈ t, ∀ y ∈ t, y.name = x.name → x.name ≠ "" → y = x :=
    fun x hx y hy => hq.name_inj (by rw [ht]; exact hx) (by rw [ht]; exact hy)
  rw [sendTaken_eq ht hm hs transmitLimit hP] at h
  cases h
  set R := P.filter fun x => !reachesLimit transmitLimit x with hR
  have hsub : ((R.map bump).foldl (fun t x => SortedSet.replaceOrInsert limitedBroadcast.Less x t)
      (t.diff P)).Subperm (R.map bump ++ t.diff P) :=
    SortedSet.foldl_replaceOrInsert_subperm _ _
  refine ⟨?_, fun _ => rfl, ?_, ?_⟩
  · exact SortedSet.pairwise_foldl_replaceOrInsert Less_isStrictWeakOrder
      (hs.sublist (List.diff_sublist t P))
  · intro n x hn hx
    rw [Option.getD_some, lookup_insertNames hn, lookup_eraseNames hn] at hx
    cases hlast : ((R.map bump).filter (·.name = n)).getLast? with
    | some y =>
      -- the entry is the last item re-inserted under the name
      rw [hlast, Option.some_or] at hx
      cases hx
      exact of_decide_eq_true (List.mem_filter.mp (List.mem_of_getLast? hlast)).2
    | none =>
      rw [hlast, Option.none_or] at hx
      split at hx
      · cases hx
      · exact hkeys n x hn hx
  · intro x hx hn
    rw [Option.getD_some] at hx ⊢
    rw [lookup_insertNames hn, lookup_eraseNames hn]
    rcases List.mem_append.mp (hsub.subset hx) with hxB | hxl
    · -- a re-inserted item: the last entered under its name
      obtain ⟨p, hpR, rfl⟩ := List.mem_map.mp hxB
      have hpt : p ∈ t := hP.subset (List.mem_of_mem_filter hpR)
      rw [bump_name] at hn ⊢
      rw [getLast?_filter_name_bump hpR rfl fun p' hp'R hp'n =>
        hinj p hpt p' (hP.subset (List.mem_of_mem_filter hp'R)) hp'n hn, Option.some_or]
    · -- an item left: no item taken has its name
      obtain ⟨hxt, hxP⟩ := (nodup_of_sorted hs).mem_sdiff_iff.mp hxl
      have hnot : ∀ p ∈ P, p.name ≠ x.name := fun p hp hpn =>
        hxP (hinj x hxt p (hP.subset hp) hpn hn ▸ hp)
      have hB : (R.map bump).filter (·.name = x.name) = [] := by
        refine List.filter_eq_nil_iff.mpr fun y hy hyn => ?_
        obtain ⟨p, hpR, rfl⟩ := List.mem_map.mp hy
        exact hnot p (List.mem_of_mem_filter hpR) (of_decide_eq_true hyn)
      have hnP : x.name ∉ P.map (·.name) := fun hmem => by
        obtain ⟨p, hp, hpn⟩ := List.mem_map.mp hmem
        exact hnot p hp hpn
      rw [hB, List.getLast?_nil, Option.none_or, if_neg hnP]
      exact hnames x hxt hn

/-- `GetBroadcasts` keeps the invariant, with any `NumNodes()`. -/
theorem getBroadcasts (hq : q.NameInv) {overhead limit : Int} {numNodes : Nat}
    {msgs : List (List UInt8)} {finished : List Broadcast}
    (h : q.GetBroadcasts overhead limit numNodes = .ok (q', msgs, finished)) : q'.NameInv := by
  rw [GetBroadcasts_eq] at h
  cases ht : q.tq with
  | none =>
    -- the nil tree: nothing is taken
    have hP : q.taken overhead limit = [] := by
      rw [taken, if_pos (by rw [lenLocked_eq, ht]; rfl)]
    rw [hP, sendTaken_nil] at h
    cases h
    exact hq
  | some t =>
    have hP : (q.taken overhead limit).Subperm t := by
      have := taken_subperm hq.sorted overhead limit
      rwa [ht, Option.getD_some] at this
    exact hq.sendTaken ht hP _ h

/-- The loop of `Prune` keeps the invariant: it deletes the greatest item, which the map gives
    for its name. -/
theorem pruneLoop (maxRetain : Int) : ∀ (fuel : Nat) {q q' : TransmitLimitedQueue}
    {finished finished' : List Broadcast}, q.NameInv →
    TransmitLimitedQueue.pruneLoop maxRetain fuel q finished = .ok (q', finished') → q'.NameInv
  | 0, q, q', _, _, hq, h => by
    rw [TransmitLimitedQueue.pruneLoop] at h
    cases h
    exact hq
  | fuel + 1, q, q', _, _, hq, h => by
    rw [TransmitLimitedQueue.pruneLoop] at h
    split at h
    · cases h
    · rename_i t ht
      split at h
      · split at h
        · cases h
          exact hq
        · rename_i cur hcur
          obtain ⟨q₁, h₁, h⟩ := bind_eq_ok.mp h
          have hmem : cur ∈ q.tq.getD [] := by
            rw [ht]
            exact List.mem_of_getLast? hcur
          exact pruneLoop maxRetain fuel (hq.deleteItem (hq.names cur hmem) h₁) h
      · cases h
        exact hq

theorem prune (hq : q.NameInv) {maxRetain : Int} {finished : List Broadcast}
    (h : q.Prune maxRetain = .ok (q', finished)) : q'.NameInv :=
  hq.pruneLoop maxRetain _ h

/-- **The step.**  Every call of the API keeps the invariant. -/
theorem apply (hq : q.NameInv) {invalidates : Broadcast → Broadcast → Bool} {op : QueueOp}
    {finished : List Broadcast} (h : op.apply invalidates q = .ok (q', finished)) : q'.NameInv := by
  cases op with
  | QueueBroadcast b => exact hq.queueBroadcast h
  | GetBroadcasts overhead limit numNodes =>
    obtain ⟨⟨q₁, msgs, fin⟩, hget, hpure⟩ := bind_eq_ok.mp h
    cases hpure
    exact hq.getBroadcasts hget
  | Prune maxRetain => exact hq.prune h
  | Reset =>
    cases h
    exact of_nil rfl rfl

/-- A run that does not panic keeps the invariant. -/
theorem runQueue (hq : q.NameInv) (invalidates : Broadcast → Broadcast → Bool)
    {ops : List QueueOp} {finished : List Broadcast}
    (h : memberlist.runQueue invalidates q ops = .ok (q', finished)) : q'.NameInv := by
  rw [runQueue_eq_run] at h
  exact Run.run_inv NameInv (fun _ _ _ _ hs hstep => hs.apply hstep) hq h

end NameInv

end TransmitLimitedQueue

/-- **One queued item per name.**  Over every run of the queue's API from a new queue (any calls,
    any `Invalidates`, any `NumNodes()`, and also where ids collide), each named item of the
    tree is the map's entry under its name, and no other queued item has that name. -/
theorem runQueue_names_unique (invalidates : Broadcast → Broadcast → Bool) (mult : Int)
    (ops : List QueueOp) {q : TransmitLimitedQueue} {finished : List Broadcast}
    (h : runQueue invalidates (TransmitLimitedQueue.zero mult) ops = .ok (q, finished)) :
    ∀ x ∈ q.tq.getD [], x.name ≠ "" →
      (q.tm.getD ∅).lookup x.name = some x ∧ ∀ y ∈ q.tq.getD [], y.name = x.name → y = x := by
  have hq := (TransmitLimitedQueue.NameInv.zero mult).runQueue invalidates h
  intro x hx hn
  exact ⟨hq.names x hx hn, fun y hy hyn => hq.name_inj hx hy hyn hn⟩

/-- A one-byte broadcast about the node "a". -/
def namedA : Broadcast := { ident := 1, Message := [120], kind := .named "a" }

/-- A one-byte broadcast about the node "b". -/
def namedB : Broadcast := { ident := 2, Message := [121], kind := .named "b" }

/-- `idReuseRun` with named broadcasts: the re-insertion of the item of "b" lands on the key of
    the item of "a" and drops it, while the map keeps the entry under "a". -/
def namedReuseRun : List QueueOp :=
  [.QueueBroadcast namedA, .GetBroadcasts 0 1 1, .QueueBroadcast namedB, .GetBroadcasts 0 1 1]

theorem runQueue_names_unique_reuse :
    ∃ q finished, runQueue (fun _ _ => false) (TransmitLimitedQueue.zero 2) namedReuseRun =
        .ok (q, finished) ∧
      (q.tq.getD []).map (·.name) = ["b"] ∧ ((q.tm.getD ∅).lookup "a").isSome ∧
      ∀ x ∈ q.tq.getD [], x.name ≠ "" →
        (q.tm.getD ∅).lookup x.name = some x ∧ ∀ y ∈ q.tq.getD [], y.name = x.name → y = x :=
  ⟨_, _, rfl, rfl, rfl, runQueue_names_unique (fun _ _ => false) 2 namedReuseRun rfl⟩

/-- **A named broadcast replaces the queued one of its name.**  In every state a run from a new
    queue reaches, queueing a broadcast with a nonempty name leaves an unsent item of it in the
    tree, and no other queued item has that name. -/
theorem queueBroadcast_named_replaces (invalidates : Broadcast → Broadcast → Bool) (mult : Int)
    (ops : List QueueOp) {q : TransmitLimitedQueue} {fin : List Broadcast}
    (hrun : runQueue invalidates (TransmitLimitedQueue.zero mult) ops = .ok (q, fin))
    {b : Broadcast} {n : String} (hb : b.kind = .named n) (hn : n ≠ "")
    {q' : TransmitLimitedQueue} {finished : List Broadcast}
    (h : q.QueueBroadcast invalidates b = .ok (q', finished)) :
    ∃ y ∈ q'.tq.getD [], y.b = b ∧ y.transmits = 0 ∧ ∀ z ∈ q'.tq.getD [], z.name = n → z = y := by
  have hq := (TransmitLimitedQueue.NameInv.zero mult).runQueue invalidates hrun
  obtain ⟨q₁, lb, -, hlb, htr, hname, hfresh, hadd⟩ := hq.queueBroadcast_adds h
  obtain ⟨-, -, htq, -⟩ := TransmitLimitedQueue.addItem_eq_ok hadd
  have hlbn : lb.name = n := hname n hb
  have hsub : (SortedSet.replaceOrInsert limitedBroadcast.Less lb (q₁.tq.getD [])).Subperm
      (lb :: q₁.tq.getD []) :=
    SortedSet.replaceOrInsert_subperm lb _
  refine ⟨lb, ?_, hlb, htr, fun z hz hzn => ?_⟩
  · rw [htq, Option.getD_some]
    exact SortedSet.mem_replaceOrInsert lb _
  · rw [htq, Option.getD_some] at hz
    rcases List.mem_cons.mp (hsub.subset hz) with rfl | hz
    · rfl
    · -- the queue the item went into held no item of the name
      exact absurd (hzn.trans hlbn.symm) (hfresh (by rw [hlbn]; exact hn) z hz)

/-- A second one-byte broadcast about the node "b". -/
def namedBAgain : Broadcast := { ident := 3, Message := [122], kind := .named "b" }

theorem queueBroadcast_named_replaces_reuse :
    ∃ q fin q' finished,
      runQueue (fun _ _ => false) (TransmitLimitedQueue.zero 2) namedReuseRun = .ok (q, fin) ∧
      q.QueueBroadcast (fun _ _ => false) namedBAgain = .ok (q', finished) ∧
      finished = [namedB] ∧
      ∃ y ∈ q'.tq.getD [], y.b = namedBAgain ∧ y.transmits = 0 ∧
        ∀ z ∈ q'.tq.getD [], z.name = "b" → z = y :=
  ⟨_, _, _, _, rfl, rfl, rfl,
    @queueBroadcast_named_replaces (fun _ _ => false) 2 namedReuseRun _ _ rfl namedBAgain "b" rfl
      (by decide) _ _ rfl⟩

end memberlist
