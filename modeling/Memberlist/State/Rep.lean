import Memberlist.State.Spec

/-!
# The representation invariant of the member list

`nodes` (the slice probing and gossip walk), `nodeMap` (the lookup by name) and `numNodes` (the
size estimate) describe one set of records.  `Rep` says how:

* `nodes` holds no record twice, and each of its records is the one `nodeMap` holds under its
  name (`lookup_name`); each record `nodeMap` holds is in `nodes` (`mem_nodes`) under its own
  name (`name_eq`);
* `numNodes` is `uint32(len(nodes))`;
* every record in `nodes` was allocated before `nextPtr`, so a fresh record is new.

From these, no two records of `nodes` share a name (`Rep.names_nodup`) and `nodeMap` has as
many keys as `nodes` has records (`Rep.length_keys`).

`SameShape m m'` is what most handlers do: the list, the map, the count and the allocator stay,
and every record keeps its name.  `Rep` survives it (`Rep.sameShape`), the insertion of a new
record (`Rep.insertNode`), and the reaping of `resetNodes` (`Rep.resetNodes`).
-/

namespace memberlist

open Go

/-- The representation invariant. -/
structure Rep (m : Memberlist) : Prop where
  nodup : m.nodes.Nodup
  lookup_name : ∀ p ∈ m.nodes, m.nodeMap.lookup (m.heap p).Node.Name = some p
  mem_nodes : ∀ k p, m.nodeMap.lookup k = some p → p ∈ m.nodes
  name_eq : ∀ k p, m.nodeMap.lookup k = some p → (m.heap p).Node.Name = k
  numNodes : m.numNodes = UInt32.ofNat m.nodes.length
  lt_nextPtr : ∀ p ∈ m.nodes, p < m.nextPtr

namespace Rep

variable {m : Memberlist}

/-- A record of `nodeMap` is in `nodes` under its name, and conversely. -/
theorem lookup_iff (h : Rep m) (k : String) (p : Ptr) :
    m.nodeMap.lookup k = some p ↔ p ∈ m.nodes ∧ (m.heap p).Node.Name = k := by
  constructor
  · intro hk
    exact ⟨h.mem_nodes k p hk, h.name_eq k p hk⟩
  · rintro ⟨hp, rfl⟩
    exact h.lookup_name p hp

/-- Two records of `nodes` with one name are the same record. -/
theorem eq_of_name_eq (h : Rep m) {p q : Ptr} (hp : p ∈ m.nodes) (hq : q ∈ m.nodes)
    (hname : (m.heap p).Node.Name = (m.heap q).Node.Name) : p = q := by
  have h₁ := h.lookup_name p hp
  rw [hname, h.lookup_name q hq] at h₁
  exact (Option.some.inj h₁).symm

/-- No two records of `nodes` share a name. -/
theorem names_nodup (h : Rep m) : (m.nodes.map fun p => (m.heap p).Node.Name).Nodup :=
  h.nodup.map_on fun _ hp _ hq hname => h.eq_of_name_eq hp hq hname

/-- The keys of `nodeMap` are the names of `nodes`. -/
theorem keys_perm (h : Rep m) :
    m.nodeMap.keys.Perm (m.nodes.map fun p => (m.heap p).Node.Name) := by
  apply (List.perm_ext_iff_of_nodup m.nodeMap.keys_nodup h.names_nodup).mpr
  intro k
  rw [← AList.mem_keys, ← AList.lookup_isSome, List.mem_map]
  constructor
  · intro hk
    obtain ⟨p, hp⟩ := Option.isSome_iff_exists.mp hk
    exact ⟨p, h.mem_nodes k p hp, h.name_eq k p hp⟩
  · rintro ⟨p, hp, rfl⟩
    rw [h.lookup_name p hp]
    rfl

/-- `len(nodeMap) = len(nodes)`. -/
theorem length_keys (h : Rep m) : m.nodeMap.keys.length = m.nodes.length := by
  rw [h.keys_perm.length_eq, List.length_map]

end Rep

/-- The list, the map, the count and the allocator of `m` stay, and every record keeps its
    name. -/
structure SameShape (m m' : Memberlist) : Prop where
  nodes : m'.nodes = m.nodes
  nodeMap : m'.nodeMap = m.nodeMap
  numNodes : m'.numNodes = m.numNodes
  nextPtr : m'.nextPtr = m.nextPtr
  name : ∀ p, (m'.heap p).Node.Name = (m.heap p).Node.Name

namespace SameShape

@[refl] theorem refl (m : Memberlist) : SameShape m m := ⟨rfl, rfl, rfl, rfl, fun _ => rfl⟩

@[trans] theorem trans {m₁ m₂ m₃ : Memberlist} (h₁ : SameShape m₁ m₂) (h₂ : SameShape m₂ m₃) :
    SameShape m₁ m₃ :=
  ⟨h₂.nodes.trans h₁.nodes, h₂.nodeMap.trans h₁.nodeMap, h₂.numNodes.trans h₁.numNodes,
    h₂.nextPtr.trans h₁.nextPtr, fun p => (h₂.name p).trans (h₁.name p)⟩

/-- A state that agrees with `m` on every field `SameShape` looks at. -/
theorem of_eq {m m' : Memberlist} (hn : m'.nodes = m.nodes) (hm : m'.nodeMap = m.nodeMap)
    (hc : m'.numNodes = m.numNodes) (hp : m'.nextPtr = m.nextPtr) (hh : m'.heap = m.heap) :
    SameShape m m' :=
  ⟨hn, hm, hc, hp, fun p => by rw [hh]⟩

end SameShape

/-- `Rep` looks only at what `SameShape` keeps. -/
theorem Rep.sameShape {m m' : Memberlist} (h : Rep m) (hs : SameShape m m') : Rep m' where
  nodup := hs.nodes ▸ h.nodup
  lookup_name p hp := by
    rw [hs.nodes] at hp
    rw [hs.nodeMap, hs.name]
    exact h.lookup_name p hp
  mem_nodes k p hk := by
    rw [hs.nodeMap] at hk
    rw [hs.nodes]
    exact h.mem_nodes k p hk
  name_eq k p hk := by
    rw [hs.nodeMap] at hk
    rw [hs.name]
    exact h.name_eq k p hk
  numNodes := by rw [hs.numNodes, hs.nodes]; exact h.numNodes
  lt_nextPtr p hp := by
    rw [hs.nodes] at hp
    rw [hs.nextPtr]
    exact h.lt_nextPtr p hp

namespace Memberlist

theorem setRecord_sameShape (m : Memberlist) (p : Ptr) (st : nodeState)
    (hname : st.Node.Name = (m.heap p).Node.Name) : SameShape m (m.setRecord p st) := by
  refine ⟨rfl, rfl, rfl, rfl, fun q => ?_⟩
  by_cases hq : q = p
  · subst hq
    simp [hname]
  · simp [Function.update_of_ne hq]

theorem refute_sameShape (m : Memberlist) (p : Ptr) (i : UInt32) :
    SameShape m (m.refute p i).1 := by
  refine ⟨rfl, rfl, rfl, rfl, fun q => ?_⟩
  by_cases hq : q = p
  · subst hq
    simp
  · simp [Function.update_of_ne hq]

end Memberlist

/-- A record for a new name keeps `Rep`. -/
theorem Rep.insertNode {m m' : Memberlist} {name : String} {st : nodeState} {r : UInt32}
    {p : Ptr} (h : Rep m) (hnew : m.nodeMap.lookup name = none) (hname : st.Node.Name = name)
    (hins : m.insertNode name st r = .ok (m', p)) : Rep m' := by
  obtain ⟨rfl, offset, -, rfl⟩ := Memberlist.insertNode_eq hins
  -- the new slice is the old one with the fresh pointer added
  have hperm : ((m.nodes ++ [m.nextPtr]).swap offset m.nodes.length).Perm
      (m.nodes ++ [m.nextPtr]) := List.swap_perm _ _ _
  have hfresh : m.nextPtr ∉ m.nodes := fun hp => Nat.lt_irrefl _ (h.lt_nextPtr _ hp)
  have hmem : ∀ q, q ∈ (m.nodes ++ [m.nextPtr]).swap offset m.nodes.length ↔
      q ∈ m.nodes ∨ q = m.nextPtr := by
    intro q
    rw [hperm.mem_iff]
    simp
  -- an old record's name is not the new one
  have hold : ∀ q ∈ m.nodes, (m.heap q).Node.Name ≠ name := by
    intro q hq heq
    rw [← heq, h.lookup_name q hq] at hnew
    cases hnew
  have hne : ∀ q ∈ m.nodes, q ≠ m.nextPtr := fun q hq heq => hfresh (heq ▸ hq)
  refine ⟨?_, ?_, ?_, ?_, ?_, ?_⟩ <;> dsimp only
  · refine hperm.nodup_iff.mpr (List.nodup_append.mpr ⟨h.nodup, List.nodup_singleton _, ?_⟩)
    intro q hq q' hq'
    rw [List.mem_singleton] at hq'
    exact hq' ▸ hne q hq
  · intro q hq
    rcases (hmem q).mp hq with hq | rfl
    · rw [Function.update_of_ne (hne q hq), AList.lookup_insert_ne (hold q hq)]
      exact h.lookup_name q hq
    · rw [Function.update_self, hname, AList.lookup_insert]
  · intro k q hk
    rw [hmem]
    by_cases hkn : k = name
    · subst hkn
      rw [AList.lookup_insert] at hk
      exact .inr (Option.some.inj hk).symm
    · rw [AList.lookup_insert_ne hkn] at hk
      exact .inl (h.mem_nodes k q hk)
  · intro k q hk
    by_cases hkn : k = name
    · subst hkn
      rw [AList.lookup_insert] at hk
      cases hk
      simp [hname]
    · rw [AList.lookup_insert_ne hkn] at hk
      have hq := h.mem_nodes k q hk
      rw [Function.update_of_ne (hne q hq)]
      exact h.name_eq k q hk
  · simp only [hperm.length_eq, List.length_append, List.length_singleton, h.numNodes,
      UInt32.ofNat_add]
    rfl
  · intro q hq
    rcases (hmem q).mp hq with hq | rfl
    · exact Nat.lt_succ_of_lt (h.lt_nextPtr q hq)
    · exact Nat.lt_succ_self _



section Reset

variable (cfg : Config) (env : Env) {m : Memberlist}

/-- `resetNodes` keeps `Rep`: the records it reaps leave `nodes` and `nodeMap` together, and
    `numNodes` is set to what is left. -/
theorem Rep.resetNodes (h : Rep m) : Rep (m.resetNodes cfg env) := by
  set r := moveDeadNodes m.heap cfg.GossipToTheDeadTime env.now m.nodes with hr
  have hperm : r.1.Perm m.nodes := moveDeadNodes_perm _ _ _ _
  have hle : r.2 ≤ r.1.length := by
    rw [hperm.length_eq]
    exact moveDeadNodes_le _ _ _ _
  have hsplit : r.1.take r.2 ++ r.1.drop r.2 = r.1 := List.take_append_drop _ _
  have hnodup : (r.1.take r.2 ++ r.1.drop r.2).Nodup := by
    rw [hsplit]
    exact hperm.nodup_iff.mpr h.nodup
  have hmemL : ∀ q, q ∈ r.1 ↔ q ∈ m.nodes := fun q => hperm.mem_iff
  have hshuffle := shuffleNodes_perm (r.1.take r.2) env.shuffle
  -- a kept record's name is no reaped record's name
  have hkept : ∀ q ∈ r.1.take r.2, (m.heap q).Node.Name ∉ (r.1.drop r.2).map
      fun p => (m.heap p).Node.Name := by
    intro q hq hmem
    obtain ⟨q', hq', hname⟩ := List.mem_map.mp hmem
    have hqL : q ∈ r.1 := List.mem_of_mem_take hq
    have hq'L : q' ∈ r.1 := List.mem_of_mem_drop hq'
    have heq : q' = q := h.eq_of_name_eq ((hmemL q').mp hq'L) ((hmemL q).mp hqL) hname
    exact List.disjoint_of_nodup_append hnodup hq (heq ▸ hq')
  have hlookup : ∀ k, (m.resetNodes cfg env).nodeMap.lookup k =
      if k ∈ (r.1.drop r.2).map (fun p => (m.heap p).Node.Name) then none
      else m.nodeMap.lookup k := Memberlist.resetNodes_nodeMap_lookup cfg m env
  have hmem : ∀ q, q ∈ (m.resetNodes cfg env).nodes ↔ q ∈ r.1.take r.2 := fun q =>
    hshuffle.mem_iff
  refine ⟨?_, ?_, ?_, ?_, ?_, ?_⟩
  · exact hshuffle.nodup_iff.mpr (List.Nodup.of_append_left hnodup)
  · intro q hq
    have hq := (hmem q).mp hq
    rw [hlookup, Memberlist.resetNodes_heap, if_neg (hkept q hq)]
    exact h.lookup_name q ((hmemL q).mp (List.mem_of_mem_take hq))
  · intro k q hk
    rw [hlookup] at hk
    split at hk
    · cases hk
    rename_i hk'
    rw [hmem]
    have hqL : q ∈ r.1 := (hmemL q).mpr (h.mem_nodes k q hk)
    rw [← hsplit] at hqL
    rcases List.mem_append.mp hqL with hq | hq
    · exact hq
    · exact absurd (List.mem_map.mpr ⟨q, hq, h.name_eq k q hk⟩) hk'
  · intro k q hk
    rw [hlookup] at hk
    split at hk
    · cases hk
    · rw [Memberlist.resetNodes_heap]
      exact h.name_eq k q hk
  · show UInt32.ofNat r.2 = UInt32.ofNat (shuffleNodes (r.1.take r.2) env.shuffle).length
    rw [hshuffle.length_eq, List.length_take, Nat.min_eq_left hle]
  · intro q hq
    exact h.lt_nextPtr q ((hmemL q).mp (List.mem_of_mem_take ((hmem q).mp hq)))

end Reset

/-! ### Every step keeps `Rep` -/

/-- The record `aliveNode` creates for an unknown node: under the message's name, Dead, at
    incarnation 0. -/
theorem newRecord_name (a : alive) : (newRecord a).Node.Name = a.Node := by
  unfold newRecord
  split <;> rfl

theorem newRecord_state (a : alive) : (newRecord a).State = StateDead := by
  unfold newRecord
  split <;> rfl

theorem newRecord_incarnation (a : alive) : (newRecord a).Incarnation = 0 := by
  unfold newRecord
  split <;> rfl

namespace Memberlist

variable {cfg : Config} {env : Env} {m m' : Memberlist} {eff : List Effect}

theorem aliveUpdate_sameShape {now : Int} {a : alive} {notify : Option Notify} {bootstrap : Bool}
    {p : Ptr} {updatesNode : Bool}
    (h : m.aliveUpdate cfg now a notify bootstrap p updatesNode = .ok (m', eff)) :
    SameShape m m' := by
  have h₀ : SameShape m { m with nodeTimers := m.nodeTimers.erase a.Node } :=
    .of_eq rfl rfl rfl rfl rfl
  rcases aliveUpdate_cases h with ⟨rfl, -⟩ |
      ⟨-, -, ⟨-, -, ⟨rfl, -⟩ | ⟨rfl, -⟩⟩ | ⟨-, st, hst, rfl, -⟩⟩
  · exact .refl _
  · exact h₀
  · exact h₀.trans (refute_sameShape _ _ _)
  · exact h₀.trans (setRecord_sameShape _ _ _ (applyAlive_ok hst).1)

/-- `aliveNode` keeps the shape, or inserts a record for a new name and then keeps it. -/
theorem aliveNode_shape {a : alive} {notify : Option Notify} {bootstrap : Bool}
    (h : m.aliveNode cfg env a notify bootstrap = .ok (m', eff)) :
    SameShape m m' ∨ ∃ m₁ p, m.nodeMap.lookup a.Node = none ∧
      m.insertNode a.Node (newRecord a) env.rand = .ok (m₁, p) ∧ SameShape m₁ m' := by
  rcases aliveNode_cases h with ⟨rfl, -⟩ |
      ⟨-, ⟨hnone, -, m₁, p, hins, hup⟩ | ⟨p, -, -, -, hup⟩ | ⟨p, -, -, -, -, hup⟩⟩
  · exact .inl (.refl _)
  · exact .inr ⟨m₁, p, hnone, hins, aliveUpdate_sameShape hup⟩
  · exact .inl (aliveUpdate_sameShape hup)
  · exact .inl (aliveUpdate_sameShape hup)

theorem suspectNode_sameShape {now : Int} {s : suspect} (h : m.suspectNode cfg now s = (m', eff)) :
    SameShape m m' := by
  rcases suspectNode_cases h with ⟨rfl, -⟩ |
      ⟨p, -, -, ⟨t, -, rfl, -⟩ | ⟨-, -, ⟨-, hr⟩ | ⟨-, k, rfl, -⟩⟩⟩
  · exact .refl _
  · exact .of_eq rfl rfl rfl rfl rfl
  · rw [show m' = (m.refute p s.Incarnation).1 by rw [← hr]]
    exact refute_sameShape _ _ _
  · exact (setRecord_sameShape m p
      { m.heap p with Incarnation := s.Incarnation, State := StateSuspect, StateChange := now }
      rfl).trans (.of_eq rfl rfl rfl rfl rfl)

theorem deadNode_sameShape {now : Int} {d : dead} (h : m.deadNode cfg now d = (m', eff)) :
    SameShape m m' := by
  have h₀ : SameShape m { m with nodeTimers := m.nodeTimers.erase d.Node } :=
    .of_eq rfl rfl rfl rfl rfl
  rcases deadNode_cases h with ⟨rfl, -⟩ | ⟨p, -, -, ⟨-, rfl, -⟩ | ⟨-, -, -, hr⟩ | ⟨-, -, rfl, -⟩⟩
  · exact .refl _
  · exact h₀
  · rw [show m' = ({ m with nodeTimers := m.nodeTimers.erase d.Node }.refute p d.Incarnation).1
      by rw [← hr]]
    exact h₀.trans (refute_sameShape _ _ _)
  · exact h₀.trans (setRecord_sameShape _ _ _ rfl)

end Memberlist

section Steps

variable {cfg : Config} {env : Env} {m m' : Memberlist}

theorem Rep.admin (h : Rep m) (ha : Admin cfg m m') : Rep m' := by
  cases ha with
  | reset env => exact h.resetNodes cfg env
  | pending => exact h.sameShape (.of_eq rfl rfl rfl rfl rfl)
  | probeIndex => exact h.sameShape (.of_eq rfl rfl rfl rfl rfl)
  | awareness => exact h.sameShape (.of_eq rfl rfl rfl rfl rfl)
  | nextIncarnation => exact h.sameShape (.of_eq rfl rfl rfl rfl rfl)
  | leave => exact h.sameShape (.of_eq rfl rfl rfl rfl rfl)

theorem Rep.call (h : Rep m) (hc : Call cfg env m m') : Rep m' := by
  cases hc with
  | alive hal =>
    rcases Memberlist.aliveNode_shape hal with hs | ⟨m₁, p, hnone, hins, hs⟩
    · exact h.sameShape hs
    · exact (h.insertNode hnone (newRecord_name _) hins).sameShape hs
  | suspect hs => exact h.sameShape (Memberlist.suspectNode_sameShape hs)
  | dead hd => exact h.sameShape (Memberlist.deadNode_sameShape hd)

theorem Rep.admins (h : Rep m) (ha : Relation.ReflTransGen (Admin cfg) m m') : Rep m' := by
  induction ha with
  | refl => exact h
  | tail _ hstep ih => exact ih.admin hstep

/-- Every step keeps `Rep`. -/
theorem Rep.step {op : Op} {eff : List Effect} (h : Rep m)
    (hstep : m.step cfg env op = .ok (m', eff)) : Rep m' := by
  obtain ⟨m₁, m₂, h₁, hc, h₂⟩ := Memberlist.step_shape hstep
  have hm₁ := h.admins h₁
  have hm₂ : Rep m₂ := by
    rcases hc with rfl | hc
    · exact hm₁
    · exact hm₁.call hc
  exact hm₂.admins h₂

/-- **The invariant rule for steps.**  A property that bookkeeping and handler calls keep, from
    states where `Rep` holds, is kept (with `Rep`) by every step. -/
theorem Rep.stable (I : Memberlist → Prop)
    (hadmin : ∀ m m', Rep m → I m → Admin cfg m m' → I m')
    (hcall : ∀ env m m', Rep m → I m → Call cfg env m m' → I m') :
    Transition.Stable (Memberlist.Step cfg) (fun m => Rep m ∧ I m) := by
  have hadm : ∀ {a b}, Relation.ReflTransGen (Admin cfg) a b → Rep a ∧ I a → Rep b ∧ I b := by
    intro a b hab
    induction hab with
    | refl => exact id
    | tail _ hs ih =>
      intro hab
      obtain ⟨hr, hi⟩ := ih hab
      exact ⟨hr.admin hs, hadmin _ _ hr hi hs⟩
  intro m l m' ⟨hrep, hi⟩ hstep
  obtain ⟨m₁, m₂, h₁, hc, h₂⟩ := Memberlist.step_shape hstep
  obtain ⟨hr₁, hi₁⟩ := hadm h₁ ⟨hrep, hi⟩
  have h₂' : Rep m₂ ∧ I m₂ := by
    rcases hc with rfl | hc
    · exact ⟨hr₁, hi₁⟩
    · exact ⟨hr₁.call hc, hcall _ _ _ hr₁ hi₁ hc⟩
  exact hadm h₂ h₂'

theorem Rep.init (cfg : Config) : Rep (Memberlist.init cfg) where
  nodup := List.nodup_nil
  lookup_name _ hp := absurd hp List.not_mem_nil
  mem_nodes _ _ hk := by simp [Memberlist.init] at hk
  name_eq _ _ hk := by simp [Memberlist.init] at hk
  numNodes := rfl
  lt_nextPtr _ hp := absurd hp List.not_mem_nil

/-- `Rep` holds in every reachable state. -/
theorem Rep.reachable (h : Reachable cfg m) : Rep m :=
  Transition.Reach.induct Rep (fun _ hs => by cases hs; exact Rep.init cfg)
    (fun _ _ _ _ hrep hstep => hrep.step hstep) h

/-- An invariant that holds initially and is kept by bookkeeping and handler calls holds, with
    `Rep`, in every reachable state. -/
theorem Rep.reachable_and (I : Memberlist → Prop) (h₀ : I (Memberlist.init cfg))
    (hadmin : ∀ m m', Rep m → I m → Admin cfg m m' → I m')
    (hcall : ∀ env m m', Rep m → I m → Call cfg env m m' → I m') (h : Reachable cfg m) :
    Rep m ∧ I m :=
  Transition.Reach.induct (fun m => Rep m ∧ I m) (fun _ hs => by cases hs; exact ⟨Rep.init cfg, h₀⟩)
    (fun _ _ _ _ hi hstep => Rep.stable I hadmin hcall _ _ _ hi hstep) h

end Steps

/-- **The membership representation invariant.**  In every reachable state each entry of
    `nodes` is the record `nodeMap` holds under its name, no two entries share a name, every
    record of `nodeMap` is in `nodes`, and `numNodes` is the length of `nodes` (as a `uint32`),
    which is the number of keys of `nodeMap`. -/
theorem reachable_membership_consistent {cfg : Config} {m : Memberlist} (h : Reachable cfg m) :
    (∀ p ∈ m.nodes, m.nodeMap.lookup (m.heap p).Node.Name = some p) ∧
      (m.nodes.map fun p => (m.heap p).Node.Name).Nodup ∧
      (∀ k p, m.nodeMap.lookup k = some p → p ∈ m.nodes) ∧
      m.numNodes = UInt32.ofNat m.nodes.length ∧ m.nodeMap.keys.length = m.nodes.length := by
  have hrep := Rep.reachable h
  exact ⟨hrep.lookup_name, hrep.names_nodup, hrep.mem_nodes, hrep.numNodes, hrep.length_keys⟩

/-- After `setAlive` and alive messages about "b" and "c": three records, consistently indexed. -/
theorem reachable_membership_consistent_three :
    let cfg := DefaultLANConfig "a"
    ∃ r r₁ r₂,
      (Memberlist.init cfg).step cfg (Env.at 0) (.setAlive [10, 0, 0, 1] 7946 []) = .ok r ∧
      r.1.step cfg (Env.at 1) (.alive ⟨1, "b", [10, 0, 0, 2], 7946, [], [1, 5, 2, 0, 0, 0]⟩) =
        .ok r₁ ∧
      r₁.1.step cfg (Env.at 2) (.alive ⟨1, "c", [10, 0, 0, 3], 7946, [], [1, 5, 2, 0, 0, 0]⟩) =
        .ok r₂ ∧
      r₂.1.nodes.length = 3 ∧ Reachable cfg r₂.1 ∧
      (∀ p ∈ r₂.1.nodes, r₂.1.nodeMap.lookup (r₂.1.heap p).Node.Name = some p) ∧
      (r₂.1.nodes.map fun p => (r₂.1.heap p).Node.Name).Nodup ∧
      (∀ k p, r₂.1.nodeMap.lookup k = some p → p ∈ r₂.1.nodes) ∧
      r₂.1.numNodes = UInt32.ofNat r₂.1.nodes.length ∧
      r₂.1.nodeMap.keys.length = r₂.1.nodes.length := by
  intro cfg
  have h₀ : Reachable cfg (Memberlist.init cfg) := .base rfl
  have h₁ := Reachable.of_step (Env.at 0) (.setAlive [10, 0, 0, 1] 7946 []) h₀ rfl
  have h₂ := Reachable.of_step (Env.at 1)
    (.alive ⟨1, "b", [10, 0, 0, 2], 7946, [], [1, 5, 2, 0, 0, 0]⟩) h₁ rfl
  have h₃ := Reachable.of_step (Env.at 2)
    (.alive ⟨1, "c", [10, 0, 0, 3], 7946, [], [1, 5, 2, 0, 0, 0]⟩) h₂ rfl
  exact ⟨_, _, _, rfl, rfl, rfl, rfl, h₃, reachable_membership_consistent h₃⟩

end memberlist
