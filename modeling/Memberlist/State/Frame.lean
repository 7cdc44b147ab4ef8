import Memberlist.State.Rep

/-!
# What a handler leaves alone

A handler call acts on the name its message is about.  `Untouched X m m'` says that every
other name keeps its entry in `nodeMap`, its record and its suspicion timer, and that no record
leaves `nodes`; `aliveNode_untouched`, `suspectNode_untouched` and `deadNode_untouched` prove
it of the three handlers (from a state where `Rep` holds, since a record is found through its
name).  `Rep.resetNodes_keeps` is the same kind of fact for the reaping: a record that is not
reapable keeps its place.
-/

namespace memberlist

open Go

/-- The entries, records and timers of every name but `X` are as they were, and every record
    of `nodes` is still there. -/
structure Untouched (X : String) (m m' : Memberlist) : Prop where
  lookup : ∀ k, k ≠ X → m'.nodeMap.lookup k = m.nodeMap.lookup k
  heap : ∀ k q, k ≠ X → m.nodeMap.lookup k = some q → m'.heap q = m.heap q
  timer : ∀ k, k ≠ X → m'.nodeTimers.lookup k = m.nodeTimers.lookup k
  nodes : ∀ q ∈ m.nodes, q ∈ m'.nodes

namespace Memberlist

variable {cfg : Config} {env : Env} {m m' : Memberlist} {eff : List Effect}

/-- A record other than the one under `X`. -/
theorem ne_of_lookup_ne {X : String} {p q : Ptr} (hp : m.nodeMap.lookup X = some p)
    (hq : m.nodeMap.lookup X ≠ some q) : q ≠ p :=
  fun hqp => hq (hqp ▸ hp)

/-- `aliveUpdate` writes only the record at `p` and only the timer of `a.Node`. -/
theorem aliveUpdate_frame {now : Int} {a : alive} {notify : Option Notify} {bootstrap : Bool}
    {p : Ptr} {updatesNode : Bool}
    (h : m.aliveUpdate cfg now a notify bootstrap p updatesNode = .ok (m', eff)) :
    (∀ q, q ≠ p → m'.heap q = m.heap q) ∧
      ∀ k, k ≠ a.Node → m'.nodeTimers.lookup k = m.nodeTimers.lookup k := by
  rcases aliveUpdate_cases h with ⟨rfl, -⟩ |
      ⟨-, -, ⟨-, -, ⟨rfl, -⟩ | ⟨rfl, -⟩⟩ | ⟨-, st, -, rfl, -⟩⟩
  · exact ⟨fun _ _ => rfl, fun _ _ => rfl⟩
  · exact ⟨fun _ _ => rfl, fun k hk => AList.lookup_erase_ne hk⟩
  · exact ⟨fun q hq => by simp [Function.update_of_ne hq], fun k hk => AList.lookup_erase_ne hk⟩
  · exact ⟨fun q hq => by simp [Function.update_of_ne hq], fun k hk => AList.lookup_erase_ne hk⟩

/-- `suspectNode` writes only the record of `s.Node` and only its timer. -/
theorem suspectNode_frame {now : Int} {s : suspect} (h : m.suspectNode cfg now s = (m', eff)) :
    (∀ q, m.nodeMap.lookup s.Node ≠ some q → m'.heap q = m.heap q) ∧
      ∀ k, k ≠ s.Node → m'.nodeTimers.lookup k = m.nodeTimers.lookup k := by
  rcases suspectNode_cases h with ⟨rfl, -⟩ |
      ⟨p, hp, -, ⟨t, -, rfl, -⟩ | ⟨-, -, ⟨-, hr⟩ | ⟨-, k, rfl, -⟩⟩⟩
  · exact ⟨fun _ _ => rfl, fun _ _ => rfl⟩
  · exact ⟨fun _ _ => rfl, fun k hk => AList.lookup_insert_ne hk⟩
  · rw [show m' = (m.refute p s.Incarnation).1 by rw [← hr]]
    refine ⟨fun q hq => ?_, fun _ _ => rfl⟩
    simp [Function.update_of_ne (ne_of_lookup_ne hp hq)]
  · refine ⟨fun q hq => ?_, fun k hk => AList.lookup_insert_ne hk⟩
    simp [Function.update_of_ne (ne_of_lookup_ne hp hq)]

/-- `deadNode` writes only the record of `d.Node` and only its timer. -/
theorem deadNode_frame {now : Int} {d : dead} (h : m.deadNode cfg now d = (m', eff)) :
    (∀ q, m.nodeMap.lookup d.Node ≠ some q → m'.heap q = m.heap q) ∧
      ∀ k, k ≠ d.Node → m'.nodeTimers.lookup k = m.nodeTimers.lookup k := by
  rcases deadNode_cases h with ⟨rfl, -⟩ | ⟨p, hp, -, ⟨-, rfl, -⟩ | ⟨-, -, -, hr⟩ | ⟨-, -, rfl, -⟩⟩
  · exact ⟨fun _ _ => rfl, fun _ _ => rfl⟩
  · exact ⟨fun _ _ => rfl, fun k hk => AList.lookup_erase_ne hk⟩
  · rw [show m' = ({ m with nodeTimers := m.nodeTimers.erase d.Node }.refute p d.Incarnation).1
      by rw [← hr]]
    refine ⟨fun q hq => ?_, fun k hk => AList.lookup_erase_ne hk⟩
    simp [Function.update_of_ne (ne_of_lookup_ne hp hq)]
  · refine ⟨fun q hq => ?_, fun k hk => AList.lookup_erase_ne hk⟩
    simp [Function.update_of_ne (ne_of_lookup_ne hp hq)]

end Memberlist

/-- A record found under a name other than `X` is not the one `nodeMap` holds under `X`. -/
theorem Rep.lookup_ne {m : Memberlist} (h : Rep m) {k X : String} {q : Ptr}
    (hk : m.nodeMap.lookup k = some q) (hkX : k ≠ X) : m.nodeMap.lookup X ≠ some q :=
  fun hX => hkX ((h.name_eq k q hk).symm.trans (h.name_eq X q hX))

section Untouched

variable {cfg : Config} {env : Env} {m m' : Memberlist} {eff : List Effect}

/-- A handler that keeps the shape and writes only the record and the timer of `X`. -/
theorem Untouched.of_frame {X : String} (h : Rep m) (hs : SameShape m m')
    (hheap : ∀ q, m.nodeMap.lookup X ≠ some q → m'.heap q = m.heap q)
    (htimer : ∀ k, k ≠ X → m'.nodeTimers.lookup k = m.nodeTimers.lookup k) :
    Untouched X m m' where
  lookup k _ := by rw [hs.nodeMap]
  heap k q hk hq := hheap q (h.lookup_ne hq hk)
  timer := htimer
  nodes q hq := by rw [hs.nodes]; exact hq

theorem aliveNode_untouched {a : alive} {notify : Option Notify} {bootstrap : Bool} (h : Rep m)
    (hal : m.aliveNode cfg env a notify bootstrap = .ok (m', eff)) : Untouched a.Node m m' := by
  rcases Memberlist.aliveNode_cases hal with ⟨rfl, -⟩ |
      ⟨-, ⟨-, -, m₁, p, hins, hup⟩ | ⟨p, hp, -, -, hup⟩ | ⟨p, hp, -, -, -, hup⟩⟩
  · exact ⟨fun _ _ => rfl, fun _ _ _ _ => rfl, fun _ _ => rfl, fun _ hq => hq⟩
  · -- a new record at the fresh pointer, then `aliveUpdate` on it
    obtain ⟨rfl, offset, -, rfl⟩ := Memberlist.insertNode_eq hins
    have hs := Memberlist.aliveUpdate_sameShape hup
    have hf := Memberlist.aliveUpdate_frame hup
    refine ⟨fun k hk => ?_, fun k q _ hq => ?_, hf.2, fun q hq => ?_⟩
    · rw [hs.nodeMap]
      exact AList.lookup_insert_ne hk
    · have hqn : q ≠ m.nextPtr := Nat.ne_of_lt (h.lt_nextPtr q (h.mem_nodes k q hq))
      rw [hf.1 q hqn]
      exact Function.update_of_ne hqn _ _
    · rw [hs.nodes]
      exact (List.swap_perm _ _ _).mem_iff.mpr (List.mem_append_left _ hq)
  all_goals
    have hf := Memberlist.aliveUpdate_frame hup
    exact Untouched.of_frame h (Memberlist.aliveUpdate_sameShape hup)
      (fun q hq => hf.1 q (Memberlist.ne_of_lookup_ne hp hq)) hf.2

theorem suspectNode_untouched {now : Int} {s : suspect} (h : Rep m)
    (hs : m.suspectNode cfg now s = (m', eff)) : Untouched s.Node m m' :=
  Untouched.of_frame h (Memberlist.suspectNode_sameShape hs) (Memberlist.suspectNode_frame hs).1
    (Memberlist.suspectNode_frame hs).2

theorem deadNode_untouched {now : Int} {d : dead} (h : Rep m)
    (hd : m.deadNode cfg now d = (m', eff)) : Untouched d.Node m m' :=
  Untouched.of_frame h (Memberlist.deadNode_sameShape hd) (Memberlist.deadNode_frame hd).1
    (Memberlist.deadNode_frame hd).2

end Untouched

section Reset

variable (cfg : Config) (env : Env) {m : Memberlist}

/-- `resetNodes` removes from `nodeMap` only names whose record is reapable. -/
theorem Rep.resetNodes_lookup (h : Rep m) (k : String) :
    (m.resetNodes cfg env).nodeMap.lookup k = m.nodeMap.lookup k ∨
      ∃ q, m.nodeMap.lookup k = some q ∧
        reapable cfg.GossipToTheDeadTime env.now (m.heap q) = true ∧
        (m.resetNodes cfg env).nodeMap.lookup k = none := by
  rw [Memberlist.resetNodes_nodeMap_lookup]
  split
  · rename_i hk
    obtain ⟨q, hq, rfl⟩ := List.mem_map.mp hk
    have hqn : q ∈ m.nodes :=
      (moveDeadNodes_perm _ _ _ _).mem_iff.mp (List.mem_of_mem_drop hq)
    exact .inr ⟨q, h.lookup_name q hqn, moveDeadNodes_reapable _ _ _ _ q hq, rfl⟩
  · exact .inl rfl

/-- A record that is not reapable keeps its name and its place through `resetNodes`. -/
theorem Rep.resetNodes_keeps (h : Rep m) {k : String} {p : Ptr} (hk : m.nodeMap.lookup k = some p)
    (hp : reapable cfg.GossipToTheDeadTime env.now (m.heap p) = false) :
    (m.resetNodes cfg env).nodeMap.lookup k = some p ∧ p ∈ (m.resetNodes cfg env).nodes := by
  have hkeep : (m.resetNodes cfg env).nodeMap.lookup k = some p := by
    rcases h.resetNodes_lookup cfg env k with hk' | ⟨q, hq, hr, -⟩
    · rw [hk', hk]
    · rw [hk] at hq
      cases hq
      rw [hp] at hr
      cases hr
  exact ⟨hkeep, (h.resetNodes cfg env).mem_nodes k p hkeep⟩

/-- A reapable record is dropped from `nodeMap` by `resetNodes`, whatever its name. -/
theorem Rep.resetNodes_reaps (h : Rep m) {k : String} {p : Ptr} (hk : m.nodeMap.lookup k = some p)
    (hp : reapable cfg.GossipToTheDeadTime env.now (m.heap p) = true) :
    (m.resetNodes cfg env).nodeMap.lookup k = none := by
  set r := moveDeadNodes m.heap cfg.GossipToTheDeadTime env.now m.nodes with hr
  have hmem : p ∈ r.1 := (moveDeadNodes_perm _ _ _ _).mem_iff.mpr (h.mem_nodes k p hk)
  -- the kept part holds no reapable record, so the record is in the reaped part
  have hdrop : p ∈ r.1.drop r.2 := by
    rw [← List.take_append_drop r.2 r.1] at hmem
    rcases List.mem_append.mp hmem with ht | hd
    · have hkept := moveDeadNodes_kept _ _ _ _ p ht
      rw [hp] at hkept
      cases hkept
    · exact hd
  rw [Memberlist.resetNodes_nodeMap_lookup, ← hr, if_pos (List.mem_map.mpr ⟨p, hdrop, h.name_eq k p hk⟩)]

end Reset

/-! ### An alive message at incarnation 0 -/

section Zero

variable {cfg : Config} {env : Env} {m : Memberlist}

/-- `randomOffset` draws without a panic for fewer than `2^32` records. -/
theorem randomOffset_ok {n : Nat} (r : UInt32) (hn : n < 2 ^ 32) :
    ∃ k, randomOffset n r = .ok k := by
  unfold randomOffset
  by_cases h0 : n = 0
  · exact ⟨0, by rw [if_pos h0]⟩
  · have hne : UInt32.ofNat n ≠ 0 := by
      intro h
      have h' := congrArg UInt32.toNat h
      rw [UInt32.toNat_ofNat', Nat.mod_eq_of_lt hn] at h'
      exact h0 h'
    exact ⟨_, by rw [if_neg h0, if_neg hne]⟩

/-- **An alive message at incarnation 0 about an unknown node is rejected after its record is
    inserted.**  From any state with fewer than `2^32` records, such a message about another
    node, not ignored and from an allowed address, leaves a new record in `nodes` and
    `nodeMap`: the fresh one, Dead at incarnation 0, since `aliveUpdate` then bails on
    `a.Incarnation <= state.Incarnation`.  The membership changes, and the node is not Alive. -/
theorem aliveNode_zero_incarnation_inserts_dead (notify : Option Notify) {a : alive}
    (hign : aliveIgnored cfg m.leave a env.verdict = false) (hnew : m.nodeMap.lookup a.Node = none)
    (hip : cfg.IPAllowed a.Addr = true) (hloc : a.Node ≠ cfg.Name) (hinc : a.Incarnation = 0)
    (hlen : m.nodes.length < 2 ^ 32) :
    ∃ m', m.aliveNode cfg env a notify false = .ok (m', []) ∧
      m'.record a.Node = some (newRecord a) ∧ (newRecord a).State = StateDead ∧
      (newRecord a).Incarnation = 0 ∧ m'.nodes.length = m.nodes.length + 1 ∧
      m'.numNodes = m.numNodes + 1 := by
  obtain ⟨offset, hoff⟩ := randomOffset_ok env.rand hlen
  -- the record is inserted at the fresh pointer
  set m₁ : Memberlist := { m with
    heap := Function.update m.heap m.nextPtr (newRecord a)
    nextPtr := m.nextPtr + 1
    nodeMap := m.nodeMap.insert a.Node m.nextPtr
    nodes := (m.nodes ++ [m.nextPtr]).swap offset m.nodes.length
    numNodes := m.numNodes + 1 } with hm₁
  have hins : m.insertNode a.Node (newRecord a) env.rand = .ok (m₁, m.nextPtr) := by
    simp only [Memberlist.insertNode, hoff, bind, Except.bind, pure, Except.pure]
    rfl
  -- and `aliveUpdate` bails: the message is no newer than the fresh record's incarnation 0
  have hrec : m₁.heap m.nextPtr = newRecord a := by simp [hm₁]
  have hname : (newRecord a).Node.Name = a.Node := newRecord_name a
  have hbail : a.Incarnation ≤ (m₁.heap m.nextPtr).Incarnation ∧
      ¬ (m₁.heap m.nextPtr).Node.Name = cfg.Name ∧ ¬ false = true := by
    refine ⟨?_, ?_, Bool.false_ne_true⟩
    · rw [hinc, hrec, newRecord_incarnation]
      decide
    · rw [hrec, hname]
      exact hloc
  have hup : m₁.aliveUpdate cfg env.now a notify false m.nextPtr false = .ok (m₁, []) := by
    unfold Memberlist.aliveUpdate
    rw [if_pos hbail]
  refine ⟨m₁, ?_, ?_, newRecord_state a, newRecord_incarnation a, ?_, rfl⟩
  · simp only [Memberlist.aliveNode, hign, Bool.false_eq_true, if_false, hnew, hip, bind,
      Except.bind, hins, hup]
    rfl
  · simp [Memberlist.record, hm₁]
  · simp [hm₁, List.length_swap]

theorem aliveNode_zero_incarnation_inserts_dead_init :
    ∃ m', (Memberlist.init (DefaultLANConfig "a")).aliveNode (DefaultLANConfig "a") (Env.at 0)
        ⟨0, "b", [10, 0, 0, 2], 7946, [], []⟩ none false = .ok (m', []) ∧
      m'.record "b" = some (newRecord ⟨0, "b", [10, 0, 0, 2], 7946, [], []⟩) ∧
      (newRecord ⟨0, "b", [10, 0, 0, 2], 7946, [], []⟩).State = StateDead ∧
      (newRecord ⟨0, "b", [10, 0, 0, 2], 7946, [], []⟩).Incarnation = 0 ∧
      m'.nodes.length = (Memberlist.init (DefaultLANConfig "a")).nodes.length + 1 ∧
      m'.numNodes = (Memberlist.init (DefaultLANConfig "a")).numNodes + 1 :=
  @aliveNode_zero_incarnation_inserts_dead (DefaultLANConfig "a") (Env.at 0)
    (Memberlist.init (DefaultLANConfig "a")) none ⟨0, "b", [10, 0, 0, 2], 7946, [], []⟩
    rfl rfl rfl (by decide) rfl (by decide)

end Zero

end memberlist
