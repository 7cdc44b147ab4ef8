import Memberlist.State.Merge
import Mathlib

/-!
# What `verifyProtocol` decides (state.go)

`verifyProtocol` runs before a remote state is merged.  It narrows the largest minimum and
the smallest maximum of the protocol and delegate versions over the alive nodes that announce
versions, and then checks the current versions of every node against that range.  What it is
for is that every node can be understood by every node that listens:

* a *listener* is an alive local record, or an alive remote record with a version vector, and
  it understands the range `remoteRange`/`localRange` gives;
* a *speaker* is any local or remote record, in any state, and it speaks the current versions
  `remoteSpeaks`/`localSpeaks` give (zero for a remote record without a version vector).

The range the loops narrow admits a version exactly when every listener does
(`VersionBounds.narrowBy_admits`, then `Go.foldl_iff`), and the checks pass exactly when the
range admits every speaker (`VersionBounds.check_eq_none_iff`, `Go.firstError_eq_none_iff`).
So, when no version vector is short (the panics are `verifyProtocol_short_vsn`):

* `verifyProtocol_eq_none_iff` — `verifyProtocol` returns nil exactly when every listener
  understands every speaker;
* `verifyProtocol_swap` — hence the verdict on two nodes' states does not depend on which one
  is local: the copy `sendLocalState` sends carries every record with its full version vector.
-/

namespace memberlist

open Go

/-! ### The range a node understands -/

namespace VersionBounds

/-- The protocol version `p` and delegate version `d` lie in the range. -/
def Admits (b : VersionBounds) (p d : UInt8) : Prop :=
  b.maxpmin ≤ p ∧ p ≤ b.minpmax ∧ b.maxdmin ≤ d ∧ d ≤ b.mindmax

instance (b : VersionBounds) (p d : UInt8) : Decidable (b.Admits p d) :=
  inferInstanceAs (Decidable (_ ∧ _ ∧ _ ∧ _))

/-- The bounds narrowed by the range of one node, when that node counts. -/
def narrowBy (b : VersionBounds) (r : Option VersionBounds) : VersionBounds :=
  r.elim b fun r => b.narrow r.maxpmin r.minpmax r.maxdmin r.mindmax

/-- The initial bounds admit every version. -/
theorem admits_init (p d : UInt8) : init.Admits p d := by
  have hp := p.toNat_lt
  have hd := d.toNat_lt
  simp only [Admits, init, UInt8.le_iff_toNat_le, UInt8.reduceToNat]
  omega

theorem check_eq_none_iff (b : VersionBounds) (name : String) (p d : UInt8) :
    b.check name p d = none ↔ b.Admits p d := by
  unfold check Admits
  by_cases hp : p < b.maxpmin || p > b.minpmax
  · rw [if_pos hp]
    simp only [Bool.or_eq_true, decide_eq_true_eq] at hp
    simp only [reduceCtorEq, false_iff]
    grind
  · rw [if_neg hp]
    simp only [Bool.or_eq_true, decide_eq_true_eq, not_or] at hp
    by_cases hd : d < b.maxdmin || d > b.mindmax
    · rw [if_pos hd]
      simp only [Bool.or_eq_true, decide_eq_true_eq] at hd
      simp only [reduceCtorEq, false_iff]
      grind
    · rw [if_neg hd]
      simp only [Bool.or_eq_true, decide_eq_true_eq, not_or] at hd
      simp only [true_iff]
      grind

/-- `narrow` keeps the larger minimum: a version is above it when it is above both. -/
theorem ite_gt_le_iff (a c p : UInt8) : (if a > c then a else c) ≤ p ↔ c ≤ p ∧ a ≤ p := by
  grind

/-- `narrow` keeps the smaller maximum: a version is below it when it is below both. -/
theorem le_ite_lt_iff (a c p : UInt8) : p ≤ (if a < c then a else c) ↔ p ≤ c ∧ p ≤ a := by
  grind

/-- The narrowed bounds admit what both the bounds and the node's range admit. -/
theorem narrow_admits (b : VersionBounds) (pmin pmax dmin dmax p d : UInt8) :
    (b.narrow pmin pmax dmin dmax).Admits p d ↔
      b.Admits p d ∧ (⟨pmin, pmax, dmin, dmax⟩ : VersionBounds).Admits p d := by
  simp only [Admits, narrow, ite_gt_le_iff, le_ite_lt_iff]
  tauto

theorem narrowBy_admits (b : VersionBounds) (r : Option VersionBounds) (p d : UInt8) :
    (b.narrowBy r).Admits p d ↔ b.Admits p d ∧ ∀ j ∈ r, j.Admits p d := by
  cases r with
  | none => simp [narrowBy]
  | some j =>
    simp only [narrowBy, Option.elim_some, Option.mem_def, Option.some.injEq, forall_eq']
    exact narrow_admits b _ _ _ _ p d

end VersionBounds

/-- The range an alive remote record with a version vector understands:
    `[Vsn[0], Vsn[1]]` and `[Vsn[3], Vsn[4]]`. -/
def remoteRange (rn : pushNodeState) : Option VersionBounds :=
  if rn.State = StateAlive ∧ 0 < rn.Vsn.length then
    some ⟨rn.Vsn.getD 0 0, rn.Vsn.getD 1 0, rn.Vsn.getD 3 0, rn.Vsn.getD 4 0⟩
  else none

/-- The range an alive local record understands. -/
def localRange (n : nodeState) : Option VersionBounds :=
  if n.State = StateAlive then some ⟨n.Node.PMin, n.Node.PMax, n.Node.DMin, n.Node.DMax⟩
  else none

/-- The versions a remote record speaks: `Vsn[2]` and `Vsn[5]`, zero without a vector. -/
def remoteSpeaks (rn : pushNodeState) : UInt8 × UInt8 :=
  if 0 < rn.Vsn.length then (rn.Vsn.getD 2 0, rn.Vsn.getD 5 0) else (0, 0)

/-- The versions a local record speaks. -/
def localSpeaks (n : nodeState) : UInt8 × UInt8 :=
  (n.Node.PCur, n.Node.DCur)

namespace Memberlist

/-- The ranges of every node that listens, remote ones first. -/
def listeners (m : Memberlist) (remote : List pushNodeState) : List VersionBounds :=
  remote.filterMap remoteRange ++ m.nodes.filterMap fun p => localRange (m.heap p)

/-- The versions every node speaks, remote ones first. -/
def speakers (m : Memberlist) (remote : List pushNodeState) : List (UInt8 × UInt8) :=
  remote.map remoteSpeaks ++ m.nodes.map fun p => localSpeaks (m.heap p)

end Memberlist

/-! ### The four loops -/

section Loops

variable (b : VersionBounds)

theorem localBounds_eq (n : nodeState) : localBounds b n = b.narrowBy (localRange n) := by
  unfold localBounds localRange
  by_cases h : n.State = StateAlive
  · simp [h, VersionBounds.narrowBy]
  · simp [h, VersionBounds.narrowBy]

/-- Without a short version vector, the first loop's body narrows by the record's range. -/
theorem remoteBounds_eq {rn : pushNodeState} (hlen : rn.Vsn.length = 0 ∨ 5 ≤ rn.Vsn.length) :
    remoteBounds b rn = .ok (b.narrowBy (remoteRange rn)) := by
  unfold remoteBounds remoteRange
  by_cases halive : rn.State = StateAlive
  · rcases hlen with h0 | h5
    · simp [halive, h0, VersionBounds.narrowBy]
    · have hpos : rn.Vsn.length ≠ 0 := by omega
      rw [if_neg (by simp [halive]), if_neg hpos, if_pos ⟨halive, by omega⟩,
        index_eq_ok (show 0 < rn.Vsn.length by omega), index_eq_ok (show 1 < rn.Vsn.length by omega),
        index_eq_ok (show 3 < rn.Vsn.length by omega), index_eq_ok (show 4 < rn.Vsn.length by omega),
        List.getD_eq_getElem _ _ (show 0 < rn.Vsn.length by omega),
        List.getD_eq_getElem _ _ (show 1 < rn.Vsn.length by omega),
        List.getD_eq_getElem _ _ (show 3 < rn.Vsn.length by omega),
        List.getD_eq_getElem _ _ (show 4 < rn.Vsn.length by omega)]
      rfl
  · simp [halive, VersionBounds.narrowBy]

/-- Without a short version vector, the third loop's body checks what the record speaks. -/
theorem remoteCheck_eq {rn : pushNodeState} (hlen : rn.Vsn.length = 0 ∨ 6 ≤ rn.Vsn.length) :
    remoteCheck b rn = .ok (b.check rn.Name (remoteSpeaks rn).1 (remoteSpeaks rn).2) := by
  unfold remoteCheck remoteSpeaks
  rcases hlen with h0 | h6
  · simp only [h0, Nat.lt_irrefl, if_false]
    rfl
  · rw [if_pos (show 0 < rn.Vsn.length by omega), if_pos (show 0 < rn.Vsn.length by omega),
      index_eq_ok (show 2 < rn.Vsn.length by omega), index_eq_ok (show 5 < rn.Vsn.length by omega),
      List.getD_eq_getElem _ _ (show 2 < rn.Vsn.length by omega),
      List.getD_eq_getElem _ _ (show 5 < rn.Vsn.length by omega)]
    rfl

end Loops

/-! ### The verdict -/

/-- The range both narrowing loops leave admits a version exactly when every listener
    does. -/
theorem bounds_admits (m : Memberlist) (remote : List pushNodeState) (p d : UInt8) :
    (m.nodes.foldl (fun b q => localBounds b (m.heap q))
        (remote.foldl (fun b rn => b.narrowBy (remoteRange rn)) VersionBounds.init)).Admits p d ↔
      ∀ j ∈ m.listeners remote, j.Admits p d := by
  -- each loop keeps what its node's range admits
  have hloc : ∀ b : VersionBounds,
      (m.nodes.foldl (fun b q => localBounds b (m.heap q)) b).Admits p d ↔
        b.Admits p d ∧ ∀ q ∈ m.nodes, ∀ j ∈ localRange (m.heap q), j.Admits p d :=
    @foldl_iff _ _ (fun b q => localBounds b (m.heap q)) (fun b => b.Admits p d)
      (fun q => ∀ j ∈ localRange (m.heap q), j.Admits p d)
      (fun b q => by rw [localBounds_eq]; exact VersionBounds.narrowBy_admits b _ p d) m.nodes
  have hrem : (remote.foldl (fun b rn => b.narrowBy (remoteRange rn)) VersionBounds.init).Admits p d ↔
      VersionBounds.init.Admits p d ∧ ∀ rn ∈ remote, ∀ j ∈ remoteRange rn, j.Admits p d :=
    @foldl_iff _ _ (fun b rn => b.narrowBy (remoteRange rn)) (fun b => b.Admits p d)
      (fun rn => ∀ j ∈ remoteRange rn, j.Admits p d)
      (fun b rn => VersionBounds.narrowBy_admits b (remoteRange rn) p d) remote _
  rw [hloc, hrem]
  simp only [VersionBounds.admits_init, true_and, Memberlist.listeners, List.forall_mem_append,
    List.forall_mem_filterMap, Option.mem_def]

/-- **`verifyProtocol` decides mutual intelligibility.**  When every remote version vector is
    empty or complete, `verifyProtocol` returns nil exactly when every listener understands
    every speaker. -/
theorem verifyProtocol_eq_none_iff (m : Memberlist) {remote : List pushNodeState}
    (hvsn : ∀ rn ∈ remote, rn.Vsn.length = 0 ∨ 6 ≤ rn.Vsn.length) :
    verifyProtocol m remote = .ok none ↔
      ∀ s ∈ m.speakers remote, ∀ j ∈ m.listeners remote, j.Admits s.1 s.2 := by
  have hfold : remote.foldlM remoteBounds VersionBounds.init =
      .ok (remote.foldl (fun b rn => b.narrowBy (remoteRange rn)) VersionBounds.init) :=
    foldlM_eq_ok_foldl (fun rn hrn b => remoteBounds_eq b (by have := hvsn rn hrn; omega)) _
  -- the range both narrowing loops leave
  set b := m.nodes.foldl (fun b q => localBounds b (m.heap q))
    (remote.foldl (fun b rn => b.narrowBy (remoteRange rn)) VersionBounds.init) with hb
  -- the checks of the remote records do not panic
  obtain ⟨o, hfirst, hnone⟩ := @firstError_eq_none_iff _ _ (remoteCheck b) remote
    (fun rn hrn => ⟨_, remoteCheck_eq b (hvsn rn hrn)⟩)
  -- nil exactly when no remote record fails its check and no local one does
  have hverify : verifyProtocol m remote = .ok none ↔ o = none ∧
      (m.nodes.findSome? fun q => b.check (m.heap q).Node.Name (m.heap q).Node.PCur
        (m.heap q).Node.DCur) = none := by
    simp only [verifyProtocol, hfold, bind, Except.bind]
    rw [hfirst]
    cases o with
    | some e => simp [pure, Except.pure]
    | none =>
      simp [pure, Except.pure]
      exact Iff.rfl
  have hadmits : ∀ p d, b.Admits p d ↔ ∀ j ∈ m.listeners remote, j.Admits p d :=
    bounds_admits m remote
  rw [hverify, hnone, List.findSome?_eq_none_iff]
  simp only [← hadmits, Memberlist.speakers, List.forall_mem_append, List.forall_mem_map]
  refine and_congr (forall₂_congr fun rn hrn => ?_) (forall₂_congr fun q _ => ?_)
  · rw [remoteCheck_eq b (hvsn rn hrn), Except.ok.injEq, VersionBounds.check_eq_none_iff]
  · exact VersionBounds.check_eq_none_iff b _ _ _

/-! ### Swapping local and remote -/

/-- `sendLocalState` sends every record with its full version vector. -/
theorem localState_vsn (m : Memberlist) :
    ∀ rn ∈ m.localState, rn.Vsn.length = 0 ∨ 6 ≤ rn.Vsn.length := by
  intro rn hrn
  simp only [Memberlist.localState, List.mem_map] at hrn
  obtain ⟨p, -, rfl⟩ := hrn
  right
  simp [nodeState.versions]

/-- A record sent by `sendLocalState` speaks what it spoke locally. -/
theorem speakers_localState (m m' : Memberlist) :
    m.speakers m'.localState =
      m'.nodes.map (fun p => localSpeaks (m'.heap p)) ++ m.nodes.map fun p => localSpeaks (m.heap p) := by
  simp only [Memberlist.speakers, Memberlist.localState, List.map_map]
  rfl

/-- A record sent by `sendLocalState` listens to what it listened to locally. -/
theorem listeners_localState (m m' : Memberlist) :
    m.listeners m'.localState =
      m'.nodes.filterMap (fun p => localRange (m'.heap p)) ++
        m.nodes.filterMap fun p => localRange (m.heap p) := by
  simp only [Memberlist.listeners, Memberlist.localState, List.filterMap_map]
  congr 2
  funext p
  by_cases h : (m'.heap p).State = StateAlive
  · simp [Function.comp, remoteRange, localRange, h, nodeState.versions]
  · simp [Function.comp, remoteRange, localRange, h]

/-- **The verdict does not depend on which node is local.**  Checking another node's state
    against ours accepts exactly when checking ours against theirs does. -/
theorem verifyProtocol_swap (m m' : Memberlist) :
    verifyProtocol m m'.localState = .ok none ↔ verifyProtocol m' m.localState = .ok none := by
  rw [verifyProtocol_eq_none_iff m (localState_vsn m'),
    verifyProtocol_eq_none_iff m' (localState_vsn m), speakers_localState, speakers_localState,
    listeners_localState, listeners_localState]
  simp only [List.mem_append, or_comm]

/-- **`verifyProtocol` decides mutual intelligibility.**  For every local node list and every
    remote list whose version vectors are empty or complete, `verifyProtocol` returns nil
    exactly when every alive node that listens (local, or remote with a version vector)
    understands the current versions of every node, local or remote, in any state.  So the
    verdict on two nodes' states is the same whichever of the two is local. -/
theorem verifyProtocol_decides_intelligibility :
    (∀ (m : Memberlist) (remote : List pushNodeState),
        (∀ rn ∈ remote, rn.Vsn.length = 0 ∨ 6 ≤ rn.Vsn.length) →
        (verifyProtocol m remote = .ok none ↔
          ∀ s ∈ m.speakers remote, ∀ j ∈ m.listeners remote, j.Admits s.1 s.2)) ∧
      ∀ m m' : Memberlist,
        verifyProtocol m m'.localState = .ok none ↔ verifyProtocol m' m.localState = .ok none :=
  ⟨fun m _ hvsn => verifyProtocol_eq_none_iff m hvsn, verifyProtocol_swap⟩

end memberlist
