import Memberlist.Net.Ack
import Memberlist.Lib.Slice
import Mathlib

/-!
# What each step of the exchange changes

Each function of `Net.Ack` is described once here, by what it does to the parts of `AckState`
that the proofs about the exchange speak of; the proofs over whole runs use these lemmas and
never unfold the functions again.

* `AckState.Inv` — the closures in `ackHandlers`, and the one the packet listener is running, fit
  the goroutines: a probe closure writes the run under its own sequence number, and a relay
  closure belongs to the `handleIndirectPing` call under its own, whose `cancelCh` is still
  open.  Every function keeps it, and under it `invokeAckFn` never closes a closed channel.
* `AckState.TimerInv` — a handler's timer is the one installed with it, and it is not started
  only while the run that installed it has yet to start it.
* `probeRun.ident`, `relayRun.ident` — what a run or a call is about, which no step changes;
  `AckState.issued` — the sequence numbers the member has put on its pings, with the name each
  ping names.  A step keeps them, or adds one under `sequenceNum + 1`.
* `probeRun.Acked` — a run holds a complete ack or has returned acked.  Only the ack closure
  (`offerAck`) and a TCP contact (`finish true`) make a run acked (`acked_of_direct` and the
  like).
-/

namespace memberlist

/-- What a probe run is about: the sequence number of its ping and the name of its member. -/
def probeRun.ident (p : probeRun) : UInt32 × String := (p.seqNo, p.node.Node.Name)

/-- What a `handleIndirectPing` call is about: the request's sequence number and target, where
    the call's ack goes, and the sequence number of the call's own ping. -/
structure RelayIdent where
  seqNo : UInt32
  node : String
  indAddr : IPPort
  localSeqNo : UInt32
  deriving DecidableEq, Repr

/-- The identity of a `handleIndirectPing` call. -/
def relayRun.ident (ρ : relayRun) : RelayIdent := ⟨ρ.seqNo, ρ.node, ρ.indAddr, ρ.localSeqNo⟩

/-- The message a run took off `ackCh` to put back, if any. -/
def probePhase.held : probePhase → Option ackMessage
  | .requeue v => some v
  | _ => none

/-- The timer a run has yet to start, if any. -/
def probePhase.installingAt : probePhase → Option Nat
  | .installing t => some t
  | _ => none

/-- The messages a run holds: its `ackCh`, and the one it took off to put back. -/
def probeRun.msgs (p : probeRun) : List ackMessage := p.ackCh ++ p.phase.held.toList

/-- A run holds a complete ack, or has returned acked. -/
def probeRun.Acked (p : probeRun) : Prop :=
  (∃ v ∈ p.msgs, v.Complete = true) ∨ p.phase = .acked

/-- The phases a run goes on to once it has started its timer and sent its ping, or failed to. -/
def probePhase.Sent (ph : probePhase) : Prop := ph = .direct ∨ ph = .failing ∨ ph = .abandoned

/-- The run whose channels a handler's closures write, if any. -/
def ackFn.probeCh : ackFn → Option Nat
  | .probe ch => some ch
  | .relay _ => none

theorem mem_offer {α : Type} {cap : Nat} {waiting : Bool} {buf : List α} {x y : α}
    (h : y ∈ offer cap waiting buf x) : y ∈ buf ∨ y = x := by
  unfold offer at h
  split at h
  · simpa using h
  · exact Or.inl h

/-- A message that names its sender's own address is answered there. -/
@[simp] theorem replyAddr_self (a : IPPort) : replyAddr a.ip a.port a = a := by
  unfold replyAddr
  split <;> rfl

/-- `sequenceNum + 1` that has not wrapped around. -/
theorem toNat_add_one_of_le {a : UInt32} (h : a.toNat ≤ (a + 1).toNat) :
    (a + 1).toNat = a.toNat + 1 := by
  have ha := a.toNat_lt
  rw [UInt32.toNat_add, UInt32.toNat_one] at h ⊢
  rcases Nat.lt_or_ge (a.toNat + 1) (2 ^ 32) with hlt | hge
  · exact Nat.mod_eq_of_lt hlt
  · have : a.toNat + 1 = 2 ^ 32 := by omega
    rw [this, Nat.mod_self] at h
    omega

/-- A key above every key of a list keeps the keys distinct and bounded. -/
theorem fresh_of_perm {L L' : List (UInt32 × String)} {x : UInt32 × String} {b : UInt32}
    (hperm : L'.Perm (L ++ [x])) (hx : x.1.toNat = b.toNat + 1)
    (hf : ∀ k ∈ L, k.1.toNat ≤ b.toNat) (hn : (L.map Prod.fst).Nodup) :
    (∀ k ∈ L', k.1.toNat ≤ x.1.toNat) ∧ (L'.map Prod.fst).Nodup := by
  constructor
  · intro k hk
    rcases List.mem_append.mp (hperm.mem_iff.mp hk) with hk | hk
    · have := hf k hk
      omega
    · rw [List.mem_singleton.mp hk]
  · rw [(hperm.map Prod.fst).nodup_iff, List.map_append, List.nodup_append]
    refine ⟨hn, List.nodup_singleton _, ?_⟩
    intro a ha c hc hac
    obtain ⟨k, hk, rfl⟩ := List.mem_map.mp ha
    rw [List.map_singleton, List.mem_singleton] at hc
    have := hf k hk
    rw [hac, hc] at this
    omega

/-! ### The runs of `probeNode` -/

namespace probeRun

variable (p : probeRun)

@[simp] theorem ident_offerAck (cap : Nat) (payload : List UInt8) :
    (p.offerAck cap payload).ident = p.ident := rfl

@[simp] theorem ident_offerTimeout (cap : Nat) : (p.offerTimeout cap).ident = p.ident := rfl

@[simp] theorem ident_offerNack (cap : Nat) : (p.offerNack cap).ident = p.ident := rfl

@[simp] theorem ident_direct (timeout : Bool) : (p.direct timeout).ident = p.ident := by
  unfold direct
  split
  · split
    · rfl
    · split
      · split <;> rfl
      · rfl
  · rfl

@[simp] theorem ident_requeue (cap : Nat) : (p.requeue cap).ident = p.ident := by
  unfold requeue
  split
  · split <;> rfl
  · rfl

@[simp] theorem ident_indirect : p.indirect.ident = p.ident := by
  unfold indirect
  split
  · split
    · split <;> rfl
    · rfl
  · rfl

@[simp] theorem ident_finish (didContact : Bool) : (p.finish didContact).ident = p.ident := by
  unfold finish
  split
  · split <;> rfl
  · rfl

theorem seqNo_eq_of_ident {p q : probeRun} (h : p.ident = q.ident) : p.seqNo = q.seqNo :=
  congrArg Prod.fst h

@[simp] theorem installingAt_offerAck (cap : Nat) (payload : List UInt8) :
    (p.offerAck cap payload).phase.installingAt = p.phase.installingAt := rfl

@[simp] theorem installingAt_offerTimeout (cap : Nat) :
    (p.offerTimeout cap).phase.installingAt = p.phase.installingAt := rfl

@[simp] theorem installingAt_offerNack (cap : Nat) :
    (p.offerNack cap).phase.installingAt = p.phase.installingAt := rfl

@[simp] theorem installingAt_direct (timeout : Bool) :
    (p.direct timeout).phase.installingAt = p.phase.installingAt := by
  unfold direct
  split
  · next hph =>
    split
    · simp [probePhase.installingAt, hph]
    · split
      · split <;> simp [probePhase.installingAt, hph]
      · rfl
  · rfl

@[simp] theorem installingAt_requeue (cap : Nat) :
    (p.requeue cap).phase.installingAt = p.phase.installingAt := by
  unfold requeue
  split
  · next v hph =>
    split
    · simp [probePhase.installingAt, hph]
    · rfl
  · rfl

@[simp] theorem installingAt_indirect : p.indirect.phase.installingAt = p.phase.installingAt := by
  unfold indirect
  split
  · next hph =>
    split
    · split <;> simp [probePhase.installingAt, hph]
    · rfl
  · rfl

@[simp] theorem installingAt_finish (didContact : Bool) :
    (p.finish didContact).phase.installingAt = p.phase.installingAt := by
  unfold finish
  split
  · next hph =>
    split <;> simp [probePhase.installingAt, hph]
  · rfl

/-- An offer to `ackCh` keeps every message and adds at most the one offered. -/
theorem mem_msgs_of_offer {q : probeRun} {cap : Nat} {w : Bool} {x : ackMessage}
    (hch : q.ackCh = offer cap w p.ackCh x) (hph : q.phase = p.phase) {v : ackMessage}
    (hv : v ∈ q.msgs) : v ∈ p.msgs ∨ v = x := by
  rw [msgs, hch, hph, List.mem_append] at hv
  rcases hv with hv | hv
  · exact (mem_offer hv).imp (List.mem_append_left _) id
  · exact Or.inl (List.mem_append_right _ hv)

/-- The timer's message is not a complete ack. -/
theorem acked_of_offerTimeout (cap : Nat) (h : (p.offerTimeout cap).Acked) : p.Acked := by
  rcases h with ⟨v, hv, hc⟩ | hph
  · rcases p.mem_msgs_of_offer (q := p.offerTimeout cap) rfl rfl hv with hv | rfl
    · exact Or.inl ⟨v, hv, hc⟩
    · cases hc
  · exact Or.inr hph

/-- A wait that keeps the run's messages, or drops some, makes it acked only by a complete ack
    among them. -/
theorem acked_of_msgs {q : probeRun} (hsub : q.msgs ⊆ p.msgs)
    (hph : q.phase = .acked → ∃ v ∈ p.msgs, v.Complete = true) (h : q.Acked) : p.Acked := by
  rcases h with ⟨v, hv, hc⟩ | hq
  · exact Or.inl ⟨v, hsub hv, hc⟩
  · exact Or.inl (hph hq)

/-- The select after the ping returns acked only on a complete ack it takes off `ackCh`. -/
theorem acked_of_direct (timeout : Bool) (h : (p.direct timeout).Acked) : p.Acked := by
  unfold direct at h
  split at h
  · next hph =>
    split at h
    · exact acked_of_msgs p (by simp [msgs, hph, probePhase.held]) (fun h => by cases h) h
    · split at h
      next v rest hch =>
        split at h
        · next hc => exact Or.inl ⟨v, by simp [msgs, hch], hc⟩
        · -- the timer's message, held to be put back
          refine acked_of_msgs p ?_ (fun h => by cases h) h
          intro w hw
          simp only [msgs, probePhase.held, Option.toList_some, List.mem_append,
            List.mem_singleton] at hw
          simp only [msgs, hch, hph, probePhase.held, Option.toList_none, List.append_nil,
            List.mem_cons]
          tauto
      · exact h
  · exact h

theorem acked_of_requeue (cap : Nat) (h : (p.requeue cap).Acked) : p.Acked := by
  unfold requeue at h
  split at h
  · next v hph =>
    split at h
    · -- the message goes back into `ackCh`
      refine acked_of_msgs p ?_ (fun h => by cases h) h
      simp [msgs, hph, probePhase.held]
    · exact h
  · exact h

theorem acked_of_indirect (h : p.indirect.Acked) : p.Acked := by
  unfold indirect at h
  split at h
  · next hph =>
    split at h
    next v rest hch =>
      split at h
      · next hc => exact Or.inl ⟨v, by simp [msgs, hch], hc⟩
      · exact acked_of_msgs p (by simp [msgs, hch, hph, probePhase.held])
          (fun h => by cases h) h
    · exact h
  · exact h

/-- Without a TCP contact the fallback ends suspected. -/
theorem acked_of_finish_false (h : (p.finish false).Acked) : p.Acked := by
  unfold finish at h
  split at h
  · next hph =>
    exact acked_of_msgs p (by simp [msgs, hph, probePhase.held]) (fun h => by cases h) h
  · exact h

end probeRun

/-! ### The handler invariants -/

namespace AckState

/-- The closures fit the goroutines: a probe closure writes the run under its own sequence
    number, and a relay closure belongs to the call under its own, whose `cancelCh` is still
    open; the call whose ack the packet listener is relaying has an open channel too, and no
    handler of it is left. -/
structure Inv (s : AckState) : Prop where
  probe : ∀ {k ah ch}, s.ackHandlers.lookup k = some ah → ah.fn = .probe ch →
    ∃ p, s.probes[ch]? = some p ∧ p.seqNo = k
  relay : ∀ {k ah r}, s.ackHandlers.lookup k = some ah → ah.fn = .relay r →
    ∃ ρ, s.relays[r]? = some ρ ∧ ρ.localSeqNo = k ∧ ρ.cancelled = false
  invoking : ∀ {iv r}, s.invoking = some iv → iv.ah.fn = .relay r →
    (∃ ρ, s.relays[r]? = some ρ ∧ ρ.cancelled = false) ∧
      ∀ {k ah}, s.ackHandlers.lookup k = some ah → ah.fn ≠ .relay r

/-- The reaping timer of the handler `ah` is the one installed with it and writes the run its
    closures write; it is not started only while the run that installed it has yet to start it. -/
def TimerFits (s : AckState) (ah : ackHandler) : Prop :=
  ∃ τ, s.timers[ah.timer]? = some τ ∧ τ.probe = ah.fn.probeCh ∧
    (τ.status = .unstarted →
      ∃ ch p, ah.fn = .probe ch ∧ s.probes[ch]? = some p ∧ p.phase.installingAt = some ah.timer)

/-- The timers fit every handler and the handler the packet listener is running, and a run that
    has yet to start its timer finds it not started. -/
structure TimerInv (s : AckState) : Prop where
  handler : ∀ {k ah}, s.ackHandlers.lookup k = some ah → s.TimerFits ah
  invoking : ∀ {iv}, s.invoking = some iv → s.TimerFits iv.ah
  installing : ∀ {ch : Nat} {p : probeRun} {t : Nat}, s.probes[ch]? = some p →
    p.phase.installingAt = some t → ∃ τ, s.timers[t]? = some τ ∧ τ.probe = some ch ∧
      τ.status = .unstarted

theorem init_inv : AckState.init.Inv where
  probe h := by simp [AckState.init, AList.lookup_empty] at h
  relay h := by simp [AckState.init, AList.lookup_empty] at h
  invoking h := by simp [AckState.init] at h

theorem init_timerInv : AckState.init.TimerInv where
  handler h := by simp [AckState.init, AList.lookup_empty] at h
  invoking h := by simp [AckState.init] at h
  installing h := by simp [AckState.init] at h

variable {s : AckState}

/-! #### Frames -/

/-- A state with fewer handlers, no other invocation, and runs and calls that keep what the
    closures rely on. -/
theorem Inv.of_frame (h : s.Inv) {s' : AckState}
    (hl : ∀ {k ah}, s'.ackHandlers.lookup k = some ah → s.ackHandlers.lookup k = some ah)
    (hi : ∀ {iv}, s'.invoking = some iv → s.invoking = some iv)
    (hp : ∀ ch : Nat, (s'.probes[ch]?).map probeRun.seqNo = (s.probes[ch]?).map probeRun.seqNo)
    (hr : ∀ r : Nat, (s'.relays[r]?).map (fun ρ => (ρ.localSeqNo, ρ.cancelled)) =
      (s.relays[r]?).map (fun ρ => (ρ.localSeqNo, ρ.cancelled))) : s'.Inv where
  probe {_ _ ch} hk hfn := by
    obtain ⟨p, hp₁, hseq⟩ := h.probe (hl hk) hfn
    have := hp ch
    rw [hp₁, Option.map_some, Option.map_eq_some_iff] at this
    obtain ⟨p', hp', hseq'⟩ := this
    exact ⟨p', hp', hseq'.trans hseq⟩
  relay {_ _ r} hk hfn := by
    obtain ⟨ρ, hρ, hseq, hopen⟩ := h.relay (hl hk) hfn
    have := hr r
    rw [hρ, Option.map_some, Option.map_eq_some_iff] at this
    obtain ⟨ρ', hρ', heq⟩ := this
    obtain ⟨hseq', hopen'⟩ := Prod.mk.inj heq
    exact ⟨ρ', hρ', hseq'.trans hseq, hopen'.trans hopen⟩
  invoking {_ r} hiv hfn := by
    obtain ⟨⟨ρ, hρ, hopen⟩, hnone⟩ := h.invoking (hi hiv) hfn
    have := hr r
    rw [hρ, Option.map_some, Option.map_eq_some_iff] at this
    obtain ⟨ρ', hρ', heq⟩ := this
    exact ⟨⟨ρ', hρ', (Prod.mk.inj heq).2.trans hopen⟩, fun hk => hnone (hl hk)⟩

/-- The timers where they were, started or not, and the same runs installing the same timers. -/
theorem TimerFits.of_frame {ah : ackHandler} (h : s.TimerFits ah) {s' : AckState}
    (ht : ∀ {t : Nat} {τ : ackTimer}, s.timers[t]? = some τ → ∃ τ', s'.timers[t]? = some τ' ∧
      τ'.probe = τ.probe ∧ (τ'.status = .unstarted ↔ τ.status = .unstarted))
    (hp : ∀ ch : Nat, (s'.probes[ch]?).map (·.phase.installingAt) =
      (s.probes[ch]?).map (·.phase.installingAt)) : s'.TimerFits ah := by
  obtain ⟨τ, hτ, hprobe, hun⟩ := h
  obtain ⟨τ', hτ', hprobe', hst⟩ := ht hτ
  refine ⟨τ', hτ', hprobe'.trans hprobe, fun hu => ?_⟩
  obtain ⟨ch, p, hfn, hp₁, hinst⟩ := hun (hst.mp hu)
  have := hp ch
  rw [hp₁, Option.map_some, Option.map_eq_some_iff] at this
  obtain ⟨p', hp', heq⟩ := this
  exact ⟨ch, p', hfn, hp', heq.trans hinst⟩

/-- More timers and runs, those there left as they were. -/
theorem TimerFits.mono {ah : ackHandler} (h : s.TimerFits ah) {s' : AckState}
    (ht : ∀ {t : Nat} {τ : ackTimer}, s.timers[t]? = some τ → s'.timers[t]? = some τ)
    (hp : ∀ {ch : Nat} {p : probeRun}, s.probes[ch]? = some p → s'.probes[ch]? = some p) :
    s'.TimerFits ah := by
  obtain ⟨τ, hτ, hprobe, hun⟩ := h
  refine ⟨τ, ht hτ, hprobe, fun hu => ?_⟩
  obtain ⟨ch, p, hfn, hp₁, hinst⟩ := hun hu
  exact ⟨ch, p, hfn, hp hp₁, hinst⟩

/-- A state with fewer handlers, no other invocation, the timers where they were (started or
    not), and the same runs installing the same timers. -/
theorem TimerInv.of_frame (h : s.TimerInv) {s' : AckState}
    (hl : ∀ {k ah}, s'.ackHandlers.lookup k = some ah → s.ackHandlers.lookup k = some ah)
    (hi : ∀ {iv}, s'.invoking = some iv → s.invoking = some iv)
    (ht : ∀ {t : Nat} {τ : ackTimer}, s.timers[t]? = some τ → ∃ τ', s'.timers[t]? = some τ' ∧
      τ'.probe = τ.probe ∧ (τ'.status = .unstarted ↔ τ.status = .unstarted))
    (hp : ∀ ch : Nat, (s'.probes[ch]?).map (·.phase.installingAt) =
      (s.probes[ch]?).map (·.phase.installingAt)) : s'.TimerInv where
  handler hk := (h.handler (hl hk)).of_frame ht hp
  invoking hiv := (h.invoking (hi hiv)).of_frame ht hp
  installing {ch p' t} hp' hinst := by
    have := hp ch
    rw [hp', Option.map_some] at this
    obtain ⟨p, hp₁, heq⟩ := Option.map_eq_some_iff.mp this.symm
    obtain ⟨τ, hτ, hprobe, hun⟩ := h.installing hp₁ (heq.trans hinst)
    obtain ⟨τ', hτ', hprobe', hst⟩ := ht hτ
    exact ⟨τ', hτ', hprobe'.trans hprobe, hst.mpr hun⟩

theorem lookup_erase_sub {k : UInt32} {k' : UInt32} {ah : ackHandler}
    (hk : (s.ackHandlers.erase k).lookup k' = some ah) : s.ackHandlers.lookup k' = some ah := by
  by_cases hkk : k' = k
  · rw [hkk, AList.lookup_erase] at hk
    cases hk
  · rwa [AList.lookup_erase_ne hkk] at hk

theorem getElem?_modifyProbe_eq' {ch ch' : Nat} {p : probeRun} (hp : s.probes[ch']? = some p)
    (f : probeRun → probeRun) :
    (s.modifyProbe ch f).probes[ch']? = some (if ch = ch' then f p else p) := by
  simp [modifyProbe, List.getElem?_modify, hp]

/-- The runs after `modifyProbe` by a change that keeps a key of every run. -/
theorem map_modifyProbe {β : Type} {g : probeRun → β} (ch : Nat) {f : probeRun → probeRun}
    (hf : ∀ p, g (f p) = g p) (ch' : Nat) :
    ((s.modifyProbe ch f).probes[ch']?).map g = (s.probes[ch']?).map g := by
  simp only [modifyProbe, List.getElem?_modify]
  cases s.probes[ch']? with
  | none => rfl
  | some p =>
    simp only [Option.map_some, Option.map_eq_map]
    split <;> simp [hf]

theorem map_set_eq {α β : Type} {l : List α} {i : Nat} {a b : α} {g : α → β}
    (hl : l[i]? = some a) (hg : g b = g a) (j : Nat) : ((l.set i b)[j]?).map g = (l[j]?).map g := by
  rw [List.getElem?_set]
  split
  · next hij =>
    subst hij
    rw [hl]
    simp [(List.getElem?_eq_some_iff.mp hl).1, hg]
  · rfl

/-- A timer stopped, or fired, after it started. -/
theorem timers_disarm {t : Nat} {τ₀ : ackTimer} (h₀ : s.timers[t]? = some τ₀)
    (hst : τ₀.status ≠ .unstarted) {t' : Nat} {τ : ackTimer} (hτ : s.timers[t']? = some τ) :
    ∃ τ', (s.timers.modify t ackTimer.disarm)[t']? = some τ' ∧ τ'.probe = τ.probe ∧
      (τ'.status = .unstarted ↔ τ.status = .unstarted) := by
  by_cases htt : t = t'
  · subst htt
    rw [h₀, Option.some.injEq] at hτ
    subst hτ
    exact ⟨τ₀.disarm, by simp [h₀], rfl, by simp [ackTimer.disarm, hst]⟩
  · exact ⟨τ, by simp [List.getElem?_modify_ne _ _ htt, hτ], rfl, Iff.rfl⟩

theorem timers_same {s' : AckState} (ht : s'.timers = s.timers) {t : Nat} {τ : ackTimer}
    (hτ : s.timers[t]? = some τ) :
    ∃ τ', s'.timers[t]? = some τ' ∧ τ'.probe = τ.probe ∧
      (τ'.status = .unstarted ↔ τ.status = .unstarted) :=
  ⟨τ, ht ▸ hτ, rfl, Iff.rfl⟩

/-- A change of one run that keeps its sequence number. -/
theorem Inv.modifyProbe (h : s.Inv) (ch : Nat) {f : probeRun → probeRun}
    (hf : ∀ p, (f p).seqNo = p.seqNo) : (s.modifyProbe ch f).Inv :=
  h.of_frame id id (map_modifyProbe ch hf) (fun _ => rfl)

/-- A change of one run that keeps whether it installs a timer, and which. -/
theorem TimerInv.modifyProbe (h : s.TimerInv) (ch : Nat) {f : probeRun → probeRun}
    (hf : ∀ p, (f p).phase.installingAt = p.phase.installingAt) : (s.modifyProbe ch f).TimerInv :=
  h.of_frame id id (timers_same rfl) (map_modifyProbe ch hf)

/-- Closing the channel of the call whose ack the packet listener relays. -/
theorem Inv.cancel (h : s.Inv) {r : Nat} (ρ : relayRun)
    (hnone : ∀ {k ah}, s.ackHandlers.lookup k = some ah → ah.fn ≠ .relay r)
    (hidle : s.invoking = none) :
    { s with relays := s.relays.set r { ρ with cancelled := true } }.Inv where
  probe := h.probe
  relay {_ _ r'} hk hfn := by
    obtain ⟨σ, hσ, hseq, hopen⟩ := h.relay hk hfn
    have hne : r ≠ r' := by
      rintro rfl
      exact hnone hk hfn
    exact ⟨σ, by rw [List.getElem?_set_ne hne]; exact hσ, hseq, hopen⟩
  invoking hiv := by
    change s.invoking = some _ at hiv
    rw [hidle] at hiv
    cases hiv

/-! #### What each function does -/

variable {cfg : Config} {pc : ProbeConfig} {self : IPPort} {s' : AckState} {pkts : List Packet}

theorem probeStart_spec {node : nodeState} (h : s.probeStart pc node = .ok s') :
    ∃ run : probeRun, run.ident = (s.sequenceNum + 1, node.Node.Name) ∧ run.msgs = [] ∧
      run.phase = .installing s.timers.length ∧
      s' = ({ s with sequenceNum := s.sequenceNum + 1, probes := s.probes ++ [run] }).setProbeChannels
        (s.sequenceNum + 1) s.probes.length := by
  unfold probeStart at h
  split at h
  · cases h
  · cases h
    exact ⟨_, rfl, rfl, rfl, rfl⟩

/-- `probeNode` panics only at `make(chan ackMessage, IndirectChecks+1)`. -/
theorem probeStart_ok (hcap : 0 ≤ pc.IndirectChecks + 1) (node : nodeState) :
    ∃ s', s.probeStart pc node = .ok s' := by
  unfold probeStart
  rw [if_neg (Int64.not_lt.mpr hcap)]
  exact ⟨_, rfl⟩

theorem probeSend_spec (cfg : Config) (self : IPPort) (ch : Nat) (res : SendResult) :
    s.probeSend cfg self ch res = (s, []) ∨
      ∃ p t g, s.probes[ch]? = some p ∧ p.phase = .installing t ∧
        (s.probeSend cfg self ch res).1 = (s.armTimer t).modifyProbe ch g ∧
        (∀ q, (g q).ident = q.ident ∧ (g q).ackCh = q.ackCh ∧ (g q).phase.Sent) ∧
        ∀ pkt ∈ (s.probeSend cfg self ch res).2,
          pkt = ⟨self, p.node.Node.ipPort, .ping (probePing cfg self p.node p.seqNo)⟩ := by
  unfold probeSend
  split
  · next p hp =>
    split
    · next t hph =>
      refine Or.inr ⟨p, t, ?_⟩
      split
      · exact ⟨_, hp, hph, rfl, fun q => ⟨rfl, rfl, by simp [probePhase.Sent]⟩, by simp⟩
      · cases res
        · exact ⟨_, hp, hph, rfl, fun q => ⟨rfl, rfl, by simp [probePhase.Sent]⟩, by simp⟩
        · exact ⟨_, hp, hph, rfl, fun q => ⟨rfl, rfl, by simp [probePhase.Sent]⟩, by simp⟩
        · exact ⟨_, hp, hph, rfl, fun q => ⟨rfl, rfl, by simp [probePhase.Sent]⟩, by simp⟩
    · exact Or.inl rfl
  · exact Or.inl rfl

theorem invokeAckHandler_of_none {a : ackResp} (hk : s.ackHandlers.lookup a.SeqNo = none) :
    s.invokeAckHandler a = { s with ackHandlers := s.ackHandlers.erase a.SeqNo } := by
  simp [invokeAckHandler, hk]

theorem invokeAckHandler_of_some {a : ackResp} {ah : ackHandler}
    (hk : s.ackHandlers.lookup a.SeqNo = some ah) :
    s.invokeAckHandler a =
      { s with ackHandlers := s.ackHandlers.erase a.SeqNo, invoking := some ⟨ah, a.Payload⟩ } := by
  simp [invokeAckHandler, hk]

/-- `ah.timer.Stop()` on a timer that `time.AfterFunc` has not yet stored. -/
theorem invokeAckFn_of_unstarted {iv : ackInvocation} (hiv : s.invoking = some iv)
    {τ : ackTimer} (hτ : s.timers[iv.ah.timer]? = some τ) (hun : τ.status = .unstarted)
    (stopped : Bool) :
    s.invokeAckFn cfg pc self stopped = .error ⟨"invalid memory address or nil pointer dereference"⟩ := by
  obtain ⟨ah, payload⟩ := iv
  simp [invokeAckFn, hiv, hτ, hun]

/-- What the rest of `invokeAckHandler` does when it returns: the invocation is over, the
    handler's timer stopped or left, and the closure wrote its run, or closed its call's
    channel and forwarded the ack. -/
theorem invokeAckFn_spec {stopped : Bool} (hok : s.invokeAckFn cfg pc self stopped = .ok (s', pkts)) :
    ∃ s₁ : AckState, s₁.ackHandlers = s.ackHandlers ∧ s₁.invoking = none ∧
      s₁.probes = s.probes ∧ s₁.relays = s.relays ∧ s₁.sequenceNum = s.sequenceNum ∧
      (s₁.timers = s.timers ∨ ∃ iv τ, s.invoking = some iv ∧ s.timers[iv.ah.timer]? = some τ ∧
        τ.status ≠ .unstarted ∧ s₁.timers = s.timers.modify iv.ah.timer ackTimer.disarm) ∧
      ((s' = s₁ ∧ pkts = []) ∨
        (∃ iv ch, s.invoking = some iv ∧ iv.ah.fn = .probe ch ∧
          s' = s₁.modifyProbe ch (probeRun.offerAck pc.chanCap · iv.payload) ∧ pkts = []) ∨
        (∃ iv r ρ, s.invoking = some iv ∧ iv.ah.fn = .relay r ∧ s.relays[r]? = some ρ ∧
          s' = { s₁ with relays := s₁.relays.set r { ρ with cancelled := true } } ∧
          pkts = sendTo cfg self ρ.indAddr ρ.sourceNode (.ack ⟨ρ.seqNo, []⟩))) := by
  unfold invokeAckFn at hok
  rcases hiv : s.invoking with _ | ⟨ah, payload⟩
  · simp only [hiv] at hok
    cases hok
    exact ⟨s, rfl, hiv, rfl, rfl, rfl, Or.inl rfl, Or.inl ⟨rfl, rfl⟩⟩
  simp only [hiv] at hok
  rcases hτ : s.timers[ah.timer]? with _ | τ
  · simp only [hτ] at hok
    cases hok
    exact ⟨{ s with invoking := none }, rfl, rfl, rfl, rfl, rfl, Or.inl rfl, Or.inl ⟨rfl, rfl⟩⟩
  simp only [hτ] at hok
  by_cases hst : τ.status = .unstarted
  · simp [hst] at hok
  simp only [hst, if_false] at hok
  -- the timer stopped, unless its function already started
  refine ⟨if stopped = true then
      { s with invoking := none, timers := s.timers.modify ah.timer ackTimer.disarm }
    else { s with invoking := none },
    by split <;> rfl, by split <;> rfl, by split <;> rfl, by split <;> rfl, by split <;> rfl,
    by split
       · exact Or.inr ⟨⟨ah, payload⟩, τ, rfl, hτ, hst, rfl⟩
       · exact Or.inl rfl, ?_⟩
  rcases hfn : ah.fn with ch | r
  · simp only [hfn] at hok
    cases hok
    exact Or.inr (Or.inl ⟨⟨ah, payload⟩, ch, rfl, hfn, by split <;> rfl, rfl⟩)
  simp only [hfn] at hok
  have hrel : (if stopped = true then
      { s with invoking := none, timers := s.timers.modify ah.timer ackTimer.disarm }
    else { s with invoking := none }).relays = s.relays := by split <;> rfl
  split at hok
  · cases hok
    exact Or.inl ⟨by split <;> rfl, rfl⟩
  · next ρ hρ =>
    split at hok
    · cases hok
    · cases hok
      exact Or.inr (Or.inr ⟨⟨ah, payload⟩, r, ρ, rfl, hfn, by rw [← hrel]; exact hρ,
        by split <;> rfl, rfl⟩)

theorem fireTimer_spec (pc : ProbeConfig) (t : Nat) :
    s.fireTimer pc t = s ∨
      ∃ τ, s.timers[t]? = some τ ∧ τ.status = .armed ∧
        (τ.probe = none ∧ s.fireTimer pc t = { s with
            ackHandlers := s.ackHandlers.erase τ.seqNo
            timers := s.timers.modify t ackTimer.disarm } ∨
          ∃ ch, τ.probe = some ch ∧ s.fireTimer pc t = ({ s with
            ackHandlers := s.ackHandlers.erase τ.seqNo
            timers := s.timers.modify t ackTimer.disarm } : AckState).modifyProbe ch
              (probeRun.offerTimeout pc.chanCap)) := by
  unfold fireTimer
  split
  · next τ hτ =>
    split
    · next harm =>
      refine Or.inr ⟨τ, hτ, harm, ?_⟩
      split
      · next ch hch => exact Or.inr ⟨ch, hch, rfl⟩
      · next hch => exact Or.inl ⟨hch, rfl⟩
    · exact Or.inl rfl
  · exact Or.inl rfl

theorem invokeNackHandler_spec (pc : ProbeConfig) (n : nackResp) :
    s.invokeNackHandler pc n = s ∨
      ∃ ch, s.invokeNackHandler pc n = s.modifyProbe ch (probeRun.offerNack pc.chanCap) := by
  unfold invokeNackHandler
  split
  · exact Or.inr ⟨_, rfl⟩
  · exact Or.inl rfl

theorem nackGoroutine_spec (cfg : Config) (self : IPPort) (r : Nat) (timeout : Bool) :
    s.nackGoroutine cfg self r timeout = (s, []) ∨
      ∃ ρ, s.relays[r]? = some ρ ∧
        (s.nackGoroutine cfg self r timeout).1 =
          { s with relays := s.relays.set r { ρ with nackWaiting := false } } ∧
        ∀ pkt ∈ (s.nackGoroutine cfg self r timeout).2, ∃ n, pkt.msg = .nack n := by
  unfold nackGoroutine
  split
  · next ρ hρ =>
    split
    · split
      · refine Or.inr ⟨ρ, hρ, rfl, fun pkt hpkt => ?_⟩
        unfold sendTo at hpkt
        split at hpkt
        · cases hpkt
        · rw [List.mem_singleton] at hpkt
          exact ⟨_, by rw [hpkt]⟩
      · split
        · exact Or.inr ⟨ρ, hρ, rfl, fun _ h => by cases h⟩
        · exact Or.inl rfl
    · exact Or.inl rfl
  · exact Or.inl rfl

theorem mem_handlePing {q : ping} {from_ : IPPort} {pkt : Packet}
    (h : pkt ∈ handlePing cfg pc self q from_) :
    Answers cfg q ∧
      pkt = ⟨self, replyAddr q.SourceAddr q.SourcePort from_, .ack ⟨q.SeqNo, pc.Ping.getD []⟩⟩ := by
  unfold handlePing sendTo at h
  split at h
  · split at h
    · cases h
    · exact ⟨by assumption, List.mem_singleton.mp h⟩
  · cases h

theorem handleIndirectPing_spec (cfg : Config) (self : IPPort) (ind : indirectPingReq)
    (from_ : IPPort) :
    ∃ call : relayRun,
      call.ident =
        ⟨ind.SeqNo, ind.Node, replyAddr ind.SourceAddr ind.SourcePort from_, s.sequenceNum + 1⟩ ∧
      call.cancelled = false ∧
      (s.handleIndirectPing cfg self ind from_).1 =
        ({ s with sequenceNum := s.sequenceNum + 1, relays := s.relays ++ [call] }).setAckHandler
          (s.sequenceNum + 1) s.relays.length ∧
      ∀ pkt ∈ (s.handleIndirectPing cfg self ind from_).2,
        pkt.src = self ∧
          pkt.msg = .ping ⟨s.sequenceNum + 1, ind.Node, self.ip, self.port, cfg.Name⟩ := by
  refine ⟨_, ?_, rfl, rfl, fun pkt hpkt => ?_⟩
  · simp only [relayRun.ident]
    split <;> rfl
  · simp only [handleIndirectPing, nextSeqNo, sendTo] at hpkt
    split_ifs at hpkt <;> simp at hpkt <;> simp [hpkt]

theorem probeRemoteFailure_spec (cfg : Config) (pc : ProbeConfig) (self : IPPort) (ch : Nat)
    (kNodes : List Node) :
    s.probeRemoteFailure cfg pc self ch kNodes = (s, []) ∨
      ∃ p q, s.probes[ch]? = some p ∧ q.ident = p.ident ∧ q.msgs = p.msgs ∧ p.phase = .failing ∧
        q.phase = .indirect ∧
        (s.probeRemoteFailure cfg pc self ch kNodes).1 = { s with probes := s.probes.set ch q } ∧
        ∀ pkt ∈ (s.probeRemoteFailure cfg pc self ch kNodes).2, pkt.src = self ∧
          ∃ ind, pkt.msg = .indirectPing ind ∧ (ind.SeqNo, ind.Node) = p.ident ∧
            ind.SourceAddr = self.ip ∧ ind.SourcePort = self.port := by
  unfold probeRemoteFailure
  split
  · next p hp =>
    split
    · next hph =>
      refine Or.inr ⟨p, { p with
          expectedNacks := (kNodes.filter fun peer => decide (peer.PMax ≥ 4)).length
          tcp := !(pc.DisableTcpPings || pc.DisableTcpPingsForNode.any (· p.node.Node.Name)) &&
            decide (p.node.Node.PMax ≥ 3)
          phase := .indirect }, hp, rfl, by simp [probeRun.msgs, hph, probePhase.held], hph, rfl,
          rfl, fun pkt hpkt => ?_⟩
      simp only [List.mem_flatMap, sendTo] at hpkt
      obtain ⟨peer, -, hpkt⟩ := hpkt
      split_ifs at hpkt
      · cases hpkt
      · rw [List.mem_singleton] at hpkt
        subst hpkt
        exact ⟨rfl, _, rfl, rfl, rfl, rfl⟩
    · exact Or.inl rfl
  · exact Or.inl rfl

/-! #### Only the packet listener starts or ends an invocation -/

theorem probeStart_invoking {node : nodeState} (hok : s.probeStart pc node = .ok s') :
    s'.invoking = s.invoking := by
  obtain ⟨run, -, -, -, rfl⟩ := probeStart_spec hok
  rfl

@[simp] theorem probeSend_invoking (cfg : Config) (self : IPPort) (ch : Nat) (res : SendResult) :
    (s.probeSend cfg self ch res).1.invoking = s.invoking := by
  rcases probeSend_spec (s := s) cfg self ch res with heq | ⟨p, t, g, -, -, heq, -, -⟩
  · rw [heq]
  · rw [heq]
    rfl

@[simp] theorem probeRemoteFailure_invoking (cfg : Config) (pc : ProbeConfig) (self : IPPort)
    (ch : Nat) (kNodes : List Node) :
    (s.probeRemoteFailure cfg pc self ch kNodes).1.invoking = s.invoking := by
  rcases probeRemoteFailure_spec (s := s) cfg pc self ch kNodes with
    heq | ⟨p, q, -, -, -, -, -, heq, -⟩ <;> rw [heq]

@[simp] theorem fireTimer_invoking (pc : ProbeConfig) (t : Nat) :
    (s.fireTimer pc t).invoking = s.invoking := by
  rcases fireTimer_spec (s := s) pc t with heq | ⟨τ, -, -, ⟨-, heq⟩ | ⟨ch, -, heq⟩⟩ <;> rw [heq]
  rfl

@[simp] theorem nackGoroutine_invoking (cfg : Config) (self : IPPort) (r : Nat) (timeout : Bool) :
    (s.nackGoroutine cfg self r timeout).1.invoking = s.invoking := by
  rcases nackGoroutine_spec (s := s) cfg self r timeout with heq | ⟨ρ, -, heq, -⟩ <;> rw [heq]

/-- A message other than an ack leaves the packet listener as it was. -/
theorem handleMsg_invoking (cfg : Config) (pc : ProbeConfig) (self : IPPort) (from_ : IPPort)
    {m : ProbeMsg} (hm : ∀ a, m ≠ .ack a) :
    (s.handleMsg cfg pc self from_ m).1.invoking = s.invoking := by
  cases m with
  | ping q => rfl
  | indirectPing ind =>
    obtain ⟨call, -, -, heq, -⟩ := handleIndirectPing_spec (s := s) cfg self ind from_
    show (s.handleIndirectPing cfg self ind from_).1.invoking = s.invoking
    rw [heq]
    rfl
  | ack a => exact absurd rfl (hm a)
  | nack n =>
    show (s.invokeNackHandler pc n).invoking = s.invoking
    rcases invokeNackHandler_spec (s := s) pc n with heq | ⟨ch, heq⟩
    · rw [heq]
    · rw [heq]
      rfl

/-! #### The handler invariant -/

theorem Inv.append_probe (h : s.Inv) (run : probeRun) :
    { s with probes := s.probes ++ [run] }.Inv where
  probe hk hfn := by
    obtain ⟨p, hp, hseq⟩ := h.probe hk hfn
    exact ⟨p, List.getElem?_append_left (List.getElem?_eq_some_iff.mp hp).1 ▸ hp, hseq⟩
  relay := h.relay
  invoking := h.invoking

theorem Inv.append_relay (h : s.Inv) (call : relayRun) :
    { s with relays := s.relays ++ [call] }.Inv where
  probe := h.probe
  relay hk hfn := by
    obtain ⟨ρ, hρ, hseq, hopen⟩ := h.relay hk hfn
    exact ⟨ρ, List.getElem?_append_left (List.getElem?_eq_some_iff.mp hρ).1 ▸ hρ, hseq, hopen⟩
  invoking hiv hfn := by
    obtain ⟨⟨ρ, hρ, hopen⟩, hnone⟩ := h.invoking hiv hfn
    exact ⟨⟨ρ, List.getElem?_append_left (List.getElem?_eq_some_iff.mp hρ).1 ▸ hρ, hopen⟩, hnone⟩

theorem Inv.with_sequenceNum (h : s.Inv) (n : UInt32) : { s with sequenceNum := n }.Inv :=
  ⟨h.probe, h.relay, h.invoking⟩

theorem Inv.armTimer (h : s.Inv) (t : Nat) : (s.armTimer t).Inv :=
  ⟨h.probe, h.relay, h.invoking⟩

/-- A new handler under `k`: a probe closure for a run under `k`, or a relay closure for an
    open call under `k` that the packet listener is not relaying. -/
theorem Inv.install (h : s.Inv) (k : UInt32) (fn : ackFn) (probe : Option Nat)
    (hp : ∀ {ch}, fn = .probe ch → ∃ p, s.probes[ch]? = some p ∧ p.seqNo = k)
    (hr : ∀ {r}, fn = .relay r → (∃ ρ, s.relays[r]? = some ρ ∧ ρ.localSeqNo = k ∧
      ρ.cancelled = false) ∧ ∀ {iv}, s.invoking = some iv → iv.ah.fn ≠ .relay r) :
    (s.install k fn probe).Inv where
  probe {k' ah ch} hk hfn := by
    by_cases hkk : k' = k
    · subst hkk
      simp only [AckState.install, AList.lookup_insert, Option.some.injEq] at hk
      subst hk
      exact hp hfn
    · rw [AckState.install, AList.lookup_insert_ne hkk] at hk
      exact h.probe hk hfn
  relay {k' ah r} hk hfn := by
    by_cases hkk : k' = k
    · subst hkk
      simp only [AckState.install, AList.lookup_insert, Option.some.injEq] at hk
      subst hk
      exact (hr hfn).1
    · rw [AckState.install, AList.lookup_insert_ne hkk] at hk
      exact h.relay hk hfn
  invoking {iv r} hiv hfn := by
    obtain ⟨hρ, hnone⟩ := h.invoking hiv hfn
    refine ⟨hρ, fun {k'} {ah} hk hfn' => ?_⟩
    by_cases hkk : k' = k
    · subst hkk
      simp only [AckState.install, AList.lookup_insert, Option.some.injEq] at hk
      subst hk
      exact (hr hfn').2 hiv hfn
    · rw [AckState.install, AList.lookup_insert_ne hkk] at hk
      exact hnone hk hfn'

theorem probeStart_inv (h : s.Inv) {node : nodeState} (hok : s.probeStart pc node = .ok s') :
    s'.Inv := by
  obtain ⟨run, hid, -, -, rfl⟩ := probeStart_spec hok
  refine ((h.with_sequenceNum _).append_probe run).install _ _ _
    (fun hfn => ?_) (fun hfn => by cases hfn)
  cases hfn
  exact ⟨run, by simp, congrArg Prod.fst hid⟩

theorem probeSend_inv (h : s.Inv) (cfg : Config) (self : IPPort) (ch : Nat) (res : SendResult) :
    (s.probeSend cfg self ch res).1.Inv := by
  rcases probeSend_spec (s := s) cfg self ch res with heq | ⟨p, t, g, -, -, heq, hg, -⟩ <;>
    rw [heq]
  · exact h
  · exact (h.armTimer t).modifyProbe ch fun q => probeRun.seqNo_eq_of_ident (hg q).1

theorem invokeAckHandler_inv (h : s.Inv) (a : ackResp) : (s.invokeAckHandler a).Inv := by
  cases hk : s.ackHandlers.lookup a.SeqNo with
  | none =>
    rw [invokeAckHandler_of_none hk]
    exact h.of_frame lookup_erase_sub id (fun _ => rfl) (fun _ => rfl)
  | some ah =>
    rw [invokeAckHandler_of_some hk]
    refine ⟨fun hk' hfn => h.probe (lookup_erase_sub hk') hfn,
      fun hk' hfn => h.relay (lookup_erase_sub hk') hfn, fun {iv r} hiv hfn => ?_⟩
    cases hiv
    -- the handler taken out was the only one of its call
    obtain ⟨ρ, hρ, hseq, hopen⟩ := h.relay hk hfn
    refine ⟨⟨ρ, hρ, hopen⟩, fun {k' ah'} hk' hfn' => ?_⟩
    obtain ⟨ρ', hρ', hseq', -⟩ := h.relay (lookup_erase_sub hk') hfn'
    rw [hρ, Option.some.injEq] at hρ'
    subst hρ'
    rw [← hseq', hseq, AList.lookup_erase] at hk'
    cases hk'

theorem invokeAckFn_inv (h : s.Inv) {stopped : Bool}
    (hok : s.invokeAckFn cfg pc self stopped = .ok (s', pkts)) : s'.Inv := by
  obtain ⟨s₁, hl, hi, hp, hr, -, -, hcase⟩ := invokeAckFn_spec hok
  have h₁ : s₁.Inv := h.of_frame (fun hk => hl ▸ hk) (fun hiv => by rw [hi] at hiv; cases hiv)
    (fun _ => by rw [hp]) (fun _ => by rw [hr])
  rcases hcase with ⟨rfl, -⟩ | ⟨iv, ch, -, -, rfl, -⟩ | ⟨iv, r, ρ, hiv, hfn, -, rfl, -⟩
  · exact h₁
  · exact h₁.modifyProbe ch fun _ => rfl
  · exact h₁.cancel ρ (fun hk => (h.invoking hiv hfn).2 (hl ▸ hk)) hi

theorem fireTimer_inv (h : s.Inv) (pc : ProbeConfig) (t : Nat) : (s.fireTimer pc t).Inv := by
  rcases fireTimer_spec (s := s) pc t with heq | ⟨τ, -, -, hcase⟩
  · rw [heq]
    exact h
  have h₁ : Inv { s with
      ackHandlers := s.ackHandlers.erase τ.seqNo
      timers := s.timers.modify t ackTimer.disarm } :=
    h.of_frame lookup_erase_sub id (fun _ => rfl) (fun _ => rfl)
  rcases hcase with ⟨-, heq⟩ | ⟨ch, -, heq⟩ <;> rw [heq]
  · exact h₁
  · exact h₁.modifyProbe ch fun _ => rfl

theorem invokeNackHandler_inv (h : s.Inv) (pc : ProbeConfig) (n : nackResp) :
    (s.invokeNackHandler pc n).Inv := by
  rcases invokeNackHandler_spec (s := s) pc n with heq | ⟨ch, heq⟩ <;> rw [heq]
  · exact h
  · exact h.modifyProbe ch fun _ => rfl

theorem nackGoroutine_inv (h : s.Inv) (cfg : Config) (self : IPPort) (r : Nat) (timeout : Bool) :
    (s.nackGoroutine cfg self r timeout).1.Inv := by
  rcases nackGoroutine_spec (s := s) cfg self r timeout with heq | ⟨ρ, hρ, heq, -⟩ <;> rw [heq]
  · exact h
  · exact h.of_frame id id (fun _ => rfl) (map_set_eq hρ rfl)

theorem handleIndirectPing_inv (h : s.Inv) (cfg : Config) (self : IPPort) (ind : indirectPingReq)
    (from_ : IPPort) : (s.handleIndirectPing cfg self ind from_).1.Inv := by
  obtain ⟨call, hid, hc, heq, -⟩ := handleIndirectPing_spec (s := s) cfg self ind from_
  rw [heq]
  refine (((h.with_sequenceNum _).append_relay call).install _ _ _ (fun hfn => by cases hfn)
    (fun hfn => ?_)).armTimer _
  cases hfn
  refine ⟨⟨call, by simp, congrArg RelayIdent.localSeqNo hid, hc⟩, fun {iv} hiv hfn => ?_⟩
  -- the call is new, so the packet listener is relaying another one
  obtain ⟨⟨ρ, hρ, -⟩, -⟩ := h.invoking hiv hfn
  exact absurd (List.getElem?_eq_some_iff.mp hρ).1 (lt_irrefl _)

theorem probeRemoteFailure_inv (h : s.Inv) (cfg : Config) (pc : ProbeConfig) (self : IPPort)
    (ch : Nat) (kNodes : List Node) : (s.probeRemoteFailure cfg pc self ch kNodes).1.Inv := by
  rcases probeRemoteFailure_spec (s := s) cfg pc self ch kNodes with
    heq | ⟨p, q, hp, hid, -, -, -, heq, -⟩ <;> rw [heq]
  · exact h
  · exact h.of_frame id id (map_set_eq hp (probeRun.seqNo_eq_of_ident hid)) (fun _ => rfl)

theorem handleMsg_inv (h : s.Inv) (from_ : IPPort) (m : ProbeMsg) :
    (s.handleMsg cfg pc self from_ m).1.Inv := by
  cases m with
  | ping q => exact h
  | indirectPing ind => exact handleIndirectPing_inv h cfg self ind from_
  | ack a => exact invokeAckHandler_inv h a
  | nack n => exact invokeNackHandler_inv h pc n

/-! #### The timers -/

theorem TimerInv.with_sequenceNum (h : s.TimerInv) (n : UInt32) :
    { s with sequenceNum := n }.TimerInv :=
  ⟨h.handler, h.invoking, h.installing⟩

theorem TimerInv.append_relay (h : s.TimerInv) (call : relayRun) :
    { s with relays := s.relays ++ [call] }.TimerInv :=
  ⟨h.handler, h.invoking, h.installing⟩

theorem getElem?_append_of {α : Type} {l : List α} {i : Nat} {a : α} (h : l[i]? = some a)
    (l' : List α) : (l ++ l')[i]? = some a :=
  List.getElem?_append_left (List.getElem?_eq_some_iff.mp h).1 ▸ h

/-- A new run and the handlers `setProbeChannels` installs for it, with a timer not yet
    started. -/
theorem TimerInv.append_probe (h : s.TimerInv) (n : UInt32) {run : probeRun}
    (hrun : run.phase = .installing s.timers.length) (k : UInt32) :
    ({ s with sequenceNum := n, probes := s.probes ++ [run] }.setProbeChannels k
      s.probes.length).TimerInv where
  handler {k' ah} hk := by
    simp only [setProbeChannels, AckState.install] at hk
    by_cases hkk : k' = k
    · subst hkk
      rw [AList.lookup_insert, Option.some.injEq] at hk
      subst hk
      exact ⟨⟨k', some s.probes.length, .unstarted⟩, by simp [setProbeChannels, AckState.install],
        rfl, fun _ => ⟨_, run, rfl, by simp [setProbeChannels, AckState.install],
          by simp [hrun, probePhase.installingAt]⟩⟩
    · rw [AList.lookup_insert_ne hkk] at hk
      exact (h.handler hk).mono (fun hτ => getElem?_append_of hτ _)
        (fun hp => getElem?_append_of hp _)
  invoking hiv := (h.invoking hiv).mono (fun hτ => getElem?_append_of hτ _)
    (fun hp => getElem?_append_of hp _)
  installing {ch p t} hp hinst := by
    change (s.probes ++ [run])[ch]? = some p at hp
    rcases lt_or_ge ch s.probes.length with hlt | hge
    · rw [List.getElem?_append_left hlt] at hp
      obtain ⟨τ, hτ, hprobe, hun⟩ := h.installing hp hinst
      exact ⟨τ, getElem?_append_of hτ _, hprobe, hun⟩
    · -- the new run installs the timer just added
      have hch : ch = s.probes.length := by
        have := (List.getElem?_eq_some_iff.mp hp).1
        simp at this
        omega
      subst hch
      simp only [List.getElem?_append_right (le_refl _), Nat.sub_self, List.getElem?_cons_zero,
        Option.some.injEq] at hp
      subst hp
      rw [hrun, probePhase.installingAt, Option.some.injEq] at hinst
      subst hinst
      exact ⟨⟨k, some s.probes.length, .unstarted⟩, by simp [setProbeChannels, AckState.install],
        rfl, rfl⟩

theorem probeStart_timerInv (h : s.TimerInv) {node : nodeState}
    (hok : s.probeStart pc node = .ok s') : s'.TimerInv := by
  obtain ⟨run, -, -, hph, rfl⟩ := probeStart_spec hok
  exact h.append_probe _ hph _

/-- The run starts the timer it installed, and goes on past its ping. -/
theorem probeSend_timerInv (h : s.TimerInv) (cfg : Config) (self : IPPort) (ch : Nat)
    (res : SendResult) : (s.probeSend cfg self ch res).1.TimerInv := by
  rcases probeSend_spec (s := s) cfg self ch res with heq | ⟨p, t, g, hp, hph, heq, hg, -⟩ <;>
    rw [heq]
  · exact h
  have hgi : ∀ q, (g q).phase.installingAt = none := fun q => by
    rcases (hg q).2.2 with h' | h' | h' <;> rw [h'] <;> rfl
  have hpt : p.phase.installingAt = some t := by rw [hph]; rfl
  obtain ⟨τ₀, hτ₀, hprobe₀, -⟩ := h.installing hp hpt
  -- the runs after the send: only `ch` changed, and it installs nothing now
  have hrun : ∀ {ch' : Nat} {q : probeRun}, ((s.armTimer t).modifyProbe ch g).probes[ch']? = some q →
      q.phase.installingAt = some t → False := by
    intro ch' q hq hinst
    simp only [modifyProbe, armTimer, List.getElem?_modify] at hq
    obtain ⟨q₀, hq₀, hqq⟩ := Option.map_eq_some_iff.mp hq
    split at hqq
    · subst hqq
      rw [hgi] at hinst
      cases hinst
    · subst hqq
      obtain ⟨τ, hτ, hprobe, -⟩ := h.installing hq₀ hinst
      rw [hτ₀, Option.some.injEq] at hτ
      subst hτ
      rw [hprobe₀, Option.some.injEq] at hprobe
      contradiction
  have htimer : ∀ {t'} {τ : ackTimer}, s.timers[t']? = some τ → t' ≠ t →
      ((s.armTimer t).modifyProbe ch g).timers[t']? = some τ := fun hτ hne => by
    simp [modifyProbe, armTimer, List.getElem?_modify_ne _ _ (Ne.symm hne), hτ]
  -- a timer other than the one started fits as before; that one is started now
  have hfits : ∀ {ah : ackHandler}, s.TimerFits ah →
      ((s.armTimer t).modifyProbe ch g).TimerFits ah := by
    intro ah ⟨τ, hτ, hprobe, hun⟩
    by_cases htt : ah.timer = t
    · have hτt : s.timers[t]? = some τ := htt ▸ hτ
      refine ⟨{ τ with status := .armed }, ?_, hprobe, fun hu => by cases hu⟩
      rw [htt]
      simp [modifyProbe, armTimer, hτt]
    · refine ⟨τ, htimer hτ htt, hprobe, fun hu => ?_⟩
      obtain ⟨ch', q, hfn, hq, hinst⟩ := hun hu
      by_cases hcc : ch = ch'
      · subst hcc
        rw [hp, Option.some.injEq] at hq
        subst hq
        rw [hpt, Option.some.injEq] at hinst
        exact absurd hinst.symm htt
      · refine ⟨ch', q, hfn, ?_, hinst⟩
        simp [modifyProbe, armTimer, List.getElem?_modify_ne _ _ hcc, hq]
  refine ⟨fun hk => hfits (h.handler hk), fun hiv => hfits (h.invoking hiv),
    fun {ch' q t'} hq hinst => ?_⟩
  -- a run still installing installs another timer, which the start leaves alone
  have hne : t' ≠ t := fun htt => hrun hq (htt ▸ hinst)
  simp only [modifyProbe, armTimer, List.getElem?_modify] at hq
  obtain ⟨q₀, hq₀, hqq⟩ := Option.map_eq_some_iff.mp hq
  have hq₀' : q₀.phase.installingAt = some t' := by
    split at hqq
    · subst hqq
      rw [hgi] at hinst
      cases hinst
    · rw [hqq]
      exact hinst
  obtain ⟨τ, hτ, hprobe, hun⟩ := h.installing hq₀ hq₀'
  exact ⟨τ, htimer hτ hne, hprobe, hun⟩

theorem invokeAckHandler_timerInv (h : s.TimerInv) (a : ackResp) :
    (s.invokeAckHandler a).TimerInv := by
  cases hk : s.ackHandlers.lookup a.SeqNo with
  | none =>
    rw [invokeAckHandler_of_none hk]
    exact h.of_frame lookup_erase_sub id (timers_same rfl) (fun _ => rfl)
  | some ah =>
    rw [invokeAckHandler_of_some hk]
    refine ⟨fun hk' => h.handler (lookup_erase_sub hk'), fun {iv} hiv => ?_, h.installing⟩
    cases hiv
    exact h.handler hk

theorem invokeAckFn_timerInv (h : s.TimerInv) {stopped : Bool}
    (hok : s.invokeAckFn cfg pc self stopped = .ok (s', pkts)) : s'.TimerInv := by
  obtain ⟨s₁, hl, hi, hp, hr, -, ht, hcase⟩ := invokeAckFn_spec hok
  have h₁ : s₁.TimerInv := by
    refine h.of_frame (fun hk => hl ▸ hk) (fun hiv => by rw [hi] at hiv; cases hiv) ?_
      (fun _ => by rw [hp])
    rcases ht with ht | ⟨iv, τ, -, hτ, hst, ht⟩
    · exact timers_same ht
    · intro t' τ' hτ'
      rw [ht]
      exact timers_disarm hτ hst hτ'
  rcases hcase with ⟨rfl, -⟩ | ⟨iv, ch, -, -, rfl, -⟩ | ⟨iv, r, ρ, -, -, -, rfl, -⟩
  · exact h₁
  · exact h₁.modifyProbe ch fun _ => rfl
  · exact ⟨h₁.handler, h₁.invoking, h₁.installing⟩

theorem fireTimer_timerInv (h : s.TimerInv) (pc : ProbeConfig) (t : Nat) :
    (s.fireTimer pc t).TimerInv := by
  rcases fireTimer_spec (s := s) pc t with heq | ⟨τ, hτ, harm, hcase⟩
  · rw [heq]
    exact h
  -- the timer fires only while armed, so it had started
  have h₁ : TimerInv { s with
      ackHandlers := s.ackHandlers.erase τ.seqNo
      timers := s.timers.modify t ackTimer.disarm } :=
    h.of_frame lookup_erase_sub id (timers_disarm hτ (by rw [harm]; simp)) (fun _ => rfl)
  rcases hcase with ⟨-, heq⟩ | ⟨ch, -, heq⟩ <;> rw [heq]
  · exact h₁
  · exact h₁.modifyProbe ch fun _ => rfl

theorem invokeNackHandler_timerInv (h : s.TimerInv) (pc : ProbeConfig) (n : nackResp) :
    (s.invokeNackHandler pc n).TimerInv := by
  rcases invokeNackHandler_spec (s := s) pc n with heq | ⟨ch, heq⟩ <;> rw [heq]
  · exact h
  · exact h.modifyProbe ch fun _ => rfl

theorem nackGoroutine_timerInv (h : s.TimerInv) (cfg : Config) (self : IPPort) (r : Nat)
    (timeout : Bool) : (s.nackGoroutine cfg self r timeout).1.TimerInv := by
  rcases nackGoroutine_spec (s := s) cfg self r timeout with heq | ⟨ρ, -, heq, -⟩ <;> rw [heq]
  · exact h
  · exact ⟨h.handler, h.invoking, h.installing⟩

/-- `setAckHandler` starts the timer of the handler it installs at once. -/
theorem TimerInv.setAckHandler (h : s.TimerInv) (k : UInt32) (r : Nat) :
    (s.setAckHandler k r).TimerInv := by
  have hold : ∀ {t : Nat} {τ : ackTimer}, s.timers[t]? = some τ →
      (s.setAckHandler k r).timers[t]? = some τ := fun {t τ} hτ => by
    simp [AckState.setAckHandler, AckState.install, armTimer, getElem?_append_of hτ]
  have hfits : ∀ {ah : ackHandler}, s.TimerFits ah → (s.setAckHandler k r).TimerFits ah :=
    fun h => h.mono hold fun hp => hp
  refine ⟨fun {k' ah} hk => ?_, fun hiv => hfits (h.invoking hiv), fun hp hinst => ?_⟩
  · simp only [AckState.setAckHandler, AckState.install, armTimer] at hk
    by_cases hkk : k' = k
    · subst hkk
      rw [AList.lookup_insert, Option.some.injEq] at hk
      subst hk
      exact ⟨⟨k', none, .armed⟩, by simp [AckState.setAckHandler, AckState.install, armTimer], rfl,
        fun hu => by cases hu⟩
    · rw [AList.lookup_insert_ne hkk] at hk
      exact hfits (h.handler hk)
  · obtain ⟨τ, hτ, hprobe, hun⟩ := h.installing hp hinst
    exact ⟨τ, hold hτ, hprobe, hun⟩

theorem handleIndirectPing_timerInv (h : s.TimerInv) (cfg : Config) (self : IPPort)
    (ind : indirectPingReq) (from_ : IPPort) :
    (s.handleIndirectPing cfg self ind from_).1.TimerInv := by
  obtain ⟨call, -, -, heq, -⟩ := handleIndirectPing_spec (s := s) cfg self ind from_
  rw [heq]
  exact ((h.with_sequenceNum _).append_relay call).setAckHandler _ _

theorem probeRemoteFailure_timerInv (h : s.TimerInv) (cfg : Config) (pc : ProbeConfig)
    (self : IPPort) (ch : Nat) (kNodes : List Node) :
    (s.probeRemoteFailure cfg pc self ch kNodes).1.TimerInv := by
  rcases probeRemoteFailure_spec (s := s) cfg pc self ch kNodes with
    heq | ⟨p, q, hp, -, -, hph, hqph, heq, -⟩ <;> rw [heq]
  · exact h
  · exact h.of_frame id id (timers_same rfl) (map_set_eq hp (by rw [hph, hqph]; rfl))

theorem handleMsg_timerInv (h : s.TimerInv) (from_ : IPPort) (m : ProbeMsg) :
    (s.handleMsg cfg pc self from_ m).1.TimerInv := by
  cases m with
  | ping q => exact h
  | indirectPing ind => exact handleIndirectPing_timerInv h cfg self ind from_
  | ack a => exact invokeAckHandler_timerInv h a
  | nack n => exact invokeNackHandler_timerInv h pc n

/-! ### What a member has issued -/

/-- The identities of the member's probe runs. -/
def probeIds (s : AckState) : List (UInt32 × String) := s.probes.map probeRun.ident

/-- The identities of the member's `handleIndirectPing` calls. -/
def relayIds (s : AckState) : List RelayIdent := s.relays.map relayRun.ident

/-- The sequence numbers the member has put on its pings, with the name each ping names: one
    per probe run and one per `handleIndirectPing` call. -/
def issued (s : AckState) : List (UInt32 × String) :=
  s.probeIds ++ s.relayIds.map fun i => (i.localSeqNo, i.node)

/-- How a step changes what a member has issued: not at all, or by one probe run or one call
    under the next sequence number. -/
inductive Issues (s s' : AckState) : Prop
  | same : s'.probeIds = s.probeIds → s'.relayIds = s.relayIds →
      s'.sequenceNum = s.sequenceNum → Issues s s'
  | probe (n : String) : s'.probeIds = s.probeIds ++ [(s.sequenceNum + 1, n)] →
      s'.relayIds = s.relayIds → s'.sequenceNum = s.sequenceNum + 1 → Issues s s'
  | relay (i : RelayIdent) : i.localSeqNo = s.sequenceNum + 1 → s'.probeIds = s.probeIds →
      s'.relayIds = s.relayIds ++ [i] → s'.sequenceNum = s.sequenceNum + 1 → Issues s s'

theorem Issues.probeIds_subset (h : Issues s s') : s.probeIds ⊆ s'.probeIds := by
  cases h with
  | same hp _ _ => rw [hp]; exact List.Subset.refl _
  | probe n hp _ _ => rw [hp]; exact List.subset_append_left _ _
  | relay i _ hp _ _ => rw [hp]; exact List.Subset.refl _

theorem Issues.relayIds_subset (h : Issues s s') : s.relayIds ⊆ s'.relayIds := by
  cases h with
  | same _ hr _ => rw [hr]; exact List.Subset.refl _
  | probe n _ hr _ => rw [hr]; exact List.Subset.refl _
  | relay i _ _ hr _ => rw [hr]; exact List.subset_append_left _ _

/-- The sequence numbers a member has issued are at most `sequenceNum` and distinct, as long as
    `sequenceNum` does not wrap around. -/
theorem Issues.fresh (h : Issues s s') (hwrap : s.sequenceNum.toNat ≤ s'.sequenceNum.toNat)
    (hf : ∀ k ∈ s.issued, k.1.toNat ≤ s.sequenceNum.toNat) (hn : (s.issued.map Prod.fst).Nodup) :
    (∀ k ∈ s'.issued, k.1.toNat ≤ s'.sequenceNum.toNat) ∧ (s'.issued.map Prod.fst).Nodup := by
  cases h with
  | same hp hr hseq =>
    simp only [issued, hp, hr, hseq] at hf hn ⊢
    exact ⟨hf, hn⟩
  | probe n hp hr hseq =>
    rw [hseq] at hwrap ⊢
    -- the new run's key sits between the runs and the calls
    have hperm : s'.issued.Perm (s.issued ++ [(s.sequenceNum + 1, n)]) := by
      simp only [issued, hp, hr, List.append_assoc, List.singleton_append]
      exact List.Perm.append_left _ (List.perm_append_singleton _ _).symm
    exact fresh_of_perm hperm (toNat_add_one_of_le hwrap) hf hn
  | relay i hi hp hr hseq =>
    rw [hseq] at hwrap ⊢
    have hperm : s'.issued.Perm (s.issued ++ [(s.sequenceNum + 1, i.node)]) := by
      simp [issued, hp, hr, hi]
    exact fresh_of_perm hperm (toNat_add_one_of_le hwrap) hf hn

theorem probeIds_modifyProbe {f : probeRun → probeRun} (hf : ∀ p, (f p).ident = p.ident)
    (ch : Nat) : (s.modifyProbe ch f).probeIds = s.probeIds :=
  List.map_modify_of_forall hf _ _

/-- A step that issues nothing: the runs, the calls and `sequenceNum` stay as they are. -/
structure Keeps (s s' : AckState) : Prop where
  probeIds : s'.probeIds = s.probeIds
  relayIds : s'.relayIds = s.relayIds
  sequenceNum : s'.sequenceNum = s.sequenceNum

theorem Keeps.issues (h : Keeps s s') : Issues s s' := .same h.probeIds h.relayIds h.sequenceNum

theorem Keeps.toNat_le (h : Keeps s s') : s.sequenceNum.toNat ≤ s'.sequenceNum.toNat :=
  le_of_eq (congrArg UInt32.toNat h.sequenceNum.symm)

theorem Keeps.modifyProbe {f : probeRun → probeRun} (hf : ∀ p, (f p).ident = p.ident) (ch : Nat) :
    Keeps s (s.modifyProbe ch f) :=
  ⟨probeIds_modifyProbe hf ch, rfl, rfl⟩

theorem probeStart_ids {node : nodeState} (hok : s.probeStart pc node = .ok s') :
    s'.probeIds = s.probeIds ++ [(s.sequenceNum + 1, node.Node.Name)] ∧
      s'.relayIds = s.relayIds ∧ s'.sequenceNum = s.sequenceNum + 1 := by
  obtain ⟨run, hid, -, -, rfl⟩ := probeStart_spec hok
  exact ⟨by simp [probeIds, setProbeChannels, AckState.install, hid], rfl, rfl⟩

theorem probeStart_issues {node : nodeState} (hok : s.probeStart pc node = .ok s') :
    Issues s s' :=
  have h := probeStart_ids hok
  .probe node.Node.Name h.1 h.2.1 h.2.2

theorem handleIndirectPing_ids (cfg : Config) (self : IPPort) (ind : indirectPingReq)
    (from_ : IPPort) :
    (s.handleIndirectPing cfg self ind from_).1.probeIds = s.probeIds ∧
      (s.handleIndirectPing cfg self ind from_).1.relayIds =
        s.relayIds ++ [⟨ind.SeqNo, ind.Node, replyAddr ind.SourceAddr ind.SourcePort from_,
          s.sequenceNum + 1⟩] ∧
      (s.handleIndirectPing cfg self ind from_).1.sequenceNum = s.sequenceNum + 1 := by
  obtain ⟨call, hid, -, heq, -⟩ := handleIndirectPing_spec (s := s) cfg self ind from_
  rw [heq]
  exact ⟨rfl, by simp [relayIds, setAckHandler, AckState.install, armTimer, hid], rfl⟩

theorem handleIndirectPing_issues (cfg : Config) (self : IPPort) (ind : indirectPingReq)
    (from_ : IPPort) :
    Issues s (s.handleIndirectPing cfg self ind from_).1 :=
  have h := handleIndirectPing_ids (s := s) cfg self ind from_
  .relay _ rfl h.1 h.2.1 h.2.2

theorem probeSend_keeps (cfg : Config) (self : IPPort) (ch : Nat) (res : SendResult) :
    Keeps s (s.probeSend cfg self ch res).1 := by
  rcases probeSend_spec (s := s) cfg self ch res with heq | ⟨p, t, g, -, -, heq, hg, -⟩ <;>
    rw [heq]
  · exact ⟨rfl, rfl, rfl⟩
  · exact ⟨probeIds_modifyProbe (s := s.armTimer t) (fun q => (hg q).1) ch, rfl, rfl⟩

theorem invokeAckHandler_keeps (a : ackResp) : Keeps s (s.invokeAckHandler a) := by
  cases hk : s.ackHandlers.lookup a.SeqNo with
  | none =>
    rw [invokeAckHandler_of_none hk]
    exact ⟨rfl, rfl, rfl⟩
  | some ah =>
    rw [invokeAckHandler_of_some hk]
    exact ⟨rfl, rfl, rfl⟩

theorem invokeAckFn_keeps {stopped : Bool}
    (hok : s.invokeAckFn cfg pc self stopped = .ok (s', pkts)) : Keeps s s' := by
  obtain ⟨s₁, -, -, hp, hr, hseq, -, hcase⟩ := invokeAckFn_spec hok
  have hp' : s₁.probeIds = s.probeIds := congrArg (List.map probeRun.ident) hp
  have hr' : s₁.relayIds = s.relayIds := congrArg (List.map relayRun.ident) hr
  rcases hcase with ⟨rfl, -⟩ | ⟨iv, ch, -, -, rfl, -⟩ | ⟨iv, r, ρ, -, -, hρ, rfl, -⟩
  · exact ⟨hp', hr', hseq⟩
  · exact ⟨(probeIds_modifyProbe (f := (probeRun.offerAck pc.chanCap · iv.payload))
      (fun _ => rfl) ch).trans hp', hr', hseq⟩
  · have hρ₁ : s₁.relays[r]? = some ρ := by rw [hr]; exact hρ
    have hid : relayRun.ident { ρ with cancelled := true } = ρ.ident := rfl
    exact ⟨hp', (List.map_set_of_getElem? hρ₁ hid).trans hr', hseq⟩

theorem fireTimer_keeps (pc : ProbeConfig) (t : Nat) : Keeps s (s.fireTimer pc t) := by
  rcases fireTimer_spec (s := s) pc t with heq | ⟨τ, -, -, ⟨-, heq⟩ | ⟨ch, -, heq⟩⟩ <;> rw [heq]
  · exact ⟨rfl, rfl, rfl⟩
  · exact ⟨rfl, rfl, rfl⟩
  · exact ⟨probeIds_modifyProbe (f := probeRun.offerTimeout pc.chanCap) (fun _ => rfl) ch, rfl,
      rfl⟩

theorem invokeNackHandler_keeps (n : nackResp) : Keeps s (s.invokeNackHandler pc n) := by
  rcases invokeNackHandler_spec (s := s) pc n with heq | ⟨ch, heq⟩ <;> rw [heq]
  · exact ⟨rfl, rfl, rfl⟩
  · exact Keeps.modifyProbe (f := probeRun.offerNack pc.chanCap) (fun _ => rfl) ch

theorem nackGoroutine_keeps (cfg : Config) (self : IPPort) (r : Nat) (timeout : Bool) :
    Keeps s (s.nackGoroutine cfg self r timeout).1 := by
  rcases nackGoroutine_spec (s := s) cfg self r timeout with heq | ⟨ρ, hρ, heq, -⟩ <;>
    rw [heq]
  · exact ⟨rfl, rfl, rfl⟩
  · have hid : relayRun.ident { ρ with nackWaiting := false } = ρ.ident := rfl
    exact ⟨rfl, List.map_set_of_getElem? hρ hid, rfl⟩

theorem probeRemoteFailure_keeps (cfg : Config) (pc : ProbeConfig) (self : IPPort) (ch : Nat)
    (kNodes : List Node) :
    Keeps s (s.probeRemoteFailure cfg pc self ch kNodes).1 := by
  rcases probeRemoteFailure_spec (s := s) cfg pc self ch kNodes with
    heq | ⟨p, q, hp, hid, -, -, -, heq, -⟩ <;> rw [heq]
  · exact ⟨rfl, rfl, rfl⟩
  · exact ⟨List.map_set_of_getElem? hp hid, rfl, rfl⟩

theorem handleMsg_issues (from_ : IPPort) (m : ProbeMsg) :
    Issues s (s.handleMsg cfg pc self from_ m).1 := by
  cases m with
  | ping q => exact .same rfl rfl rfl
  | indirectPing ind => exact handleIndirectPing_issues cfg self ind from_
  | ack a => exact (invokeAckHandler_keeps a).issues
  | nack n => exact (invokeNackHandler_keeps n).issues

/-! ### What a member has sent -/

/-- The identities of the member's runs that have started their timer, and so may have sent
    their ping. -/
def sentIds (s : AckState) : List (UInt32 × String) :=
  (s.probes.filter fun p => p.phase.installingAt.isNone).map probeRun.ident

/-- The sequence numbers the member may have put on a ping it sent, with the name each ping
    names: its runs past `installing`, and its calls. -/
def sent (s : AckState) : List (UInt32 × String) :=
  s.sentIds ++ s.relayIds.map fun i => (i.localSeqNo, i.node)

theorem mem_sentIds {x : UInt32 × String} :
    x ∈ s.sentIds ↔
      ∃ (ch : Nat) (p : probeRun), s.probes[ch]? = some p ∧ p.phase.installingAt = none ∧
        p.ident = x := by
  simp only [sentIds, List.mem_map, List.mem_filter, Option.isNone_iff_eq_none]
  constructor
  · rintro ⟨p, ⟨hp, hn⟩, rfl⟩
    obtain ⟨ch, hch⟩ := List.mem_iff_getElem?.mp hp
    exact ⟨ch, p, hch, hn, rfl⟩
  · rintro ⟨ch, p, hch, hn, rfl⟩
    exact ⟨p, ⟨List.mem_of_getElem? hch, hn⟩, rfl⟩

theorem sentIds_subset_probeIds (s : AckState) : s.sentIds ⊆ s.probeIds :=
  List.map_subset _ (List.filter_subset_self _)

theorem sent_subset_issued (s : AckState) : s.sent ⊆ s.issued :=
  List.append_subset.mpr ⟨List.subset_append_of_subset_left _ (sentIds_subset_probeIds s),
    List.subset_append_right _ _⟩

theorem relay_mem_sent {i : RelayIdent} (hi : i ∈ s.relayIds) : (i.localSeqNo, i.node) ∈ s.sent :=
  List.mem_append_right _ (List.mem_map_of_mem hi)

/-- A step keeps every run and call where it was, with its identity, and sends no run back to
    `installing`. -/
structure Grows (s s' : AckState) : Prop where
  probes : ∀ {ch : Nat} {p : probeRun}, s.probes[ch]? = some p → ∃ p', s'.probes[ch]? = some p' ∧
    p'.ident = p.ident ∧ (p.phase.installingAt = none → p'.phase.installingAt = none)
  relays : ∀ {r : Nat} {ρ : relayRun}, s.relays[r]? = some ρ → ∃ ρ', s'.relays[r]? = some ρ' ∧
    ρ'.ident = ρ.ident

theorem Grows.sentIds_subset (h : Grows s s') : s.sentIds ⊆ s'.sentIds := by
  intro x hx
  obtain ⟨ch, p, hp, hn, rfl⟩ := mem_sentIds.mp hx
  obtain ⟨p', hp', hid, hn'⟩ := h.probes hp
  exact mem_sentIds.mpr ⟨ch, p', hp', hn' hn, hid⟩

theorem Grows.relayIds_subset (h : Grows s s') : s.relayIds ⊆ s'.relayIds := by
  intro i hi
  obtain ⟨ρ, hρ, rfl⟩ := List.mem_map.mp hi
  obtain ⟨r, hr⟩ := List.mem_iff_getElem?.mp hρ
  obtain ⟨ρ', hρ', hid⟩ := h.relays hr
  exact List.mem_map.mpr ⟨ρ', List.mem_of_getElem? hρ', hid⟩

theorem Grows.sent_subset (h : Grows s s') : s.sent ⊆ s'.sent :=
  List.append_subset.mpr ⟨List.subset_append_of_subset_left _ h.sentIds_subset,
    List.subset_append_of_subset_right _ (List.map_subset _ h.relayIds_subset)⟩

theorem Grows.trans {s'' : AckState} (h : Grows s s') (h' : Grows s' s'') : Grows s s'' where
  probes hp := by
    obtain ⟨p', hp', hid, hn⟩ := h.probes hp
    obtain ⟨p'', hp'', hid', hn'⟩ := h'.probes hp'
    exact ⟨p'', hp'', hid'.trans hid, fun h₀ => hn' (hn h₀)⟩
  relays hr := by
    obtain ⟨ρ', hρ', hid⟩ := h.relays hr
    obtain ⟨ρ'', hρ'', hid'⟩ := h'.relays hρ'
    exact ⟨ρ'', hρ'', hid'.trans hid⟩

/-- More runs and calls, those there left as they were. -/
theorem Grows.of_append {lp : List probeRun} {lr : List relayRun}
    (hp : s'.probes = s.probes ++ lp) (hr : s'.relays = s.relays ++ lr) : Grows s s' where
  probes hq := ⟨_, by rw [hp]; exact getElem?_append_of hq _, rfl, id⟩
  relays hρ := ⟨_, by rw [hr]; exact getElem?_append_of hρ _, rfl⟩

theorem Grows.of_eq (hp : s'.probes = s.probes) (hr : s'.relays = s.relays) : Grows s s' where
  probes hq := ⟨_, hp ▸ hq, rfl, id⟩
  relays hρ := ⟨_, hr ▸ hρ, rfl⟩

/-- A change of one run that keeps its identity and never sends it back to `installing`. -/
theorem Grows.modifyProbe (ch : Nat) {f : probeRun → probeRun} (hid : ∀ p, (f p).ident = p.ident)
    (hn : ∀ p, p.phase.installingAt = none → (f p).phase.installingAt = none) :
    Grows s (s.modifyProbe ch f) where
  probes {ch' p} hp := by
    refine ⟨_, getElem?_modifyProbe_eq' hp f, ?_, ?_⟩ <;> split
    · exact hid p
    · rfl
    · exact hn p
    · exact id
  relays hρ := ⟨_, hρ, rfl⟩

theorem Grows.set_probe {ch : Nat} {p q : probeRun} (hp : s.probes[ch]? = some p)
    (hid : q.ident = p.ident) (hn : p.phase.installingAt = none → q.phase.installingAt = none) :
    Grows s { s with probes := s.probes.set ch q } where
  probes {ch' p'} hp' := by
    by_cases hcc : ch = ch'
    · subst hcc
      rw [hp, Option.some.injEq] at hp'
      subst hp'
      exact ⟨q, by simp [(List.getElem?_eq_some_iff.mp hp).1], hid, hn⟩
    · exact ⟨p', by rw [List.getElem?_set_ne hcc]; exact hp', rfl, id⟩
  relays hρ := ⟨_, hρ, rfl⟩

theorem Grows.set_relay {r : Nat} {ρ σ : relayRun} (hρ : s.relays[r]? = some ρ)
    (hid : σ.ident = ρ.ident) : Grows s { s with relays := s.relays.set r σ } where
  probes hp := ⟨_, hp, rfl, id⟩
  relays {r' ρ'} hρ' := by
    by_cases hrr : r = r'
    · subst hrr
      rw [hρ, Option.some.injEq] at hρ'
      subst hρ'
      exact ⟨σ, by simp [(List.getElem?_eq_some_iff.mp hρ).1], hid⟩
    · exact ⟨ρ', by rw [List.getElem?_set_ne hrr]; exact hρ', rfl⟩

/-! #### What each function keeps -/

theorem probeStart_grows {node : nodeState} (hok : s.probeStart pc node = .ok s') : Grows s s' := by
  obtain ⟨run, -, -, -, rfl⟩ := probeStart_spec hok
  exact .of_append rfl (List.append_nil _).symm

theorem probeSend_grows (cfg : Config) (self : IPPort) (ch : Nat) (res : SendResult) :
    Grows s (s.probeSend cfg self ch res).1 := by
  rcases probeSend_spec (s := s) cfg self ch res with heq | ⟨p, t, g, -, -, heq, hg, -⟩ <;>
    rw [heq]
  · exact .of_eq rfl rfl
  · -- the run goes on past its ping
    refine Grows.trans ?_ (.modifyProbe ch (fun q => (hg q).1) fun q _ => ?_)
    · exact .of_eq rfl rfl
    · rcases (hg q).2.2 with h' | h' | h' <;> rw [h'] <;> rfl

theorem probeRemoteFailure_grows (cfg : Config) (pc : ProbeConfig) (self : IPPort) (ch : Nat)
    (kNodes : List Node) : Grows s (s.probeRemoteFailure cfg pc self ch kNodes).1 := by
  rcases probeRemoteFailure_spec (s := s) cfg pc self ch kNodes with
    heq | ⟨p, q, hp, hid, -, -, hqph, heq, -⟩ <;> rw [heq]
  · exact .of_eq rfl rfl
  · exact .set_probe hp hid fun _ => by rw [hqph]; rfl

theorem invokeAckFn_grows {stopped : Bool}
    (hok : s.invokeAckFn cfg pc self stopped = .ok (s', pkts)) : Grows s s' := by
  obtain ⟨s₁, -, -, hp, hr, -, -, hcase⟩ := invokeAckFn_spec hok
  have h₁ : Grows s s₁ := .of_eq hp hr
  rcases hcase with ⟨rfl, -⟩ | ⟨iv, ch, -, -, rfl, -⟩ | ⟨iv, r, ρ, -, -, hρ, rfl, -⟩
  · exact h₁
  · exact h₁.trans (.modifyProbe (f := (probeRun.offerAck pc.chanCap · iv.payload)) ch
      (fun _ => rfl) fun _ h => h)
  · exact h₁.trans (.set_relay (ρ := ρ) (σ := { ρ with cancelled := true }) (by rw [hr]; exact hρ) rfl)

theorem fireTimer_grows (pc : ProbeConfig) (t : Nat) : Grows s (s.fireTimer pc t) := by
  rcases fireTimer_spec (s := s) pc t with heq | ⟨τ, -, -, ⟨-, heq⟩ | ⟨ch, -, heq⟩⟩ <;> rw [heq]
  · exact .of_eq rfl rfl
  · exact .of_eq rfl rfl
  · refine Grows.trans ?_
      (.modifyProbe (f := probeRun.offerTimeout pc.chanCap) ch (fun _ => rfl) fun _ h => h)
    exact .of_eq rfl rfl

theorem nackGoroutine_grows (cfg : Config) (self : IPPort) (r : Nat) (timeout : Bool) :
    Grows s (s.nackGoroutine cfg self r timeout).1 := by
  rcases nackGoroutine_spec (s := s) cfg self r timeout with heq | ⟨ρ, hρ, heq, -⟩ <;> rw [heq]
  · exact .of_eq rfl rfl
  · exact .set_relay hρ rfl

theorem handleMsg_grows (from_ : IPPort) (m : ProbeMsg) :
    Grows s (s.handleMsg cfg pc self from_ m).1 := by
  cases m with
  | ping q => exact .of_eq rfl rfl
  | indirectPing ind =>
    obtain ⟨call, -, -, heq, -⟩ := handleIndirectPing_spec (s := s) cfg self ind from_
    show Grows s (s.handleIndirectPing cfg self ind from_).1
    rw [heq]
    exact .of_append (List.append_nil _).symm rfl
  | ack a =>
    show Grows s (s.invokeAckHandler a)
    cases hk : s.ackHandlers.lookup a.SeqNo with
    | none => rw [invokeAckHandler_of_none hk]; exact .of_eq rfl rfl
    | some ah => rw [invokeAckHandler_of_some hk]; exact .of_eq rfl rfl
  | nack n =>
    show Grows s (s.invokeNackHandler pc n)
    rcases invokeNackHandler_spec (s := s) pc n with heq | ⟨ch, heq⟩ <;> rw [heq]
    · exact .of_eq rfl rfl
    · exact .modifyProbe (f := probeRun.offerNack pc.chanCap) ch (fun _ => rfl) fun _ h => h

/-- The ping of `probeNode` goes out under the run's sequence number and name, once the run is
    past `installing`. -/
theorem probeSend_sent (cfg : Config) (self : IPPort) (ch : Nat) (res : SendResult) {pkt : Packet}
    (hpkt : pkt ∈ (s.probeSend cfg self ch res).2) :
    ∃ p, s.probes[ch]? = some p ∧ p.ident ∈ (s.probeSend cfg self ch res).1.sentIds ∧
      pkt = ⟨self, p.node.Node.ipPort, .ping (probePing cfg self p.node p.seqNo)⟩ := by
  rcases probeSend_spec (s := s) cfg self ch res with heq | ⟨p, t, g, hp, -, heq, hg, hpk⟩
  · rw [heq] at hpkt
    cases hpkt
  refine ⟨p, hp, ?_, hpk pkt hpkt⟩
  rw [heq]
  refine mem_sentIds.mpr ⟨ch, g p, ?_, ?_, (hg p).1⟩
  · rw [getElem?_modifyProbe_eq' (s := s.armTimer t) hp g, if_pos rfl]
  · rcases (hg p).2.2 with h' | h' | h' <;> rw [h'] <;> rfl

/-- Under distinct sequence numbers, a run that has yet to start its timer has put its number on
    no ping. -/
theorem not_mem_sent_of_installing (hn : (s.issued.map Prod.fst).Nodup) {ch : Nat}
    {p : probeRun} (hp : s.probes[ch]? = some p) (hinst : p.phase.installingAt ≠ none)
    (n : String) : (p.seqNo, n) ∉ s.sent := by
  have hpk : p.ident ∈ s.probeIds := List.mem_map_of_mem (List.mem_of_getElem? hp)
  rw [issued, List.map_append, List.nodup_append] at hn
  intro hmem
  rcases List.mem_append.mp hmem with hmem | hmem
  · -- another run under the same number, past `installing`
    obtain ⟨ch', p', hp', hn', hid⟩ := mem_sentIds.mp hmem
    have hne : ch' ≠ ch := by
      rintro rfl
      rw [hp, Option.some.injEq] at hp'
      subst hp'
      exact hinst hn'
    have hkeys : (s.probeIds.map Prod.fst)[ch]? = some p.seqNo := by
      simp [probeIds, hp, probeRun.ident]
    have hseq : p'.seqNo = p.seqNo := congrArg Prod.fst hid
    have hkeys' : (s.probeIds.map Prod.fst)[ch']? = some p.seqNo := by
      simp [probeIds, hp', hseq, probeRun.ident]
    obtain ⟨hlt, hget⟩ := List.getElem?_eq_some_iff.mp hkeys
    obtain ⟨hlt', hget'⟩ := List.getElem?_eq_some_iff.mp hkeys'
    exact hne ((hn.1.getElem_inj_iff).mp (hget'.trans hget.symm))
  · -- a call under the run's number
    obtain ⟨i, hi, heq⟩ := List.mem_map.mp hmem
    exact hn.2.2 p.seqNo (List.mem_map_of_mem hpk) i.localSeqNo
      (List.mem_map.mpr ⟨_, List.mem_map_of_mem hi, rfl⟩) (congrArg Prod.fst heq).symm

/-! ### Which runs are acked -/

/-- Every run that holds a complete ack or has returned acked has an identity that satisfies
    `P`. -/
def AckedOk (P : UInt32 × String → Prop) (s : AckState) : Prop :=
  ∀ (ch : Nat) (p : probeRun), s.probes[ch]? = some p → p.Acked → P p.ident

variable {P : UInt32 × String → Prop}

theorem init_ackedOk : AckState.init.AckedOk P := by
  intro ch p hp
  simp [AckState.init] at hp

theorem AckedOk.mono {Q : UInt32 × String → Prop} (h : s.AckedOk P) (hPQ : ∀ k, P k → Q k) :
    s.AckedOk Q :=
  fun ch p hp ha => hPQ _ (h ch p hp ha)

theorem AckedOk.of_probes (h : s.AckedOk P) (hp : s'.probes = s.probes) : s'.AckedOk P :=
  fun ch p hq => h ch p (hp ▸ hq)

theorem AckedOk.modifyProbe (h : s.AckedOk P) {ch : Nat} {f : probeRun → probeRun}
    (hf : ∀ p, s.probes[ch]? = some p → (f p).Acked → P (f p).ident) :
    (s.modifyProbe ch f).AckedOk P := by
  intro ch' p' hp' hacked
  simp only [AckState.modifyProbe, List.getElem?_modify] at hp'
  cases hq : s.probes[ch']? with
  | none => simp [hq] at hp'
  | some q =>
    rw [hq] at hp'
    split at hp' <;> simp only [Option.map_eq_map, Option.map_some, Option.some.injEq] at hp' <;>
      subst hp'
    · subst ch
      exact hf q hq hacked
    · exact h ch' _ hq hacked

/-- An update of a run that keeps its identity and makes no run acked. -/
theorem AckedOk.modifyProbe_of (h : s.AckedOk P) (ch : Nat) {f : probeRun → probeRun}
    (hid : ∀ p, (f p).ident = p.ident) (hacked : ∀ p, (f p).Acked → p.Acked) :
    (s.modifyProbe ch f).AckedOk P :=
  h.modifyProbe fun p hp ha => (hid p).symm ▸ h ch p hp (hacked p ha)

theorem AckedOk.set_probe (h : s.AckedOk P) {ch : Nat} {q : probeRun} (hq : q.Acked → P q.ident) :
    { s with probes := s.probes.set ch q }.AckedOk P := by
  intro ch' p' hp' hacked
  simp only [List.getElem?_set] at hp'
  split at hp'
  · split at hp'
    · cases hp'
      exact hq hacked
    · cases hp'
  · exact h ch' p' hp' hacked

theorem AckedOk.append_probe (h : s.AckedOk P) {q : probeRun} (hq : ¬ q.Acked) :
    { s with probes := s.probes ++ [q] }.AckedOk P := by
  intro ch p hp hacked
  simp only [List.getElem?_append, List.getElem?_singleton] at hp
  split at hp
  · exact h ch p hp hacked
  · split at hp
    · cases hp
      exact absurd hacked hq
    · cases hp

theorem probeStart_ackedOk (h : s.AckedOk P) {node : nodeState}
    (hok : s.probeStart pc node = .ok s') : s'.AckedOk P := by
  obtain ⟨run, -, hmsgs, hph, rfl⟩ := probeStart_spec hok
  have hnot : ¬ run.Acked := by
    rintro (⟨v, hv, -⟩ | hacked)
    · rw [hmsgs] at hv
      cases hv
    · rw [hph] at hacked
      cases hacked
  exact (AckedOk.append_probe (s := { s with sequenceNum := s.sequenceNum + 1 }) h hnot).of_probes
    rfl

/-- Sending the ping makes no run acked. -/
theorem probeSend_ackedOk (h : s.AckedOk P) (cfg : Config) (self : IPPort) (ch : Nat)
    (res : SendResult) : (s.probeSend cfg self ch res).1.AckedOk P := by
  rcases probeSend_spec (s := s) cfg self ch res with heq | ⟨p, t, g, -, hph, heq, hg, -⟩ <;>
    rw [heq]
  · exact h
  refine AckedOk.modifyProbe_of (s := s.armTimer t) h ch (fun q => (hg q).1) fun q hq => ?_
  obtain ⟨-, hch, hsent⟩ := hg q
  rcases hq with ⟨v, hv, hc⟩ | hacked
  · -- the run held no message to put back before, nor does it now
    refine Or.inl ⟨v, ?_, hc⟩
    simp only [probeRun.msgs, hch] at hv ⊢
    rcases hsent with h' | h' | h' <;> rw [h'] at hv <;> simp_all [probePhase.held]
  · rcases hsent with h' | h' | h' <;> rw [h'] at hacked <;> cases hacked

theorem fireTimer_ackedOk (h : s.AckedOk P) (pc : ProbeConfig) (t : Nat) :
    (s.fireTimer pc t).AckedOk P := by
  rcases fireTimer_spec (s := s) pc t with heq | ⟨τ, -, -, ⟨-, heq⟩ | ⟨ch, -, heq⟩⟩ <;> rw [heq]
  · exact h
  · exact h.of_probes rfl
  · exact (h.of_probes rfl).modifyProbe_of ch (fun _ => rfl) (probeRun.acked_of_offerTimeout · _)

theorem invokeNackHandler_ackedOk (h : s.AckedOk P) (n : nackResp) :
    (s.invokeNackHandler pc n).AckedOk P := by
  rcases invokeNackHandler_spec (s := s) pc n with heq | ⟨ch, heq⟩ <;> rw [heq]
  · exact h
  · exact h.modifyProbe_of ch (fun _ => rfl) (fun _ => id)

theorem probeRemoteFailure_ackedOk (h : s.AckedOk P) (ch : Nat) (kNodes : List Node) :
    (s.probeRemoteFailure cfg pc self ch kNodes).1.AckedOk P := by
  rcases probeRemoteFailure_spec (s := s) cfg pc self ch kNodes with
    heq | ⟨p, q, hp, hid, hmsgs, -, hqph, heq, -⟩ <;> rw [heq]
  · exact h
  · refine h.set_probe fun hq => hid ▸ h ch p hp ?_
    rcases hq with ⟨v, hv, hc⟩ | hacked
    · exact Or.inl ⟨v, hmsgs ▸ hv, hc⟩
    · rw [hqph] at hacked
      cases hacked

theorem invokeAckHandler_ackedOk (h : s.AckedOk P) (a : ackResp) :
    (s.invokeAckHandler a).AckedOk P := by
  cases hk : s.ackHandlers.lookup a.SeqNo with
  | none =>
    rw [invokeAckHandler_of_none hk]
    exact h.of_probes rfl
  | some ah =>
    rw [invokeAckHandler_of_some hk]
    exact h.of_probes rfl

/-- The ack closure makes acked only the run of the handler the packet listener runs. -/
theorem invokeAckFn_ackedOk (h : s.AckedOk P) {stopped : Bool}
    (hack : ∀ {iv ch}, s.invoking = some iv → iv.ah.fn = .probe ch →
      ∀ p, s.probes[ch]? = some p → P p.ident)
    (hok : s.invokeAckFn cfg pc self stopped = .ok (s', pkts)) : s'.AckedOk P := by
  obtain ⟨s₁, -, -, hp, -, -, -, hcase⟩ := invokeAckFn_spec hok
  rcases hcase with ⟨rfl, -⟩ | ⟨iv, ch, hiv, hfn, rfl, -⟩ | ⟨iv, r, ρ, -, -, -, rfl, -⟩
  · exact h.of_probes hp
  · refine (h.of_probes hp).modifyProbe fun q hq _ => ?_
    rw [hp] at hq
    exact hack hiv hfn q hq
  · exact h.of_probes hp

theorem nackGoroutine_ackedOk (h : s.AckedOk P) (r : Nat) (timeout : Bool) :
    (s.nackGoroutine cfg self r timeout).1.AckedOk P := by
  rcases nackGoroutine_spec (s := s) cfg self r timeout with heq | ⟨ρ, -, heq, -⟩ <;>
    rw [heq]
  · exact h
  · exact h.of_probes rfl

theorem handleMsg_ackedOk (h : s.AckedOk P) (from_ : IPPort) (m : ProbeMsg) :
    (s.handleMsg cfg pc self from_ m).1.AckedOk P := by
  cases m with
  | ping q => exact h
  | indirectPing ind =>
    obtain ⟨call, -, -, heq, -⟩ := handleIndirectPing_spec (s := s) cfg self ind from_
    show (s.handleIndirectPing cfg self ind from_).1.AckedOk P
    rw [heq]
    exact h.of_probes rfl
  | ack a => exact invokeAckHandler_ackedOk h a
  | nack n => exact invokeNackHandler_ackedOk h n

end AckState

end memberlist
