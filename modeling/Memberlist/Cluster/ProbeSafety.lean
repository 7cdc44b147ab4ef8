import Memberlist.Cluster.Probe
import Mathlib

/-!
# No false acks

A probe run that ends acked heard from its member: some member answered a ping that names the
run's member, and the answer was for this run, sent by the prober itself or by a peer it asked.
An ack carries nothing but a sequence number, so this rests on sequence numbers being fresh.
While a member's `sequenceNum` does not wrap around, no two of its pings share one, whether a
probe run or a `handleIndirectPing` call sent them, so an ack meant for another ping cannot
complete a run.  Loss, duplication and reordering of packets, timers that fire late and a relay
that answers twice change nothing.  The same freshness keeps the packet listener clear of the
panic of `ack_before_timer_panics`: an ack is for a ping that was sent, so its run has started
its timer.

* `AnsweredFor c A k` — `A`'s run `k` was answered: a ping under `k` that `A` sent, or a ping
  that a call made for `A`'s request `k` sent, answered by a member it names.
* `Explained c A k` — an ack for `k` that reaches `A` comes from such an answer.
* `PacketOk`, `RelayOk`, `AnswerOk` — every ping, indirect request and ack in flight, every
  call and every answer carries a sequence number and name under which its sender sent: a run
  past `installing`, or a call.
* `InvocationOk` — the ack the packet listener is handling was for a run that has started its
  timer and was answered, or for a call whose own ping was answered.
* `SafeInv` — the invariant; `SafeInv.update` — what a step of one member must show; one lemma
  per event; `SafeInv.step` — every step without a wrap keeps it.
* `probe_acked_answered` — **no false positive**.
* `act_ok` — **no panic without a wrap**: every event goes through but the start of a probe
  whose `make(chan ackMessage, IndirectChecks+1)` gets a negative size.
-/

namespace memberlist

/-- A step keeps every run and call of every member where it was, and every answer. -/
structure ProbeCluster.Grows (c c' : ProbeCluster) : Prop where
  node : ∀ X, (c.node X).Grows (c'.node X)
  answered : c.answered ⊆ c'.answered

namespace ProbeCluster

variable {c : ProbeCluster}

/-- A step of one member that keeps its runs and calls, and answers more. -/
theorem grows_update {X : String} {s : AckState} (hg : (c.node X).Grows s) (pkts : List Packet)
    (ans : List Answer) : c.Grows (c.update X s pkts ans) where
  node Y := by
    rw [update_node, Function.update_apply]
    split
    · subst Y
      exact hg
    · exact .of_eq rfl rfl
  answered := List.subset_append_left _ _

end ProbeCluster

namespace ProbeNet

variable (N : ProbeNet)

/-- `A`'s run with identity `k` was answered: an answered ping names the run's member and is
    either `A`'s own ping under the run's sequence number, or the ping of a `handleIndirectPing`
    call at `C` made for `A`'s request under it. -/
def AnsweredFor (c : ProbeCluster) (A : String) (k : UInt32 × String) : Prop :=
  ∃ e ∈ c.answered, e.ping.Node = k.2 ∧
    ((N.owner e.dst = some A ∧ e.ping.SeqNo = k.1) ∨
      ∃ C, ∃ i ∈ (c.node C).relayIds, N.owner e.dst = some C ∧ e.ping.SeqNo = i.localSeqNo ∧
        N.owner i.indAddr = some A ∧ i.seqNo = k.1)

/-- An ack for `k` that reaches `A` comes from an answered ping under `k` whose ack went to
    `A`, or from a call at `C` made for `A`'s request `k`, whose own ping was answered. -/
def Explained (c : ProbeCluster) (A : String) (k : UInt32) : Prop :=
  (∃ e ∈ c.answered, N.owner e.dst = some A ∧ e.ping.SeqNo = k) ∨
    ∃ C, ∃ i ∈ (c.node C).relayIds, N.owner i.indAddr = some A ∧ i.seqNo = k ∧
      ∃ e ∈ c.answered, N.owner e.dst = some C ∧ e.ping.SeqNo = i.localSeqNo

/-- What a packet in flight carries: a ping or an indirect request, a sequence number and name
    under which the member its reply goes to sent; an ack, an explanation at whichever member
    it reaches. -/
def PacketOk (c : ProbeCluster) (pkt : Packet) : Prop :=
  match pkt.msg with
  | .ping q => ∃ A, N.owner (replyAddr q.SourceAddr q.SourcePort pkt.src) = some A ∧
      (q.SeqNo, q.Node) ∈ (c.node A).sent
  | .indirectPing ind => ∃ A, N.owner (replyAddr ind.SourceAddr ind.SourcePort pkt.src) = some A ∧
      (ind.SeqNo, ind.Node) ∈ (c.node A).sentIds
  | .ack a => ∀ A, N.owner pkt.dst = some A → N.Explained c A a.SeqNo
  | .nack _ => True

/-- A call was made for a probe run of the member its ack goes to, one past `installing`. -/
def RelayOk (c : ProbeCluster) (i : RelayIdent) : Prop :=
  ∃ A, N.owner i.indAddr = some A ∧ (i.seqNo, i.node) ∈ (c.node A).sentIds

/-- An answer is by a member that the ping names, to a ping that the member its ack went to
    sent. -/
def AnswerOk (c : ProbeCluster) (e : Answer) : Prop :=
  e.node ∈ N.members ∧ AckState.Answers (N.cfg e.node) e.ping ∧
    ∃ A, N.owner e.dst = some A ∧ (e.ping.SeqNo, e.ping.Node) ∈ (c.node A).sent

/-- The ack the packet listener of `X` is handling: a probe closure's run has started its timer
    and was answered; a relay closure's call had its own ping answered, so that the ack it
    forwards is explained where it goes. -/
def InvocationOk (c : ProbeCluster) (X : String) (iv : ackInvocation) : Prop :=
  (∀ ch : Nat, iv.ah.fn = .probe ch → ∃ p, (c.node X).probes[ch]? = some p ∧
    p.phase.installingAt = none ∧ N.AnsweredFor c X p.ident) ∧
  ∀ r : Nat, iv.ah.fn = .relay r → ∃ ρ, (c.node X).relays[r]? = some ρ ∧
    ∀ A, N.owner ρ.indAddr = some A → N.Explained c A ρ.seqNo

/-- The invariant of the exchange over the runs without a wrap. -/
structure SafeInv (c : ProbeCluster) : Prop where
  /-- The closures fit the goroutines... -/
  inv : ∀ X, (c.node X).Inv
  /-- ... and the timers fit the handlers. -/
  timers : ∀ X, (c.node X).TimerInv
  /-- Every sequence number issued is at most `sequenceNum`... -/
  fresh : ∀ X, ∀ k ∈ (c.node X).issued, k.1.toNat ≤ (c.node X).sequenceNum.toNat
  /-- ... and issued once. -/
  nodup : ∀ X, ((c.node X).issued.map Prod.fst).Nodup
  net : ∀ pkt ∈ c.net, N.PacketOk c pkt
  relays : ∀ X, ∀ i ∈ (c.node X).relayIds, N.RelayOk c i
  answered : ∀ e ∈ c.answered, N.AnswerOk c e
  /-- A run that holds a complete ack or returned acked was answered. -/
  acked : ∀ X, (c.node X).AckedOk (N.AnsweredFor c X)
  /-- The packet listener is handling an explained ack. -/
  invoking : ∀ X iv, (c.node X).invoking = some iv → N.InvocationOk c X iv

variable {N} {c c' : ProbeCluster}

/-! ### What a step keeps -/

theorem AnsweredFor.mono {A : String} {k : UInt32 × String} (h : N.AnsweredFor c A k)
    (hg : c.Grows c') : N.AnsweredFor c' A k := by
  obtain ⟨e, he, hnode, hdirect | ⟨C, i, hi, hrest⟩⟩ := h
  · exact ⟨e, hg.answered he, hnode, Or.inl hdirect⟩
  · exact ⟨e, hg.answered he, hnode, Or.inr ⟨C, i, (hg.node C).relayIds_subset hi, hrest⟩⟩

theorem Explained.mono {A : String} {k : UInt32} (h : N.Explained c A k) (hg : c.Grows c') :
    N.Explained c' A k := by
  rcases h with ⟨e, he, hrest⟩ | ⟨C, i, hi, hind, hk, e, he, hrest⟩
  · exact Or.inl ⟨e, hg.answered he, hrest⟩
  · exact Or.inr ⟨C, i, (hg.node C).relayIds_subset hi, hind, hk, e, hg.answered he, hrest⟩

theorem PacketOk.mono {pkt : Packet} (h : N.PacketOk c pkt) (hg : c.Grows c') :
    N.PacketOk c' pkt := by
  unfold PacketOk at h ⊢
  split at h
  · obtain ⟨A, hA, hk⟩ := h
    exact ⟨A, hA, (hg.node A).sent_subset hk⟩
  · obtain ⟨A, hA, hk⟩ := h
    exact ⟨A, hA, (hg.node A).sentIds_subset hk⟩
  · exact fun A hA => (h A hA).mono hg
  · trivial

theorem RelayOk.mono {i : RelayIdent} (h : N.RelayOk c i) (hg : c.Grows c') : N.RelayOk c' i := by
  obtain ⟨A, hA, hk⟩ := h
  exact ⟨A, hA, (hg.node A).sentIds_subset hk⟩

theorem AnswerOk.mono {e : Answer} (h : N.AnswerOk c e) (hg : c.Grows c') : N.AnswerOk c' e := by
  obtain ⟨hmem, hans, A, hA, hk⟩ := h
  exact ⟨hmem, hans, A, hA, (hg.node A).sent_subset hk⟩

/-- The runs and calls an invocation writes stay where they are, with their identities. -/
theorem InvocationOk.mono {X : String} {iv : ackInvocation} (h : N.InvocationOk c X iv)
    (hg : c.Grows c') : N.InvocationOk c' X iv := by
  refine ⟨fun ch hfn => ?_, fun r hfn => ?_⟩
  · obtain ⟨p, hp, hn, hans⟩ := h.1 ch hfn
    obtain ⟨p', hp', hid, hn'⟩ := (hg.node X).probes hp
    exact ⟨p', hp', hn' hn, by rw [hid]; exact hans.mono hg⟩
  · obtain ⟨ρ, hρ, hex⟩ := h.2 r hfn
    obtain ⟨ρ', hρ', hid⟩ := (hg.node X).relays hρ
    have hind : ρ'.indAddr = ρ.indAddr := congrArg RelayIdent.indAddr hid
    have hseq : ρ'.seqNo = ρ.seqNo := congrArg RelayIdent.seqNo hid
    exact ⟨ρ', hρ', fun A hA => by rw [hseq]; exact (hex A (hind ▸ hA)).mono hg⟩

/-! ### What the invariant gives -/

/-- Under one sequence number a member issued one name. -/
theorem SafeInv.name_eq (hs : N.SafeInv c) {A : String} {k : UInt32} {n n' : String}
    (h : (k, n) ∈ (c.node A).issued) (h' : (k, n') ∈ (c.node A).issued) : n = n' :=
  (Prod.mk.inj (List.inj_on_of_nodup_map (hs.nodup A) h h' rfl)).2

/-- No probe run and call of a member share a sequence number. -/
theorem SafeInv.probe_ne_relay (hs : N.SafeInv c) {A : String} {k : UInt32 × String}
    {i : RelayIdent} (hk : k ∈ (c.node A).probeIds) (hi : i ∈ (c.node A).relayIds) :
    i.localSeqNo ≠ k.1 := by
  have hn := hs.nodup A
  rw [AckState.issued, List.map_append, List.nodup_append] at hn
  exact (hn.2.2 k.1 (List.mem_map_of_mem hk) i.localSeqNo
    (by simpa using ⟨i, hi, rfl⟩)).symm

theorem probeIds_subset_issued (s : AckState) : s.probeIds ⊆ s.issued :=
  List.subset_append_left _ _

theorem relay_mem_issued {s : AckState} {i : RelayIdent} (hi : i ∈ s.relayIds) :
    (i.localSeqNo, i.node) ∈ s.issued :=
  List.mem_append_right _ (List.mem_map_of_mem hi)

theorem sent_mem_issued {s : AckState} {k : UInt32 × String} (hk : k ∈ s.sent) : k ∈ s.issued :=
  AckState.sent_subset_issued s hk

theorem sentIds_mem_probeIds {s : AckState} {k : UInt32 × String} (hk : k ∈ s.sentIds) :
    k ∈ s.probeIds :=
  AckState.sentIds_subset_probeIds s hk

/-- An ack explained at `A` is under a sequence number `A` put on a ping it sent. -/
theorem SafeInv.sent_of_explained (hs : N.SafeInv c) {A : String} {k : UInt32}
    (hex : N.Explained c A k) : ∃ n, (k, n) ∈ (c.node A).sent := by
  rcases hex with ⟨e, he, hdst, hseq⟩ | ⟨C, i, hi, hind, hk, -⟩
  · obtain ⟨-, -, A', hA', hsent⟩ := hs.answered e he
    rw [hdst, Option.some.injEq] at hA'
    subst A'
    exact ⟨_, hseq ▸ hsent⟩
  · obtain ⟨A', hA', hsent⟩ := hs.relays C i hi
    rw [hind, Option.some.injEq] at hA'
    subst A'
    exact ⟨_, hk ▸ List.mem_append_left _ hsent⟩

/-- A run under whose sequence number an ack is explained has started its timer. -/
theorem SafeInv.installingAt_of_explained (hs : N.SafeInv c) {A : String} {ch : Nat}
    {p : probeRun} (hp : (c.node A).probes[ch]? = some p) (hex : N.Explained c A p.seqNo) :
    p.phase.installingAt = none := by
  obtain ⟨n, hn⟩ := hs.sent_of_explained hex
  by_contra hinst
  exact AckState.not_mem_sent_of_installing (hs.nodup A) hp hinst n hn

/-- An ack explained at `A` under a run's sequence number means the run was answered. -/
theorem SafeInv.answeredFor_of_explained (hs : N.SafeInv c) {A : String} {p : probeRun}
    (hp : p.ident ∈ (c.node A).probeIds) (hex : N.Explained c A p.seqNo) :
    N.AnsweredFor c A p.ident := by
  rcases hex with ⟨e, he, hdst, hseq⟩ | ⟨C, i, hi, hind, hk, e, he, hdst, hseq⟩
  · -- `A`'s own ping under `k`: it named the run's member
    obtain ⟨-, -, A', hA', hsent⟩ := hs.answered e he
    rw [hdst, Option.some.injEq] at hA'
    subst A'
    rw [hseq] at hsent
    exact ⟨e, he, hs.name_eq (sent_mem_issued hsent) (probeIds_subset_issued _ hp),
      Or.inl ⟨hdst, hseq⟩⟩
  · -- a call's ping: it named the call's target, which is the run's member
    obtain ⟨-, -, C', hC', hsent⟩ := hs.answered e he
    rw [hdst, Option.some.injEq] at hC'
    subst C'
    rw [hseq] at hsent
    have hnode : e.ping.Node = i.node := hs.name_eq (sent_mem_issued hsent) (relay_mem_issued hi)
    obtain ⟨A', hA', hprobe⟩ := hs.relays C i hi
    rw [hind, Option.some.injEq] at hA'
    subst A'
    rw [hk] at hprobe
    have htarget : i.node = p.node.Node.Name :=
      hs.name_eq (probeIds_subset_issued _ (sentIds_mem_probeIds hprobe))
        (probeIds_subset_issued _ hp)
    exact ⟨e, he, hnode.trans htarget, Or.inr ⟨C, i, hi, hdst, hseq, hind, hk⟩⟩

/-- An ack explained at a member under the sequence number of one of its calls comes from an
    answer to that call's ping: no probe run of the member has that sequence number. -/
theorem SafeInv.answer_of_explained (hs : N.SafeInv c) {C : String} {i : RelayIdent}
    (hi : i ∈ (c.node C).relayIds) (hex : N.Explained c C i.localSeqNo) :
    ∃ e ∈ c.answered, N.owner e.dst = some C ∧ e.ping.SeqNo = i.localSeqNo := by
  rcases hex with h | ⟨C', i', hi', hind, hk, -⟩
  · exact h
  · obtain ⟨A, hA, hprobe⟩ := hs.relays C' i' hi'
    rw [hind, Option.some.injEq] at hA
    subst A
    exact absurd hk.symm (hs.probe_ne_relay (sentIds_mem_probeIds hprobe) hi)

/-- The ack the packet listener takes out of `ackHandlers` is explained, so the handler it runs
    fits it. -/
theorem SafeInv.invocationOk_of_lookup (hs : N.SafeInv c) {X : String} {a : ackResp}
    {ah : ackHandler} (hk : (c.node X).ackHandlers.lookup a.SeqNo = some ah)
    (hex : N.Explained c X a.SeqNo) (payload : List UInt8) :
    N.InvocationOk c X ⟨ah, payload⟩ := by
  refine ⟨fun ch hfn => ?_, fun r hfn => ?_⟩
  · -- a probe closure: the run under the ack's sequence number
    obtain ⟨p, hp, hseq⟩ := (hs.inv X).probe hk hfn
    have hex' : N.Explained c X p.seqNo := hseq ▸ hex
    exact ⟨p, hp, hs.installingAt_of_explained hp hex',
      hs.answeredFor_of_explained (List.mem_map_of_mem (List.mem_of_getElem? hp)) hex'⟩
  · -- a relay closure: the call whose own ping was answered
    obtain ⟨ρ, hρ, hseq, -⟩ := (hs.inv X).relay hk hfn
    have hi : ρ.ident ∈ (c.node X).relayIds := List.mem_map_of_mem (List.mem_of_getElem? hρ)
    obtain ⟨e, he, hdst, he'⟩ := hs.answer_of_explained hi (by rw [relayRun.ident]; exact hseq ▸ hex)
    exact ⟨ρ, hρ, fun A hA => Or.inr ⟨X, ρ.ident, hi, hA, rfl, e, he, hdst, he'⟩⟩

/-- What a step of member `X` by one handler to `s`, sending `pkts` and answering `ans`, must
    show to keep the invariant: its new calls, packets and answers, its acked runs, and the
    invocation it starts. -/
theorem SafeInv.update (hs : N.SafeInv c) {X : String} {s : AckState} {pkts : List Packet}
    {ans : List Answer} (hh : N.Handles X (c.node X) s pkts)
    (hwrap : (c.node X).sequenceNum.toNat ≤ s.sequenceNum.toNat)
    (hrel : ∀ i ∈ s.relayIds, i ∈ (c.node X).relayIds ∨ N.RelayOk (c.update X s pkts ans) i)
    (hpkts : ∀ pkt ∈ pkts, N.PacketOk (c.update X s pkts ans) pkt)
    (hans : ∀ e ∈ ans, N.AnswerOk (c.update X s pkts ans) e)
    (hacked : s.AckedOk (N.AnsweredFor (c.update X s pkts ans) X))
    (hiv : ∀ iv, s.invoking = some iv →
      (c.node X).invoking = some iv ∨ N.InvocationOk (c.update X s pkts ans) X iv) :
    N.SafeInv (c.update X s pkts ans) := by
  have hg := ProbeCluster.grows_update hh.grows pkts ans
  have hfresh := hh.issues.fresh hwrap (hs.fresh X) (hs.nodup X)
  refine ⟨c.forall_update hs.inv (hh.inv (hs.inv X)) pkts ans,
    c.forall_update hs.timers (hh.timerInv (hs.timers X)) pkts ans,
    c.forall_update (P := fun s => ∀ k ∈ s.issued, k.1.toNat ≤ s.sequenceNum.toNat) hs.fresh
      hfresh.1 pkts ans,
    c.forall_update (P := fun s => (s.issued.map Prod.fst).Nodup) hs.nodup hfresh.2 pkts ans,
    ?_, ?_, ?_, ?_, ?_⟩
  · intro pkt hpkt
    rcases List.mem_append.mp hpkt with hpkt | hpkt
    · exact (hs.net pkt hpkt).mono hg
    · exact hpkts pkt hpkt
  · intro Y i hi
    rw [ProbeCluster.update_node, Function.update_apply] at hi
    split at hi
    · subst Y
      rcases hrel i hi with hi | hok
      · exact (hs.relays X i hi).mono hg
      · exact hok
    · exact (hs.relays Y i hi).mono hg
  · intro e he
    rcases List.mem_append.mp he with he | he
    · exact (hs.answered e he).mono hg
    · exact hans e he
  · intro Y
    rw [ProbeCluster.update_node, Function.update_apply]
    split
    · subst Y
      exact hacked
    · exact (hs.acked Y).mono fun _ hk => hk.mono hg
  · intro Y iv hY
    rw [ProbeCluster.update_node, Function.update_apply] at hY
    split at hY
    · subst Y
      rcases hiv iv hY with hold | hok
      · exact (hs.invoking X iv hold).mono hg
      · exact hok
    · exact (hs.invoking Y iv hY).mono hg

/-- What was answered for a run before a step of `X` still is after it. -/
theorem Handles.ackedOk_update {X : String} {s : AckState} {pkts : List Packet}
    (hh : N.Handles X (c.node X) s pkts) (ans : List Answer) {t : AckState}
    (h : t.AckedOk (N.AnsweredFor c X)) : t.AckedOk (N.AnsweredFor (c.update X s pkts ans) X) :=
  h.mono fun _ hk => hk.mono (ProbeCluster.grows_update hh.grows pkts ans)

/-- A step of `X` that issues nothing: its sequence number and its calls stay as they were. -/
theorem SafeInv.update_keeps (hs : N.SafeInv c) {X : String} {s : AckState} {pkts : List Packet}
    {ans : List Answer} (hh : N.Handles X (c.node X) s pkts) (hK : (c.node X).Keeps s)
    (hpkts : ∀ pkt ∈ pkts, N.PacketOk (c.update X s pkts ans) pkt)
    (hans : ∀ e ∈ ans, N.AnswerOk (c.update X s pkts ans) e)
    (hacked : s.AckedOk (N.AnsweredFor (c.update X s pkts ans) X))
    (hiv : ∀ iv, s.invoking = some iv →
      (c.node X).invoking = some iv ∨ N.InvocationOk (c.update X s pkts ans) X iv) :
    N.SafeInv (c.update X s pkts ans) :=
  hs.update hh hK.toNat_le (fun _ hi => Or.inl (hK.relayIds ▸ hi)) hpkts hans hacked hiv

/-- A step of `X` that issues nothing, sends nothing, answers nothing and leaves the packet
    listener as it was. -/
theorem SafeInv.update_quiet (hs : N.SafeInv c) {X : String} {s : AckState}
    (hh : N.Handles X (c.node X) s []) (hK : (c.node X).Keeps s)
    (hacked : s.AckedOk (N.AnsweredFor c X)) (hiv : s.invoking = (c.node X).invoking) :
    N.SafeInv (c.update X s [] []) :=
  hs.update_keeps hh hK (by simp) (by simp) (hh.ackedOk_update [] hacked)
    (fun _ h => Or.inl (hiv ▸ h))

/-- A wait of a probe run that ends without making it acked. -/
theorem SafeInv.modifyProbe (hs : N.SafeInv c) (X : String) (ch : Nat) {f : probeRun → probeRun}
    (hf : probeRun.WaitEnds (N.pc X).chanCap f) (hacked : ∀ p, (f p).Acked → p.Acked) :
    N.SafeInv (c.update X ((c.node X).modifyProbe ch f) [] []) :=
  hs.update_quiet (.run ch hf) (AckState.Keeps.modifyProbe hf.ident ch)
    ((hs.acked X).modifyProbe_of ch hf.ident hacked) rfl

/-- A ping that a member sends under a sequence number it sent under, naming its own address. -/
theorem PacketOk.ping_self (hwf : N.WF) {X : String} (hX : X ∈ N.members) {pkt : Packet} {q : ping}
    (hsrc : pkt.src = N.addr X) (hmsg : pkt.msg = .ping q)
    (haddr : q.SourceAddr = (N.addr X).ip ∧ q.SourcePort = (N.addr X).port)
    (hk : (q.SeqNo, q.Node) ∈ (c.node X).sent) : N.PacketOk c pkt := by
  unfold PacketOk
  rw [hmsg]
  exact ⟨X, by rw [haddr.1, haddr.2, hsrc, replyAddr_self]; exact hwf.owns X hX, hk⟩

/-! ### One lemma per event -/

/-- `probeNode` up to the unlock of `setProbeChannels` issues a run and sends nothing. -/
theorem SafeInv.probe (hs : N.SafeInv c) {X : String} {node : nodeState}
    (hact : N.act c (.probe X node) = .ok c')
    (hwrap : (c.node X).sequenceNum.toNat ≤ (c'.node X).sequenceNum.toNat) : N.SafeInv c' := by
  obtain ⟨s, hok, hc⟩ := Go.bind_eq_ok.mp hact
  cases hc
  have hh : N.Handles X (c.node X) s [] := .probeStart hok
  obtain ⟨-, hr, -⟩ := AckState.probeStart_ids hok
  exact hs.update hh (by simpa using hwrap) (fun _ hi => Or.inl (hr ▸ hi)) (by simp) (by simp)
    (hh.ackedOk_update [] (AckState.probeStart_ackedOk (hs.acked X) hok))
    (fun _ h => Or.inl (AckState.probeStart_invoking hok ▸ h))

/-- The run starts its timer and pings under its own sequence number, now past `installing`. -/
theorem SafeInv.send (hwf : N.WF) (hs : N.SafeInv c) {X : String} {ch : Nat} {res : SendResult}
    (hX : X ∈ N.members) (hact : N.act c (.send X ch res) = .ok c') : N.SafeInv c' := by
  cases hact
  have hh : N.Handles X (c.node X) _ _ := .send ch res
  have hK := AckState.probeSend_keeps (s := c.node X) (N.cfg X) (N.addr X) ch res
  refine hs.update_keeps hh hK (fun pkt hpkt => ?_) (by simp)
    (hh.ackedOk_update [] (AckState.probeSend_ackedOk (hs.acked X) _ _ ch res))
    (fun _ h => Or.inl (by simpa using h))
  obtain ⟨p, -, hsent, rfl⟩ := AckState.probeSend_sent (N.cfg X) (N.addr X) ch res hpkt
  refine PacketOk.ping_self hwf hX rfl rfl ⟨rfl, rfl⟩ ?_
  simp only [ProbeCluster.update_node, Function.update_self]
  exact List.mem_append_left _ hsent

/-- `HANDLE_REMOTE_FAILURE` asks its peers about a run past its ping. -/
theorem SafeInv.remoteFailure (hwf : N.WF) (hs : N.SafeInv c) {X : String} {ch : Nat}
    {kNodes : List Node} (hX : X ∈ N.members)
    (hact : N.act c (.remoteFailure X ch kNodes) = .ok c') : N.SafeInv c' := by
  cases hact
  have hh : N.Handles X (c.node X) _ _ := .remoteFailure ch kNodes
  have hK := AckState.probeRemoteFailure_keeps (s := c.node X) (N.cfg X) (N.pc X)
    (N.addr X) ch kNodes
  refine hs.update_keeps hh hK (fun pkt hpkt => ?_) (by simp)
    (hh.ackedOk_update [] (AckState.probeRemoteFailure_ackedOk (hs.acked X) ch kNodes))
    (fun _ h => Or.inl (by simpa using h))
  rcases AckState.probeRemoteFailure_spec (s := c.node X) (N.cfg X) (N.pc X)
    (N.addr X) ch kNodes with heq | ⟨p, q, hp, -, -, hph, -, -, hpk⟩
  · rw [heq] at hpkt
    cases hpkt
  -- an indirect request names the run, failing after its ping, whose reply comes back to `X`
  obtain ⟨hsrc, ind, hmsg, hk, hsa, hsp⟩ := hpk pkt hpkt
  unfold PacketOk
  rw [hmsg]
  refine ⟨X, by rw [hsa, hsp, hsrc, replyAddr_self]; exact hwf.owns X hX, ?_⟩
  simp only [ProbeCluster.update_node, Function.update_self]
  rw [hk]
  exact hh.grows.sentIds_subset (AckState.mem_sentIds.mpr ⟨ch, p, hp, by rw [hph]; rfl, rfl⟩)

/-- The fallback ends a run acked only after a member answered its TCP ping. -/
theorem SafeInv.fallback (hwf : N.WF) (hs : N.SafeInv c) {X : String} {ch : Nat} {contact : Bool}
    (hX : X ∈ N.members) (hact : N.act c (.fallback X ch contact) = .ok c') : N.SafeInv c' := by
  simp only [act] at hact
  split at hact
  · next p hp =>
    split at hact
    · next Y hY =>
      cases hact
      -- the run waits in the fallback, and the member the connection reached answered its ping
      obtain ⟨hph, hresp⟩ : p.phase = .fallback ∧ N.tcpResponder X p = some Y := by
        split at hY
        · next hc => exact ⟨hc.2.2, hY⟩
        · cases hY
      obtain ⟨hY, hans⟩ : N.owner p.node.Node.ipPort = some Y ∧
          AckState.Answers (N.cfg Y) (AckState.probePing (N.cfg X) (N.addr X) p.node p.seqNo) := by
        unfold tcpResponder at hresp
        split at hresp
        · cases hresp
        · split at hresp
          · next Y' hY' =>
            split at hresp
            · cases hresp
              exact ⟨hY', by assumption⟩
            · cases hresp
          · cases hresp
      have hh : N.Handles X (c.node X) _ [] := .run ch (.finish true)
      have hK := AckState.Keeps.modifyProbe (s := c.node X) (fun p => p.ident_finish true) ch
      have hsent : p.ident ∈ (c.node X).sentIds :=
        AckState.mem_sentIds.mpr ⟨ch, p, hp, by rw [hph]; rfl, rfl⟩
      refine hs.update_keeps hh hK (by simp) (fun e he => ?_)
        ((hh.ackedOk_update _ (hs.acked X)).modifyProbe fun q hq _ => ?_) (fun _ h => Or.inl h)
      · rw [List.mem_singleton] at he
        subst he
        refine ⟨hwf.reaches hY, hans, X, hwf.owns X hX, ?_⟩
        simp only [ProbeCluster.update_node, Function.update_self]
        exact List.mem_append_left _ (hh.grows.sentIds_subset hsent)
      · rw [hp, Option.some.injEq] at hq
        subst hq
        rw [probeRun.ident_finish]
        exact ⟨_, List.mem_append_right _ (List.mem_singleton_self _), rfl,
          Or.inl ⟨hwf.owns X hX, rfl⟩⟩
    · cases hact
      exact hs.modifyProbe X ch (.finish false) (fun p => p.acked_of_finish_false)
  · cases hact
    exact hs

/-- The rest of `invokeAckHandler`: the probe closure offers the ack to a run that was answered,
    and the relay closure forwards an explained ack. -/
theorem SafeInv.ackFn (hs : N.SafeInv c) {X : String} {stopped : Bool}
    (hact : N.act c (.ackFn X stopped) = .ok c') : N.SafeInv c' := by
  obtain ⟨⟨s, pkts⟩, hok, hc⟩ := Go.bind_eq_ok.mp hact
  cases hc
  have hh : N.Handles X (c.node X) s pkts := .ackFn hok
  have hK := AckState.invokeAckFn_keeps hok
  have hg := ProbeCluster.grows_update hh.grows pkts []
  obtain ⟨s₁, -, hi, -, -, -, -, hcase⟩ := AckState.invokeAckFn_spec hok
  refine hs.update_keeps hh hK (fun pkt hpkt => ?_) (by simp)
    (AckState.invokeAckFn_ackedOk (hh.ackedOk_update [] (hs.acked X))
      (fun {iv ch} hiv hfn p hp => ?_) hok) (fun iv hiv => ?_)
  · -- only the relay closure sends: the ack of its call, explained where it goes
    rcases hcase with ⟨-, rfl⟩ | ⟨-, -, -, -, -, rfl⟩ | ⟨iv, r, ρ, hiv, hfn, hρ, -, rfl⟩
    · cases hpkt
    · cases hpkt
    obtain ⟨ρ', hρ', hex⟩ := (hs.invoking X iv hiv).2 r hfn
    rw [hρ, Option.some.injEq] at hρ'
    subst hρ'
    unfold sendTo at hpkt
    split at hpkt
    · cases hpkt
    rw [List.mem_singleton] at hpkt
    subst hpkt
    exact fun A hA => (hex A hA).mono hg
  · -- the probe closure's run was answered
    obtain ⟨p', hp', -, hans⟩ := (hs.invoking X iv hiv).1 ch hfn
    rw [hp, Option.some.injEq] at hp'
    subst hp'
    exact hans.mono hg
  · -- the invocation is over
    have hnone : s.invoking = none := by
      rcases hcase with ⟨heq, -⟩ | ⟨_, _, _, _, heq, _⟩ | ⟨_, _, _, _, _, _, heq, _⟩ <;> rw [heq] <;>
        exact hi
    rw [hnone] at hiv
    cases hiv

/-- A reaping timer deletes a handler and may offer a timeout, never a complete ack. -/
theorem SafeInv.timer (hs : N.SafeInv c) {X : String} {t : Nat}
    (hact : N.act c (.timer X t) = .ok c') : N.SafeInv c' := by
  cases hact
  exact hs.update_quiet (.timer t) (AckState.fireTimer_keeps _ t)
    (AckState.fireTimer_ackedOk (hs.acked X) _ t) (AckState.fireTimer_invoking _ t)

/-- The nack goroutine sends only a nack. -/
theorem SafeInv.nack (hs : N.SafeInv c) {X : String} {r : Nat} {timeout : Bool}
    (hact : N.act c (.nack X r timeout) = .ok c') : N.SafeInv c' := by
  cases hact
  have hh : N.Handles X (c.node X) _ _ := .nack r timeout
  have hK := AckState.nackGoroutine_keeps (s := c.node X) (N.cfg X) (N.addr X) r timeout
  refine hs.update_keeps hh hK (fun pkt hpkt => ?_) (by simp)
    (hh.ackedOk_update [] (AckState.nackGoroutine_ackedOk (hs.acked X) r timeout))
    (fun _ h => Or.inl (by simpa using h))
  rcases AckState.nackGoroutine_spec (s := c.node X) (N.cfg X) (N.addr X) r timeout with
    heq | ⟨-, -, -, hpk⟩
  · rw [heq] at hpkt
    cases hpkt
  · obtain ⟨n, hn⟩ := hpk pkt hpkt
    unfold PacketOk
    rw [hn]
    trivial

/-! ### A packet received -/

/-- A ping is answered by a member it names, and the ack goes where the ping says. -/
theorem SafeInv.receive_ping (hwf : N.WF) (hs : N.SafeInv c) {pkt : Packet} (hin : pkt ∈ c.net)
    {X : String} (hX : N.owner pkt.dst = some X) (hidle : (c.node X).invoking = none) {q : ping}
    (hm : pkt.msg = .ping q) :
    N.SafeInv (c.update X (c.node X) (handlePing (N.cfg X) (N.pc X) (N.addr X) q pkt.src)
      (N.answers X pkt)) := by
  have hh : N.Handles X (c.node X) _ _ := .handleMsg pkt.src (.ping q) hidle
  have hans : N.answers X pkt = (handlePing (N.cfg X) (N.pc X) (N.addr X) q pkt.src).map
      fun _ => ⟨X, q, replyAddr q.SourceAddr q.SourcePort pkt.src⟩ := by
    unfold answers
    rw [hm]
  -- the ping carries what the member its reply goes to sent under
  have hpk := hs.net pkt hin
  unfold PacketOk at hpk
  rw [hm] at hpk
  obtain ⟨A, hA, hk⟩ := hpk
  have hg := ProbeCluster.grows_update hh.grows
    (handlePing (N.cfg X) (N.pc X) (N.addr X) q pkt.src) (N.answers X pkt)
  refine hs.update hh le_rfl (fun _ hi => Or.inl hi) (fun ack hack => ?_) (fun e he => ?_)
    (hh.ackedOk_update _ (hs.acked X)) (fun _ h => Or.inl h)
  · obtain ⟨-, rfl⟩ := AckState.mem_handlePing hack
    intro A' hA'
    refine Or.inl ⟨⟨X, q, replyAddr q.SourceAddr q.SourcePort pkt.src⟩, List.mem_append_right _ ?_,
      hA', rfl⟩
    rw [hans]
    exact List.mem_map_of_mem hack
  · rw [hans, List.mem_map] at he
    obtain ⟨ack, hack, rfl⟩ := he
    exact ⟨hwf.reaches hX, (AckState.mem_handlePing hack).1, A, hA, (hg.node A).sent_subset hk⟩

/-- `handleIndirectPing` makes a call for a run of the requester and pings under a sequence
    number of its own. -/
theorem SafeInv.receive_indirect (hwf : N.WF) (hs : N.SafeInv c) {pkt : Packet}
    (hin : pkt ∈ c.net) {X : String} (hX : N.owner pkt.dst = some X)
    (hidle : (c.node X).invoking = none) {ind : indirectPingReq}
    (hm : pkt.msg = .indirectPing ind)
    (hwrap : (c.node X).sequenceNum.toNat ≤
      ((c.node X).handleIndirectPing (N.cfg X) (N.addr X) ind pkt.src).1.sequenceNum.toNat) :
    N.SafeInv (c.update X ((c.node X).handleIndirectPing (N.cfg X) (N.addr X) ind pkt.src).1
      ((c.node X).handleIndirectPing (N.cfg X) (N.addr X) ind pkt.src).2 (N.answers X pkt)) := by
  have hh : N.Handles X (c.node X) _ _ := .handleMsg pkt.src (.indirectPing ind) hidle
  have hans : N.answers X pkt = [] := by
    unfold answers
    rw [hm]
  obtain ⟨-, hr, -⟩ := AckState.handleIndirectPing_ids (s := c.node X) (N.cfg X)
    (N.addr X) ind pkt.src
  obtain ⟨-, -, -, -, hpk⟩ := AckState.handleIndirectPing_spec (s := c.node X) (N.cfg X)
    (N.addr X) ind pkt.src
  -- the request carries a run past its ping at the member its reply goes to
  have hreq := hs.net pkt hin
  unfold PacketOk at hreq
  rw [hm] at hreq
  obtain ⟨A, hA, hk⟩ := hreq
  have hg := ProbeCluster.grows_update hh.grows ((c.node X).handleIndirectPing (N.cfg X)
    (N.addr X) ind pkt.src).2 (N.answers X pkt)
  refine hs.update hh hwrap (fun i hi => ?_) (fun ping hping => ?_) (by simp [hans])
    ((hh.ackedOk_update _ (hs.acked X)).of_probes rfl)
    (fun _ h => Or.inl (AckState.handleMsg_invoking (N.cfg X) (N.pc X) (N.addr X) pkt.src
      (m := .indirectPing ind) (fun _ => nofun) ▸ h))
  · rw [hr, List.mem_append, List.mem_singleton] at hi
    rcases hi with hi | rfl
    · exact Or.inl hi
    · exact Or.inr ⟨A, hA, (hg.node A).sentIds_subset hk⟩
  · obtain ⟨hsrc, hmsg⟩ := hpk ping hping
    refine PacketOk.ping_self hwf (hwf.reaches hX) hsrc hmsg ⟨rfl, rfl⟩ ?_
    simp only [ProbeCluster.update_node, Function.update_self]
    exact AckState.relay_mem_sent
      (by rw [hr]; exact List.mem_append_right _ (List.mem_singleton_self _))

/-- The packet listener takes the handler of an ack out, to run it once the ack is explained. -/
theorem SafeInv.receive_ack (hs : N.SafeInv c) {pkt : Packet} (hin : pkt ∈ c.net) {X : String}
    (hX : N.owner pkt.dst = some X) (hidle : (c.node X).invoking = none) {a : ackResp}
    (hm : pkt.msg = .ack a) :
    N.SafeInv (c.update X ((c.node X).invokeAckHandler a) [] (N.answers X pkt)) := by
  have hh : N.Handles X (c.node X) _ _ := .handleMsg pkt.src (.ack a) hidle
  have hans : N.answers X pkt = [] := by
    unfold answers
    rw [hm]
  have hK := AckState.invokeAckHandler_keeps (s := c.node X) a
  have hg := ProbeCluster.grows_update hh.grows [] (N.answers X pkt)
  have hex : N.Explained c X a.SeqNo := by
    have hpk := hs.net pkt hin
    unfold PacketOk at hpk
    rw [hm] at hpk
    exact hpk X hX
  refine hs.update_keeps hh hK (by simp) (by simp [hans])
    ((hh.ackedOk_update _ (hs.acked X)).of_probes ?_)
    (fun iv hiv => Or.inr ?_)
  · cases hk : (c.node X).ackHandlers.lookup a.SeqNo with
    | none => rw [AckState.invokeAckHandler_of_none hk]
    | some ah => rw [AckState.invokeAckHandler_of_some hk]
  · -- a handler was found, and the ack explains it
    cases hk : (c.node X).ackHandlers.lookup a.SeqNo with
    | none =>
      rw [AckState.invokeAckHandler_of_none hk, hidle] at hiv
      cases hiv
    | some ah =>
      rw [AckState.invokeAckHandler_of_some hk, Option.some.injEq] at hiv
      subst hiv
      exact (hs.invocationOk_of_lookup hk hex a.Payload).mono hg

/-- A nack is offered to a run's `nackCh`. -/
theorem SafeInv.receive_nack (hs : N.SafeInv c) {pkt : Packet} {X : String}
    (hidle : (c.node X).invoking = none) {n : nackResp} (hm : pkt.msg = .nack n) :
    N.SafeInv (c.update X ((c.node X).invokeNackHandler (N.pc X) n) [] (N.answers X pkt)) := by
  have hans : N.answers X pkt = [] := by
    unfold answers
    rw [hm]
  rw [hans]
  exact hs.update_quiet (.handleMsg pkt.src (.nack n) hidle) (AckState.invokeNackHandler_keeps n)
    (AckState.invokeNackHandler_ackedOk (hs.acked X) n)
    (AckState.handleMsg_invoking (N.cfg X) (N.pc X) (N.addr X) pkt.src (m := .nack n)
      fun _ => nofun)

/-- A packet received by the member its address reaches, while its packet listener is free. -/
theorem SafeInv.receive (hwf : N.WF) (hs : N.SafeInv c) {pkt : Packet} (hin : pkt ∈ c.net)
    {X : String} (hX : N.owner pkt.dst = some X) (hidle : (c.node X).invoking = none)
    (hwrap : (c.node X).sequenceNum.toNat ≤
      ((c.node X).handleMsg (N.cfg X) (N.pc X) (N.addr X) pkt.src pkt.msg).1.sequenceNum.toNat) :
    N.SafeInv (c.update X ((c.node X).handleMsg (N.cfg X) (N.pc X) (N.addr X) pkt.src pkt.msg).1
      ((c.node X).handleMsg (N.cfg X) (N.pc X) (N.addr X) pkt.src pkt.msg).2
      (N.answers X pkt)) := by
  cases hm : pkt.msg with
  | ping q =>
    rw [hm] at hwrap
    exact hs.receive_ping hwf hin hX hidle hm
  | indirectPing ind =>
    rw [hm] at hwrap
    exact hs.receive_indirect hwf hin hX hidle hm hwrap
  | ack a => exact hs.receive_ack hin hX hidle hm
  | nack n => exact hs.receive_nack hidle hm

/-- The delivery of a packet sent so far to the member its address reaches. -/
theorem SafeInv.deliver (hwf : N.WF) (hs : N.SafeInv c) {i : Nat}
    (hact : N.act c (.deliver i) = .ok c')
    (hwrap : ∀ Y, (c.node Y).sequenceNum.toNat ≤ (c'.node Y).sequenceNum.toNat) :
    N.SafeInv c' := by
  simp only [act] at hact
  split at hact
  · next pkt hpkt =>
    split at hact
    · next X hX =>
      split at hact
      · next hidle =>
        cases hact
        exact hs.receive hwf (List.mem_of_getElem? hpkt) hX hidle (by simpa using hwrap X)
      · -- the packet listener is busy: the packet waits
        cases hact
        exact hs
    · cases hact
      exact hs
  · cases hact
    exact hs

/-! ### Over all runs -/

theorem SafeInv.init : N.SafeInv ProbeCluster.init where
  inv _ := AckState.init_inv
  timers _ := AckState.init_timerInv
  fresh _ k hk := by
    simp [ProbeCluster.init, AckState.init, AckState.issued, AckState.probeIds,
      AckState.relayIds] at hk
  nodup _ := by
    simp [ProbeCluster.init, AckState.init, AckState.issued, AckState.probeIds, AckState.relayIds]
  net _ h := by simp [ProbeCluster.init] at h
  relays _ _ hi := by simp [ProbeCluster.init, AckState.init, AckState.relayIds] at hi
  answered _ h := by simp [ProbeCluster.init] at h
  acked _ := AckState.init_ackedOk
  invoking _ _ h := by simp [ProbeCluster.init, AckState.init] at h

/-- Every step without a wrap keeps the invariant. -/
theorem SafeInv.step (hwf : N.WF) (hs : N.SafeInv c) {e : ProbeEvent}
    (hstep : N.NoWrapStep c e c') : N.SafeInv c' := by
  obtain ⟨⟨hat, hact⟩, hwrap⟩ := hstep
  cases e with
  | probe X node => exact hs.probe hact (hwrap X)
  | send X ch res => exact hs.send hwf hat hact
  | direct X ch timeout =>
    cases hact
    exact hs.modifyProbe X ch (.direct timeout) (fun p => p.acked_of_direct timeout)
  | requeue X ch =>
    cases hact
    exact hs.modifyProbe X ch .requeue (fun p => p.acked_of_requeue _)
  | remoteFailure X ch kNodes => exact hs.remoteFailure hwf hat hact
  | indirect X ch =>
    cases hact
    exact hs.modifyProbe X ch .indirect (fun p => p.acked_of_indirect)
  | fallback X ch contact => exact hs.fallback hwf hat hact
  | deliver i => exact hs.deliver hwf hact hwrap
  | ackFn X stopped => exact hs.ackFn hact
  | timer X t => exact hs.timer hact
  | nack X r timeout => exact hs.nack hact

theorem safeInv_of_reachable (hwf : N.WF) (hr : N.ReachableNoWrap c) : N.SafeInv c :=
  Transition.Reach.induct N.SafeInv (by rintro _ rfl; exact SafeInv.init)
    (fun _ _ _ _ hs hstep => hs.step hwf hstep) hr

/-- **No false positive.**  On a run in which no `sequenceNum` wraps around, a probe run of `A`
    that returned acked was answered: a member that the run's record names (any member, for an
    unnamed record) answered a ping naming that member, sent either by `A` under the run's
    sequence number with the ack back to `A`, or by a `handleIndirectPing` call at some `C`
    made for `A`'s request under it, with the ack back to `C`. -/
theorem probe_acked_answered (hwf : N.WF) (hr : N.ReachableNoWrap c) {A : String} {ch : Nat}
    {p : probeRun} (hp : (c.node A).probes[ch]? = some p) (hacked : p.phase = .acked) :
    ∃ e ∈ c.answered, e.ping.Node = p.node.Node.Name ∧
      (p.node.Node.Name = "" ∨ e.node = p.node.Node.Name) ∧
      ((N.owner e.dst = some A ∧ e.ping.SeqNo = p.seqNo) ∨
        ∃ C, ∃ i ∈ (c.node C).relayIds, N.owner e.dst = some C ∧ e.ping.SeqNo = i.localSeqNo ∧
          N.owner i.indAddr = some A ∧ i.seqNo = p.seqNo) := by
  have hs := safeInv_of_reachable hwf hr
  obtain ⟨e, he, hnode, hway⟩ := hs.acked A ch p hp (Or.inr hacked)
  replace hnode : e.ping.Node = p.node.Node.Name := hnode
  obtain ⟨hmem, hans, -⟩ := hs.answered e he
  refine ⟨e, he, hnode, ?_, hway⟩
  -- the member that answered checked that the ping names it or no one
  rcases hans with h | h
  · exact Or.inl (hnode ▸ h)
  · exact Or.inr (by rw [← hnode, h, hwf.named _ hmem])

/-- `a` pings `b`, `b` answers, and the ack reaches `a`'s packet listener; the ack closure then
    offers it to the run, and the run takes it. -/
theorem answered_run :
    ∃ c, twoMembers.ReachableNoWrap c ∧ (c.node "a").invoking ≠ none ∧
      ∃ c', Transition.Steps twoMembers.NoWrapStep c [.ackFn "a" true, .direct "a" 0 false] c' ∧
        ((c'.node "a").probes[0]?).map probeRun.phase = some .acked := by
  have ha : "a" ∈ twoMembers.members := by simp [twoMembers]
  refine ⟨_, .step (.step (.step (.step (.base rfl)
      (show twoMembers.NoWrapStep _ (.probe "a" recordB) _ from ⟨⟨ha, rfl⟩, ?_⟩))
      (show twoMembers.NoWrapStep _ (.send "a" 0 .sent) _ from ⟨⟨ha, rfl⟩, ?_⟩))
      (show twoMembers.NoWrapStep _ (.deliver 0) _ from ⟨⟨trivial, rfl⟩, ?_⟩))
      (show twoMembers.NoWrapStep _ (.deliver 1) _ from ⟨⟨trivial, rfl⟩, ?_⟩),
    by decide, _, .cons ⟨⟨ha, rfl⟩, ?_⟩ (.cons ⟨⟨ha, rfl⟩, ?_⟩ (.nil _)), by decide⟩
  -- only `a`'s counter moves, from 0 to 1
  all_goals
    intro Y
    by_cases hYa : Y = "a"
    · subst hYa
      decide
    · by_cases hYb : Y = "b"
      · subst hYb
        decide
      · simp [hYa, hYb, ProbeCluster.init, ProbeCluster.update]

/-- `a`'s run of `answered_run` returns acked. -/
theorem probe_acked_answered_run :
    ∃ c p, twoMembers.ReachableNoWrap c ∧ (c.node "a").probes[0]? = some p ∧
      p.phase = .acked ∧
      ∃ e ∈ c.answered, e.ping.Node = p.node.Node.Name ∧
        (p.node.Node.Name = "" ∨ e.node = p.node.Node.Name) ∧
        ((twoMembers.owner e.dst = some "a" ∧ e.ping.SeqNo = p.seqNo) ∨
          ∃ C, ∃ i ∈ (c.node C).relayIds, twoMembers.owner e.dst = some C ∧
            e.ping.SeqNo = i.localSeqNo ∧ twoMembers.owner i.indAddr = some "a" ∧
            i.seqNo = p.seqNo) := by
  obtain ⟨c₀, hr₀, -, c, hsteps, hacked⟩ := answered_run
  have hc : twoMembers.ReachableNoWrap c := hr₀.steps hsteps
  obtain ⟨p, hp, hph⟩ := Option.map_eq_some_iff.mp hacked
  exact ⟨c, p, hc, hp, hph, probe_acked_answered twoMembers_wf hc hp hph⟩

end ProbeNet

end memberlist
