import Memberlist.Net.AckSpec
import Mathlib

/-!
# Every wait on `ackCh` is answered

`probeNode` blocks on `ackCh` three times: in the select after the ping, which `ProbeTimeout`
also ends; in the put-back `ackCh <- v` of an incomplete message taken in that select; and in
`v := <-ackCh` after the indirect pings, which only a message ends.  The messages come from the
closures of `setProbeChannels`: the ack closure when an ack arrives, and the reaping timer, which
the run starts with its ping and which writes `ackMessage{false}` when it fires.  Both sends are
`select`s with a `default` case, so they land only while the channel has room.  This module
shows what every function keeps, whatever was delivered, stopped or fired before:

* `AckState.Armed s ch` — an armed timer that will write the run `ch`; `AckState.Live` — a run
  that waits on `ackCh` holds a message or has such a timer.  Every function keeps it while
  `ackCh` has room for a message (`fireTimer_live`, `invokeAckFn_live`, ...).
* `AckState.load s ch` — what can still reach the run `ch`: the messages it holds, its ack
  handler (in `ackHandlers` or in the packet listener's hands), and its timer while not done.
  `AckState.LoadInv` — at most two, whatever the size of `ackCh`; every function keeps it
  (`probeStart_loadInv`, `handleMsg_load_le`, ...).  So the put-back finds room once `ackCh`
  has room for two messages (`LoadInv.requeue_room`).
* `probeRun.rank` — how far a run is from returning: no function raises it (`RankLe`), and
  each phase has a move of the member's own that lowers it.
-/

namespace memberlist

/-- The phases in which a run waits on `ackCh`: the select after the ping, the put-back, the
    remote failure on the way to `v := <-ackCh`, and that receive. -/
def probePhase.Waits : probePhase → Bool
  | .direct | .requeue _ | .failing | .indirect => true
  | _ => false

/-- The phases in which `probeNode` has returned. -/
def probePhase.Done : probePhase → Bool
  | .acked | .abandoned | .suspected => true
  | _ => false

/-- A send into a channel with room for a message lands or finds one there. -/
theorem offer_ne_nil {α : Type} {cap : Nat} (hcap : 0 < cap) (waiting : Bool) (buf : List α)
    (x : α) : offer cap waiting buf x ≠ [] := by
  unfold offer
  split
  · simp
  · rename_i hfull
    intro hnil
    rw [hnil] at hfull
    simp at hfull
    omega

/-- A message in the channel stays there. -/
theorem offer_ne_nil_of_ne_nil {α : Type} {cap : Nat} (waiting : Bool) {buf : List α}
    (hbuf : buf ≠ []) (x : α) : offer cap waiting buf x ≠ [] := by
  unfold offer
  split
  · simp
  · exact hbuf

/-- A send adds at most one message. -/
theorem length_offer_le {α : Type} (cap : Nat) (waiting : Bool) (buf : List α) (x : α) :
    (offer cap waiting buf x).length ≤ buf.length + 1 := by
  unfold offer
  split <;> simp

/-- A change of one element changes a count by what it does to that element. -/
theorem countP_modify_add {α : Type} {p : α → Bool} {l : List α} {t : Nat} {x : α}
    (h : l[t]? = some x) (f : α → α) :
    (l.modify t f).countP p + (if p x then 1 else 0) = l.countP p + (if p (f x) then 1 else 0) := by
  induction l generalizing t with
  | nil => simp at h
  | cons y l ih =>
    cases t with
    | zero =>
      simp only [List.getElem?_cons_zero, Option.some.injEq] at h
      subst h
      simp only [List.modify_zero_cons, List.countP_cons]
      omega
    | succ t =>
      simp only [List.getElem?_cons_succ] at h
      simp only [List.modify_succ_cons, List.countP_cons]
      have := ih h
      omega

/-- Taking a key out of an association list takes its entry out of every count. -/
theorem countP_erase_add {α β : Type} [DecidableEq α] {p : (Σ _ : α, β) → Bool}
    {l : AList (fun _ : α => β)} {k : α} {b : β} (hk : l.lookup k = some b) :
    (l.erase k).entries.countP p + (if p ⟨k, b⟩ then 1 else 0) = l.entries.countP p := by
  have hmem : k ∈ l.entries.keys := AList.lookup_isSome.mp (by rw [hk]; rfl)
  obtain ⟨b', l₁, l₂, -, hl, he⟩ := List.exists_of_kerase hmem
  -- the entry found is the one under `k`
  have hb : b' = b := by
    have : b' ∈ l.lookup k := AList.mem_lookup_iff.mpr (by rw [hl]; simp)
    rw [hk] at this
    exact (Option.some.inj this).symm
  subst hb
  show (l.entries.kerase k).countP p + _ = _
  rw [he, hl]
  simp only [List.countP_append, List.countP_cons]
  omega

theorem countP_erase_le {α β : Type} [DecidableEq α] (p : (Σ _ : α, β) → Bool)
    (l : AList (fun _ : α => β)) (k : α) : (l.erase k).entries.countP p ≤ l.entries.countP p :=
  (List.kerase_sublist k l.entries).countP_le

theorem countP_insert_le {α β : Type} [DecidableEq α] (p : (Σ _ : α, β) → Bool)
    (l : AList (fun _ : α => β)) (k : α) (b : β) :
    (l.insert k b).entries.countP p ≤ l.entries.countP p + (if p ⟨k, b⟩ then 1 else 0) := by
  rw [AList.entries_insert, List.countP_cons]
  have := (List.kerase_sublist k l.entries).countP_le (p := p)
  omega

namespace probeRun

/-- How far a run is from returning: the timer not yet started, the select after the ping, the
    put-back, the remote failure, the wait on an empty `ackCh`, the wait on a message, the
    fallback, and none once returned. -/
def rank (p : probeRun) : Nat :=
  match p.phase with
  | .installing _ => 7
  | .direct => 6
  | .requeue _ => 5
  | .failing => 4
  | .indirect => if p.ackCh = [] then 3 else 2
  | .fallback => 1
  | .acked | .abandoned | .suspected => 0

theorem rank_eq_zero_iff {p : probeRun} : p.rank = 0 ↔ p.phase.Done = true := by
  cases hph : p.phase <;> simp [rank, probePhase.Done, hph]
  -- waiting on `ackCh`, with or without a message
  split <;> simp

/-- A change of a run that keeps what its wait relies on: it waits only where it waited, and
    while it waits it keeps a message it held. -/
def KeepsWait (p q : probeRun) : Prop :=
  q.phase.Waits = true → p.phase.Waits = true ∧ (p.msgs ≠ [] → q.msgs ≠ [])

theorem keepsWait_of_done {p q : probeRun} (hph : q.phase.Waits = false) : p.KeepsWait q := by
  intro hw
  rw [hph] at hw
  cases hw

/-- A change that keeps the phase and leaves a message in `ackCh`: an offer that landed. -/
theorem keepsWait_offer {p q : probeRun} (hph : q.phase = p.phase) (hch : q.msgs ≠ []) :
    p.KeepsWait q := by
  intro hw
  rw [hph] at hw
  exact ⟨hw, fun _ => hch⟩

theorem keepsWait_of_msgs {p q : probeRun} (hph : q.phase.Waits = true → p.phase.Waits = true)
    (hm : q.msgs.length = p.msgs.length) : p.KeepsWait q := by
  intro hw
  refine ⟨hph hw, fun hne hq => hne ?_⟩
  rw [← List.length_eq_zero_iff, ← hm, hq, List.length_nil]

variable (p : probeRun)

theorem keepsWait_offerNack (cap : Nat) : p.KeepsWait (p.offerNack cap) :=
  keepsWait_of_msgs id rfl

theorem keepsWait_direct (timeout : Bool) : p.KeepsWait (p.direct timeout) := by
  unfold direct
  split
  · rename_i hph
    split
    · -- the timeout: on to the remote failure, with `ackCh` as it was
      exact keepsWait_of_msgs (fun _ => by simp [hph, probePhase.Waits])
        (by simp [msgs, hph, probePhase.held])
    · split
      · split
        · exact keepsWait_of_done rfl
        · -- the timer's message, held to be put back
          rename_i v rest hch _
          exact keepsWait_of_msgs (fun _ => by simp [hph, probePhase.Waits])
            (by simp [msgs, hph, hch, probePhase.held])
      · exact keepsWait_of_msgs id rfl
  · exact keepsWait_of_msgs id rfl

theorem keepsWait_requeue (cap : Nat) : p.KeepsWait (p.requeue cap) := by
  unfold requeue
  split
  · rename_i v hph
    split
    · exact keepsWait_of_msgs (fun _ => by simp [hph, probePhase.Waits])
        (by simp [msgs, hph, probePhase.held])
    · exact keepsWait_of_msgs id rfl
  · exact keepsWait_of_msgs id rfl

theorem keepsWait_indirect : p.KeepsWait p.indirect := by
  unfold indirect
  split
  · split
    · split <;> exact keepsWait_of_done rfl
    · exact keepsWait_of_msgs id rfl
  · exact keepsWait_of_msgs id rfl

theorem keepsWait_finish (didContact : Bool) : p.KeepsWait (p.finish didContact) := by
  unfold finish
  split
  · split <;> exact keepsWait_of_done rfl
  · exact keepsWait_of_msgs id rfl

/-! The messages a run holds: its own moves take them, the closures' offers add one. -/

theorem length_msgs_offerAck_le (cap : Nat) (payload : List UInt8) :
    (p.offerAck cap payload).msgs.length ≤ p.msgs.length + 1 := by
  have := length_offer_le cap p.phase.receives p.ackCh (⟨true, payload⟩ : ackMessage)
  simp only [offerAck, msgs, List.length_append] at this ⊢
  omega

theorem length_msgs_offerTimeout_le (cap : Nat) :
    (p.offerTimeout cap).msgs.length ≤ p.msgs.length + 1 := by
  have := length_offer_le cap p.phase.receives p.ackCh (⟨false, []⟩ : ackMessage)
  simp only [offerTimeout, msgs, List.length_append] at this ⊢
  omega

theorem length_msgs_direct_le (timeout : Bool) :
    (p.direct timeout).msgs.length ≤ p.msgs.length := by
  unfold direct
  split
  · rename_i hph
    split
    · simp [msgs, hph, probePhase.held]
    · split
      · rename_i v rest hch
        split <;> simp [msgs, hph, hch, probePhase.held]
      · exact le_refl _
  · exact le_refl _

theorem length_msgs_requeue (cap : Nat) : (p.requeue cap).msgs.length = p.msgs.length := by
  unfold requeue
  split
  · rename_i v hph
    split
    · simp [msgs, hph, probePhase.held]
    · rfl
  · rfl

theorem length_msgs_indirect_le : p.indirect.msgs.length ≤ p.msgs.length := by
  unfold indirect
  split
  · rename_i hph
    split
    · rename_i v rest hch
      split <;> simp [msgs, hph, hch, probePhase.held]
    · exact le_refl _
  · exact le_refl _

theorem length_msgs_finish (didContact : Bool) :
    (p.finish didContact).msgs.length = p.msgs.length := by
  unfold finish
  split
  · rename_i hph
    split <;> simp [msgs, hph, probePhase.held]
  · rfl

/-! ### The rank -/

/-- An offer keeps the phase and any message in `ackCh`, so the rank where it was or lower. -/
theorem rank_offer_le {q : probeRun} (hph : q.phase = p.phase)
    (hch : p.ackCh ≠ [] → q.ackCh ≠ []) : q.rank ≤ p.rank := by
  cases hp : p.phase <;> simp [rank, hph, hp]
  -- the wait after the indirect pings, which may now have its message
  by_cases hq : q.ackCh = []
  · have hpe : p.ackCh = [] := by
      by_contra hne
      exact hch hne hq
    simp [hq, hpe]
  · rw [if_neg hq]
    split <;> omega

theorem rank_offerAck_le (cap : Nat) (payload : List UInt8) :
    (p.offerAck cap payload).rank ≤ p.rank :=
  p.rank_offer_le rfl (offer_ne_nil_of_ne_nil _ · _)

theorem rank_offerTimeout_le (cap : Nat) : (p.offerTimeout cap).rank ≤ p.rank :=
  p.rank_offer_le rfl (offer_ne_nil_of_ne_nil _ · _)

theorem rank_offerNack (cap : Nat) : (p.offerNack cap).rank = p.rank := rfl

theorem rank_direct_le (timeout : Bool) : (p.direct timeout).rank ≤ p.rank := by
  unfold direct
  split
  · rename_i hph
    split
    · simp [rank, hph]
    · split
      · split <;> simp [rank, hph]
      · exact le_refl _
  · exact le_refl _

theorem rank_requeue_le (cap : Nat) : (p.requeue cap).rank ≤ p.rank := by
  unfold requeue
  split
  · rename_i v hph
    split
    · simp [rank, hph]
    · exact le_refl _
  · exact le_refl _

theorem rank_indirect_le : p.indirect.rank ≤ p.rank := by
  unfold indirect
  split
  · rename_i hph
    split
    · split <;> simp_all [rank]
    · exact le_refl _
  · exact le_refl _

theorem rank_finish_le (didContact : Bool) : (p.finish didContact).rank ≤ p.rank := by
  unfold finish
  split
  · rename_i hph
    split <;> simp [rank, hph]
  · exact le_refl _

/-! The moves that lower a rank: each phase has one of the member's own. -/

/-- The select after the ping ends at its timeout, whatever `ackCh` holds. -/
theorem rank_direct_lt (h : p.phase = .direct) : (p.direct true).rank < p.rank := by
  simp [direct, rank, h]

/-- The put-back goes through while `ackCh` has room. -/
theorem rank_requeue_lt {v : ackMessage} {cap : Nat} (h : p.phase = .requeue v)
    (hroom : p.ackCh.length < cap) : (p.requeue cap).rank < p.rank := by
  simp [requeue, rank, h, hroom]

/-- `v := <-ackCh` with a message to take ends the wait. -/
theorem rank_indirect_lt (h : p.phase = .indirect) (hch : p.ackCh ≠ []) :
    p.indirect.rank < p.rank := by
  obtain ⟨v, rest, hv⟩ := List.exists_cons_of_ne_nil hch
  simp only [indirect, h, hv, if_true]
  split <;> simp [rank, h, hv]

/-- The fallback ends the run, whether the TCP ping went through or not. -/
theorem rank_finish_lt (h : p.phase = .fallback) (didContact : Bool) :
    (p.finish didContact).rank < p.rank := by
  cases didContact <;> simp [finish, rank, h]

/-- The reaping timer's message lands in an empty `ackCh` with room for it. -/
theorem rank_offerTimeout_lt {cap : Nat} (hcap : 0 < cap) (h : p.phase = .indirect)
    (hch : p.ackCh = []) : (p.offerTimeout cap).rank < p.rank := by
  have hne := offer_ne_nil hcap p.phase.receives p.ackCh (⟨false, []⟩ : ackMessage)
  simp only [offerTimeout, rank, h, hch] at hne ⊢
  simp [hne]

end probeRun

namespace AckState

/-! ### A message or an armed timer for every wait -/

/-- An armed timer that will write the run `ch` when it fires. -/
def Armed (s : AckState) (ch : Nat) : Prop :=
  ∃ (t : Nat) (τ : ackTimer), s.timers[t]? = some τ ∧ τ.probe = some ch ∧ τ.status = .armed

/-- Nothing blocks a run for good: a run that waits on `ackCh` holds a message or has an armed
    timer that will put one there. -/
def Live (s : AckState) : Prop :=
  ∀ (ch : Nat) (p : probeRun), s.probes[ch]? = some p → p.phase.Waits = true →
    p.msgs ≠ [] ∨ s.Armed ch

theorem init_live : AckState.init.Live := by
  intro ch p hp
  simp [AckState.init] at hp

variable {s s' : AckState}

theorem Armed.of_timers {ch : Nat} (h : s.Armed ch) (ht : s'.timers = s.timers) : s'.Armed ch := by
  unfold Armed
  rw [ht]
  exact h

/-- A timer added keeps every armed one. -/
theorem Armed.append {ch : Nat} (h : s.Armed ch) {l : List ackTimer}
    (ht : s'.timers = s.timers ++ l) : s'.Armed ch := by
  obtain ⟨t, τ, hτ, hch, harm⟩ := h
  exact ⟨t, τ, by rw [ht]; exact getElem?_append_of hτ l, hch, harm⟩

/-- A timer started keeps every armed one. -/
theorem Armed.arm {ch : Nat} (h : s.Armed ch) (t : Nat) :
    (s.armTimer t).Armed ch := by
  obtain ⟨t', τ, hτ, hch, harm⟩ := h
  by_cases htt : t = t'
  · subst htt
    exact ⟨t, { τ with status := .armed }, by simp [armTimer, hτ], hch, rfl⟩
  · exact ⟨t', τ, by simp [armTimer, List.getElem?_modify_ne _ _ htt, hτ], hch, harm⟩

/-- An armed timer of another run survives the stop of `t`. -/
theorem Armed.disarm {ch : Nat} (h : s.Armed ch) {t : Nat} {τ : ackTimer}
    (hτ : s.timers[t]? = some τ) (hne : τ.probe ≠ some ch)
    (ht : s'.timers = s.timers.modify t ackTimer.disarm) : s'.Armed ch := by
  obtain ⟨t', τ', ht', hch, harm⟩ := h
  have htt : t ≠ t' := by
    rintro rfl
    rw [hτ, Option.some.injEq] at ht'
    subst ht'
    exact hne hch
  exact ⟨t', τ', by rw [ht, List.getElem?_modify_ne _ _ htt]; exact ht', hch, harm⟩

/-- The same runs, and every armed timer still armed. -/
theorem Live.of_frame (h : s.Live) (hp : s'.probes = s.probes)
    (ha : ∀ {ch : Nat}, s.Armed ch → s'.Armed ch) : s'.Live := by
  intro ch q hq hw
  rw [hp] at hq
  exact (h _ _ hq hw).imp id ha

/-- A change of one run that keeps what its wait relies on. -/
theorem Live.modifyProbe (h : s.Live) (ch : Nat) {f : probeRun → probeRun}
    (hf : ∀ p : probeRun, p.KeepsWait (f p)) : (s.modifyProbe ch f).Live := by
  intro ch' q hq hw
  simp only [AckState.modifyProbe, List.getElem?_modify] at hq
  obtain ⟨p, hp, hpq⟩ := Option.map_eq_some_iff.mp hq
  split at hpq
  · subst hpq
    obtain ⟨hwp, hch⟩ := hf p hw
    exact (h _ _ hp hwp).imp hch (·.of_timers rfl)
  · subst hpq
    exact (h _ _ hp hw).imp id (·.of_timers rfl)

/-- A store into one run that keeps what its wait relies on. -/
theorem Live.set_probe (h : s.Live) {ch : Nat} {p q : probeRun} (hp : s.probes[ch]? = some p)
    (hq : p.KeepsWait q) : { s with probes := s.probes.set ch q }.Live := by
  intro ch' r hr hw
  change (s.probes.set ch q)[ch']? = some r at hr
  rw [List.getElem?_set] at hr
  split at hr
  · subst ch'
    split at hr
    · cases hr
      obtain ⟨hwp, hch⟩ := hq hw
      exact (h _ _ hp hwp).imp hch (·.of_timers rfl)
    · cases hr
  · exact (h _ _ hr hw).imp id (·.of_timers rfl)

/-- Stopping a timer that writes no run. -/
theorem Live.disarm_none (h : s.Live) (hp : s'.probes = s.probes) {t : Nat} {τ : ackTimer}
    (hτ : s.timers[t]? = some τ) (hnone : τ.probe = none)
    (ht : s'.timers = s.timers.modify t ackTimer.disarm) : s'.Live :=
  h.of_frame hp fun harm => harm.disarm hτ (by rw [hnone]; simp) ht

/-- Stopping the timer of the run `ch`, which a change `f` then leaves with a message. -/
theorem Live.disarm_some (h : s.Live) (hp : s'.probes = s.probes) {t : Nat} {τ : ackTimer}
    (hτ : s.timers[t]? = some τ) {ch : Nat} (hch : τ.probe = some ch)
    (ht : s'.timers = s.timers.modify t ackTimer.disarm) {f : probeRun → probeRun}
    (hf : ∀ p : probeRun, (f p).phase = p.phase ∧ (f p).msgs ≠ []) : (s'.modifyProbe ch f).Live := by
  intro ch' q hq hw
  simp only [AckState.modifyProbe, List.getElem?_modify, hp] at hq
  obtain ⟨p, hp', hpq⟩ := Option.map_eq_some_iff.mp hq
  split at hpq
  · -- the run the stopped timer would have written gets its message
    subst hpq
    exact Or.inl (hf p).2
  · rename_i hne
    subst hpq
    refine (h _ _ hp' hw).imp id fun harm => (harm.disarm hτ ?_ ht).of_timers rfl
    rw [hch]
    simpa using hne

/-- An offer into a channel with room leaves the run it writes with a message. -/
theorem offer_msgs (cap : Nat) (hcap : 0 < cap) :
    ∀ p : probeRun, (p.offerTimeout cap).phase = p.phase ∧ (p.offerTimeout cap).msgs ≠ [] :=
  fun p => ⟨rfl, by
    simp only [probeRun.offerTimeout, probeRun.msgs, ne_eq, List.append_eq_nil_iff, not_and]
    exact fun h => absurd h (offer_ne_nil hcap _ _ _)⟩

theorem offerAck_msgs (cap : Nat) (hcap : 0 < cap) (payload : List UInt8) :
    ∀ p : probeRun, (p.offerAck cap payload).phase = p.phase ∧
      (p.offerAck cap payload).msgs ≠ [] :=
  fun p => ⟨rfl, by
    simp only [probeRun.offerAck, probeRun.msgs, ne_eq, List.append_eq_nil_iff, not_and]
    exact fun h => absurd h (offer_ne_nil hcap _ _ _)⟩

/-! #### What each function keeps -/

variable {cfg : Config} {pc : ProbeConfig} {self : IPPort} {pkts : List Packet}

theorem probeStart_live (h : s.Live) {node : nodeState} (hok : s.probeStart pc node = .ok s') :
    s'.Live := by
  obtain ⟨run, -, -, hph, rfl⟩ := probeStart_spec hok
  intro ch q hq hw
  change (s.probes ++ [run])[ch]? = some q at hq
  rcases lt_or_ge ch s.probes.length with hlt | hge
  · rw [List.getElem?_append_left hlt] at hq
    exact (h _ _ hq hw).imp id (·.append rfl)
  · -- the new run has yet to start its timer, and waits on nothing
    rw [List.getElem?_append_right hge, List.getElem?_singleton] at hq
    split at hq
    · cases hq
      rw [hph] at hw
      cases hw
    · cases hq

/-- The run starts the timer it installed, which writes it. -/
theorem probeSend_live (h : s.Live) (ht : s.TimerInv) (cfg : Config) (self : IPPort) (ch : Nat)
    (res : SendResult) : (s.probeSend cfg self ch res).1.Live := by
  rcases probeSend_spec (s := s) cfg self ch res with heq | ⟨p, t, g, hp, hph, heq, hg, -⟩ <;>
    rw [heq]
  · exact h
  obtain ⟨τ, hτ, hprobe, -⟩ := ht.installing hp (by rw [hph]; rfl)
  intro ch' q hq hw
  simp only [AckState.modifyProbe, armTimer, List.getElem?_modify] at hq
  obtain ⟨q₀, hq₀, hqq⟩ := Option.map_eq_some_iff.mp hq
  split at hqq
  · -- the run now waits on the timer it has just started
    rename_i hcc
    subst hcc
    exact Or.inr ⟨t, { τ with status := .armed }, by simp [modifyProbe, armTimer, hτ], hprobe, rfl⟩
  · subst hqq
    exact (h _ _ hq₀ hw).imp id fun harm => (harm.arm t).of_timers rfl

theorem probeRemoteFailure_live (h : s.Live) (cfg : Config) (pc : ProbeConfig) (self : IPPort)
    (ch : Nat) (kNodes : List Node) : (s.probeRemoteFailure cfg pc self ch kNodes).1.Live := by
  rcases probeRemoteFailure_spec (s := s) cfg pc self ch kNodes with
    heq | ⟨p, q, hp, -, hmsgs, hph, hqph, heq, -⟩ <;> rw [heq]
  · exact h
  · exact h.set_probe hp (probeRun.keepsWait_of_msgs (fun _ => by simp [hph, probePhase.Waits])
      (by rw [hmsgs]))

/-- The timer fires: its handler goes, and the run it is for gets `ackMessage{false}`. -/
theorem fireTimer_live (hcap : 0 < pc.chanCap) (h : s.Live) (t : Nat) :
    (s.fireTimer pc t).Live := by
  rcases fireTimer_spec (s := s) pc t with heq | ⟨τ, hτ, -, ⟨hnone, heq⟩ | ⟨ch, hch, heq⟩⟩ <;>
    rw [heq]
  · exact h
  · -- a timer of `setAckHandler` writes no run
    exact h.disarm_none (by rfl) hτ hnone (by rfl)
  · exact h.disarm_some (by rfl) hτ hch (by rfl) (offer_msgs _ hcap)

/-- The rest of `invokeAckHandler`: the timer it stops is the one of the run its ack closure
    then writes, and the closure's offer lands. -/
theorem invokeAckFn_live (hcap : 0 < pc.chanCap) (h : s.Live) (ht : s.TimerInv) {stopped : Bool}
    (hok : s.invokeAckFn cfg pc self stopped = .ok (s', pkts)) : s'.Live := by
  unfold invokeAckFn at hok
  rcases hiv : s.invoking with _ | ⟨ah, payload⟩
  · simp only [hiv] at hok
    cases hok
    exact h
  simp only [hiv] at hok
  -- the handler's timer writes the run its ack closure writes
  obtain ⟨τ, hτ, hprobe, -⟩ := ht.invoking hiv
  simp only [hτ] at hok
  by_cases hst : τ.status = .unstarted
  · simp [hst] at hok
  simp only [hst, if_false] at hok
  have h₀ : ({ s with invoking := none } : AckState).Live := h.of_frame rfl (·.of_timers rfl)
  rcases hfn : ah.fn with ch | r <;> rw [hfn] at hprobe <;> simp only [hfn] at hok <;>
    cases stopped <;> simp only [Bool.false_eq_true, if_false, if_true] at hok
  · -- the timer left running, and the ack offered
    cases hok
    exact h₀.modifyProbe ch fun p => probeRun.keepsWait_offer rfl (offerAck_msgs _ hcap _ p).2
  · cases hok
    exact h.disarm_some (by rfl) hτ hprobe (by rfl) (offerAck_msgs _ hcap _)
  · -- a relay closure writes no run
    split at hok
    · cases hok
      exact h₀
    · split at hok
      · cases hok
      · cases hok
        exact h₀.of_frame rfl (·.of_timers rfl)
  · have h₁ : ({ s with invoking := none, timers := s.timers.modify ah.timer ackTimer.disarm } :
        AckState).Live := h.disarm_none (by rfl) hτ hprobe (by rfl)
    split at hok
    · cases hok
      exact h₁
    · split at hok
      · cases hok
      · cases hok
        exact h₁.of_frame rfl (·.of_timers rfl)

theorem nackGoroutine_live (h : s.Live) (cfg : Config) (self : IPPort) (r : Nat) (timeout : Bool) :
    (s.nackGoroutine cfg self r timeout).1.Live := by
  rcases nackGoroutine_spec (s := s) cfg self r timeout with heq | ⟨ρ, -, heq, -⟩ <;> rw [heq]
  · exact h
  · exact h.of_frame rfl (·.of_timers rfl)

theorem handleMsg_live (h : s.Live) (from_ : IPPort) (m : ProbeMsg) :
    (s.handleMsg cfg pc self from_ m).1.Live := by
  cases m with
  | ping q => exact h
  | indirectPing ind =>
    -- a call's handler and its timer, which writes no run
    obtain ⟨call, -, -, heq, -⟩ := handleIndirectPing_spec (s := s) cfg self ind from_
    show (s.handleIndirectPing cfg self ind from_).1.Live
    rw [heq]
    exact h.of_frame rfl fun harm => (harm.append (by rfl)).arm _
  | ack a =>
    show (s.invokeAckHandler a).Live
    cases hk : s.ackHandlers.lookup a.SeqNo with
    | none =>
      rw [invokeAckHandler_of_none hk]
      exact h.of_frame rfl (·.of_timers rfl)
    | some ah =>
      rw [invokeAckHandler_of_some hk]
      exact h.of_frame rfl (·.of_timers rfl)
  | nack n =>
    show (s.invokeNackHandler pc n).Live
    rcases invokeNackHandler_spec (s := s) pc n with heq | ⟨ch, heq⟩ <;> rw [heq]
    · exact h
    · exact h.modifyProbe ch fun p => p.keepsWait_offerNack _

/-! ### At most two messages for a run -/

/-- The messages the run `ch` holds. -/
def heldLoad (s : AckState) (ch : Nat) : Nat := (s.probes[ch]?).elim 0 fun p => p.msgs.length

/-- The ack handler of the run `ch`, in `ackHandlers` or in the packet listener's hands. -/
def handlerLoad (s : AckState) (ch : Nat) : Nat :=
  s.ackHandlers.entries.countP (fun e => e.2.fn = .probe ch) +
    s.invoking.toList.countP (fun iv => iv.ah.fn = .probe ch)

/-- The timer of the run `ch`, while it may still fire. -/
def timerLoad (s : AckState) (ch : Nat) : Nat :=
  s.timers.countP fun τ => τ.probe = some ch ∧ τ.status ≠ .done

/-- What can still reach the run `ch`: what it holds, its ack closure and its timer. -/
def load (s : AckState) (ch : Nat) : Nat := s.heldLoad ch + s.handlerLoad ch + s.timerLoad ch

/-- A run receives at most two messages, one from its ack closure and one from its timer, and
    nothing is on its way to a run not yet started. -/
def LoadInv (s : AckState) : Prop :=
  ∀ ch, s.load ch ≤ if ch < s.probes.length then 2 else 0

theorem init_loadInv : AckState.init.LoadInv := by
  intro ch
  simp [AckState.init, load, heldLoad, handlerLoad, timerLoad]

theorem heldLoad_eq {ch : Nat} {p : probeRun} (hp : s.probes[ch]? = some p) :
    s.heldLoad ch = p.msgs.length := by
  simp [heldLoad, hp]

/-- A change of one run that adds at most `d` messages. -/
theorem heldLoad_modifyProbe_le (ch : Nat) {f : probeRun → probeRun} {d : Nat}
    (hf : ∀ p, (f p).msgs.length ≤ p.msgs.length + d) (ch' : Nat) :
    (s.modifyProbe ch f).heldLoad ch' ≤ s.heldLoad ch' + if ch = ch' then d else 0 := by
  cases hp : s.probes[ch']? with
  | none => simp [heldLoad, modifyProbe, List.getElem?_modify, hp]
  | some p =>
    rw [heldLoad_eq (getElem?_modifyProbe_eq' hp f), heldLoad_eq hp]
    split
    · exact hf p
    · omega

/-- Stopping a timer takes it out of the load of the run it writes. -/
theorem timerLoad_disarm {t : Nat} {τ : ackTimer} (hτ : s.timers[t]? = some τ)
    (ht : s'.timers = s.timers.modify t ackTimer.disarm) (ch : Nat) :
    s'.timerLoad ch + (if τ.probe = some ch ∧ τ.status ≠ .done then 1 else 0) = s.timerLoad ch := by
  have := countP_modify_add (p := fun τ : ackTimer => decide (τ.probe = some ch ∧ τ.status ≠ .done))
    hτ ackTimer.disarm
  simp only [ackTimer.disarm, ne_eq, not_true_eq_false, and_false, decide_false,
    Bool.false_eq_true, if_false, add_zero] at this
  simp only [timerLoad, ht]
  simpa using this

/-- Starting a timer that had not started leaves every load as it was. -/
theorem timerLoad_armTimer {t : Nat} {τ : ackTimer} (hτ : s.timers[t]? = some τ)
    (hun : τ.status = .unstarted) (ch : Nat) : (s.armTimer t).timerLoad ch = s.timerLoad ch := by
  have := countP_modify_add (p := fun τ : ackTimer => decide (τ.probe = some ch ∧ τ.status ≠ .done))
    hτ fun τ => { τ with status := .armed }
  -- the timer counts before and after, as long as it writes the run
  have h₁ : decide (τ.probe = some ch ∧ τ.status ≠ .done) = decide (τ.probe = some ch) := by
    simp [hun]
  have h₂ : decide ({ τ with status := .armed }.probe = some ch ∧
      { τ with status := .armed }.status ≠ .done) = decide (τ.probe = some ch) := by
    simp
  rw [h₁, h₂] at this
  simp only [timerLoad, armTimer]
  omega

/-- A change of one run by its own moves. -/
theorem load_modifyProbe_le (ch : Nat) {f : probeRun → probeRun}
    (hf : ∀ p, (f p).msgs.length ≤ p.msgs.length) (ch' : Nat) :
    (s.modifyProbe ch f).load ch' ≤ s.load ch' := by
  have := heldLoad_modifyProbe_le (s := s) ch (d := 0) (fun p => hf p) ch'
  simp only [load, handlerLoad, timerLoad, modifyProbe] at this ⊢
  split at this <;> omega

/-- Under a bound that grows with the runs, a step that raises no load keeps it. -/
theorem LoadInv.of_le (h : s.LoadInv) (hg : s.Grows s') (hle : ∀ ch, s'.load ch ≤ s.load ch) :
    s'.LoadInv := by
  intro ch
  refine (hle ch).trans ((h ch).trans ?_)
  split
  · next hlt =>
    obtain ⟨p, hp⟩ : ∃ p, s.probes[ch]? = some p := ⟨_, List.getElem?_eq_getElem hlt⟩
    obtain ⟨p', hp', -⟩ := hg.probes hp
    simp [(List.getElem?_eq_some_iff.mp hp').1]
  · exact Nat.zero_le _

/-- The run holds at most two messages. -/
theorem LoadInv.msgs_le (h : s.LoadInv) {ch : Nat} {p : probeRun}
    (hp : s.probes[ch]? = some p) : p.msgs.length ≤ 2 := by
  have hch := h ch
  rw [load, heldLoad_eq hp] at hch
  split at hch <;> omega

/-- **The put-back finds room**: a run that holds the timer's message to put back has at most
    one message in `ackCh`. -/
theorem LoadInv.requeue_room (h : s.LoadInv) {ch : Nat} {p : probeRun}
    (hp : s.probes[ch]? = some p) {v : ackMessage} (hph : p.phase = .requeue v) :
    p.ackCh.length ≤ 1 := by
  have := h.msgs_le hp
  simp only [probeRun.msgs, hph, probePhase.held, Option.toList_some, List.length_append,
    List.length_singleton] at this
  omega

/-! #### What each function does to the load -/

/-- A new run, its handler and its timer: a load of two where there was none. -/
theorem probeStart_loadInv (h : s.LoadInv) {node : nodeState}
    (hok : s.probeStart pc node = .ok s') : s'.LoadInv := by
  obtain ⟨run, -, hmsgs, -, rfl⟩ := probeStart_spec hok
  intro ch
  have hch := h ch
  simp only [load, heldLoad, handlerLoad, timerLoad, setProbeChannels, AckState.install,
    List.length_append, List.length_singleton] at hch ⊢
  -- the new run holds nothing
  have hheld : ((s.probes ++ [run])[ch]?.elim 0 fun p => p.msgs.length) ≤
      (s.probes[ch]?.elim 0 fun p => p.msgs.length) := by
    rcases lt_or_ge ch s.probes.length with hlt | hge
    · rw [List.getElem?_append_left hlt]
    · rw [List.getElem?_append_right hge, List.getElem?_singleton]
      split <;> simp [hmsgs]
  -- its handler and its timer are new
  have hins := countP_insert_le (fun e : (Σ _ : UInt32, ackHandler) =>
    decide (e.snd.fn = ackFn.probe ch)) s.ackHandlers (s.sequenceNum + 1)
    ⟨.probe s.probes.length, s.timers.length⟩
  have hnew : (if decide (ackFn.probe s.probes.length = ackFn.probe ch) = true then 1 else 0) =
      (if ch = s.probes.length then 1 else 0) := by
    by_cases hc : ch = s.probes.length
    · simp [hc]
    · simp [hc, Ne.symm hc]
  have htimer : List.countP (fun τ => decide (τ.probe = some ch ∧ τ.status ≠ timerStatus.done))
      (s.timers ++ [⟨s.sequenceNum + 1, some s.probes.length, .unstarted⟩]) =
      List.countP (fun τ => decide (τ.probe = some ch ∧ τ.status ≠ timerStatus.done)) s.timers +
        if ch = s.probes.length then 1 else 0 := by
    by_cases hc : ch = s.probes.length
    · simp [hc]
    · simp [hc, Ne.symm hc]
  rw [hnew] at hins
  rw [htimer]
  rcases lt_trichotomy ch s.probes.length with hlt | rfl | hgt
  · simp only [hlt, if_true, Nat.ne_of_lt hlt, if_false, Nat.lt_succ_of_lt hlt] at hch hins ⊢
    omega
  · simp only [lt_irrefl, if_false, if_true, Nat.lt_succ_self] at hch hins ⊢
    omega
  · simp only [Nat.not_lt.mpr hgt.le, if_false, Nat.ne_of_gt hgt,
      Nat.not_lt.mpr (Nat.succ_le_of_lt hgt)] at hch hins ⊢
    omega

/-- A step whose parts of the load trade: what a run gains in messages, its closures lose. -/
theorem load_le_of {ch a b c : Nat} (hheld : s'.heldLoad ch ≤ s.heldLoad ch + a)
    (hhandler : s'.handlerLoad ch + b ≤ s.handlerLoad ch)
    (htimer : s'.timerLoad ch + c ≤ s.timerLoad ch) (habc : a ≤ b + c) : s'.load ch ≤ s.load ch := by
  unfold load
  omega

theorem heldLoad_of_probes (hp : s'.probes = s.probes) (ch : Nat) :
    s'.heldLoad ch ≤ s.heldLoad ch + 0 := by
  simp [heldLoad, hp]

/-- Fewer handlers, and the same invocation. -/
theorem handlerLoad_of_erase (k : UInt32) (hh : s'.ackHandlers = s.ackHandlers.erase k)
    (hi : s'.invoking = s.invoking) (ch : Nat) : s'.handlerLoad ch + 0 ≤ s.handlerLoad ch := by
  have := countP_erase_le (fun e : (Σ _ : UInt32, ackHandler) => decide (e.snd.fn = ackFn.probe ch))
    s.ackHandlers k
  simp only [handlerLoad, hh, hi]
  omega

theorem timerLoad_of_timers (ht : s'.timers = s.timers) (ch : Nat) :
    s'.timerLoad ch + 0 ≤ s.timerLoad ch := by
  simp [timerLoad, ht]

/-- The invocation ends: its handler leaves the load of its run. -/
theorem handlerLoad_of_invoking {iv : ackInvocation} (hiv : s.invoking = some iv)
    (hh : s'.ackHandlers = s.ackHandlers) (hi : s'.invoking = none) (ch : Nat) :
    s'.handlerLoad ch + (if iv.ah.fn = .probe ch then 1 else 0) ≤ s.handlerLoad ch := by
  simp [handlerLoad, hh, hi, hiv, List.countP_singleton]

/-- The invocation, if any, is over: the load of no run rises. -/
theorem handlerLoad_of_idle (hh : s'.ackHandlers = s.ackHandlers) (hi : s'.invoking = none)
    (ch : Nat) : s'.handlerLoad ch + 0 ≤ s.handlerLoad ch := by
  simp [handlerLoad, hh, hi]

/-- Stopping a timer lowers a load or leaves it. -/
theorem timerLoad_disarm_le {t : Nat} {τ : ackTimer} (hτ : s.timers[t]? = some τ)
    (ht : s'.timers = s.timers.modify t ackTimer.disarm) (ch : Nat) :
    s'.timerLoad ch + 0 ≤ s.timerLoad ch := by
  have := timerLoad_disarm hτ ht ch
  omega

theorem probeSend_load_le (ht : s.TimerInv) (cfg : Config) (self : IPPort) (ch : Nat)
    (res : SendResult) (ch' : Nat) : (s.probeSend cfg self ch res).1.load ch' ≤ s.load ch' := by
  rcases probeSend_spec (s := s) cfg self ch res with heq | ⟨p, t, g, hp, hph, heq, hg, -⟩ <;>
    rw [heq]
  -- the timer started had not started, and the run keeps its messages
  obtain ⟨τ, hτ, -, hun⟩ := ht.installing hp (by rw [hph]; rfl)
  have harm : (s.armTimer t).load ch' = s.load ch' := by
    simp only [load, timerLoad_armTimer hτ hun]
    rfl
  rw [← harm]
  refine load_modifyProbe_le ch (fun q => ?_) ch'
  obtain ⟨-, hch, hsent⟩ := hg q
  simp only [probeRun.msgs, hch, List.length_append]
  rcases hsent with h' | h' | h' <;> rw [h'] <;> simp [probePhase.held]

theorem probeRemoteFailure_load_le (cfg : Config) (pc : ProbeConfig) (self : IPPort) (ch : Nat)
    (kNodes : List Node) (ch' : Nat) :
    (s.probeRemoteFailure cfg pc self ch kNodes).1.load ch' ≤ s.load ch' := by
  rcases probeRemoteFailure_spec (s := s) cfg pc self ch kNodes with
    heq | ⟨p, q, hp, -, hmsgs, -, -, heq, -⟩ <;> rw [heq]
  -- the run keeps its messages
  refine load_le_of (a := 0) (b := 0) (c := 0) ?_ (by simp [handlerLoad])
    (timerLoad_of_timers rfl ch') (le_refl _)
  simp only [heldLoad, List.getElem?_set]
  split
  · next hc =>
    subst hc
    obtain ⟨hlt, hget⟩ := List.getElem?_eq_some_iff.mp hp
    simp [hlt, hget, hmsgs]
  · exact le_refl _

/-- The timer fires: it leaves the load of its run, which gains at most its message. -/
theorem fireTimer_load_le (pc : ProbeConfig) (t : Nat) (ch : Nat) :
    (s.fireTimer pc t).load ch ≤ s.load ch := by
  rcases fireTimer_spec (s := s) pc t with heq | ⟨τ, hτ, harm, ⟨-, heq⟩ | ⟨c, hc, heq⟩⟩ <;>
    rw [heq]
  · exact load_le_of (a := 0) (b := 0) (c := 0) (heldLoad_of_probes (by rfl) ch)
      (handlerLoad_of_erase τ.seqNo (by rfl) (by rfl) ch) (timerLoad_disarm_le hτ (by rfl) ch)
      (le_refl _)
  · refine load_le_of (a := if c = ch then 1 else 0) (b := 0)
      (c := if τ.probe = some ch ∧ τ.status ≠ .done then 1 else 0) ?_
      (handlerLoad_of_erase τ.seqNo (by rfl) (by rfl) ch)
      (le_of_eq (timerLoad_disarm hτ (by rfl) ch)) ?_
    · exact heldLoad_modifyProbe_le c (fun p => p.length_msgs_offerTimeout_le _) ch
    · by_cases hcc : c = ch <;> simp [hcc, hc, harm]

theorem nackGoroutine_load_le (cfg : Config) (self : IPPort) (r : Nat) (timeout : Bool)
    (ch : Nat) : (s.nackGoroutine cfg self r timeout).1.load ch ≤ s.load ch := by
  rcases nackGoroutine_spec (s := s) cfg self r timeout with heq | ⟨ρ, -, heq, -⟩ <;> rw [heq]
  exact le_refl _

/-- The packet listener takes an ack's handler out only while it is free: the handler moves
    from `ackHandlers` to its hands. -/
theorem handleMsg_load_le (hidle : s.invoking = none) (from_ : IPPort) (m : ProbeMsg) (ch : Nat) :
    (s.handleMsg cfg pc self from_ m).1.load ch ≤ s.load ch := by
  cases m with
  | ping q => exact le_refl _
  | indirectPing ind =>
    obtain ⟨call, -, -, heq, -⟩ := handleIndirectPing_spec (s := s) cfg self ind from_
    show (s.handleIndirectPing cfg self ind from_).1.load ch ≤ s.load ch
    rw [heq]
    -- a call's handler and its timer, which write no run
    refine load_le_of (a := 0) (b := 0) (c := 0) (heldLoad_of_probes (by rfl) ch) ?_ ?_
      (le_refl _)
    · have := countP_insert_le (fun e : (Σ _ : UInt32, ackHandler) =>
        decide (e.snd.fn = ackFn.probe ch)) s.ackHandlers (s.sequenceNum + 1)
        ⟨.relay s.relays.length, s.timers.length⟩
      simp only [reduceCtorEq, decide_false, Bool.false_eq_true, if_false, add_zero] at this
      simpa [handlerLoad, setAckHandler, AckState.install, armTimer] using this
    · have hx : (s.timers ++ [⟨s.sequenceNum + 1, none, .unstarted⟩])[s.timers.length]? =
          some ⟨s.sequenceNum + 1, none, .unstarted⟩ := by simp
      have := countP_modify_add
        (p := fun τ : ackTimer => decide (τ.probe = some ch ∧ τ.status ≠ .done)) hx
        fun τ => { τ with status := .armed }
      simp only [reduceCtorEq, false_and, decide_false, Bool.false_eq_true, if_false,
        add_zero, List.countP_append, List.countP_singleton] at this
      simp only [timerLoad, setAckHandler, AckState.install, armTimer, this]
      exact le_refl _
  | ack a =>
    show (s.invokeAckHandler a).load ch ≤ s.load ch
    cases hk : s.ackHandlers.lookup a.SeqNo with
    | none =>
      rw [invokeAckHandler_of_none hk]
      exact load_le_of (a := 0) (b := 0) (c := 0) (heldLoad_of_probes (by rfl) ch)
        (handlerLoad_of_erase a.SeqNo (by rfl) (by rfl) ch) (timerLoad_of_timers (by rfl) ch)
        (le_refl _)
    | some ah =>
      rw [invokeAckHandler_of_some hk]
      refine load_le_of (a := 0) (b := 0) (c := 0) (heldLoad_of_probes (by rfl) ch) ?_
        (timerLoad_of_timers (by rfl) ch) (le_refl _)
      -- the handler taken out is the one the packet listener now holds
      have := countP_erase_add (p := fun e : (Σ _ : UInt32, ackHandler) =>
        decide (e.snd.fn = ackFn.probe ch)) hk
      simp only [handlerLoad, hidle, Option.toList_some, Option.toList_none, List.countP_nil,
        List.countP_singleton] at this ⊢
      omega
  | nack n =>
    show (s.invokeNackHandler pc n).load ch ≤ s.load ch
    rcases invokeNackHandler_spec (s := s) pc n with heq | ⟨c, heq⟩ <;> rw [heq]
    exact load_modifyProbe_le (f := probeRun.offerNack pc.chanCap) c (fun p => le_refl _) ch

/-- The rest of `invokeAckHandler`: the handler leaves its run's load, which gains at most the
    ack. -/
theorem invokeAckFn_load_le {stopped : Bool}
    (hok : s.invokeAckFn cfg pc self stopped = .ok (s', pkts)) (ch : Nat) :
    s'.load ch ≤ s.load ch := by
  obtain ⟨s₁, hh, hi, hp, -, -, ht, hcase⟩ := invokeAckFn_spec hok
  -- the handler's timer is left running or stopped
  have htimer : s₁.timerLoad ch + 0 ≤ s.timerLoad ch := by
    rcases ht with ht | ⟨iv, τ, -, hτ, -, ht⟩
    · exact timerLoad_of_timers ht ch
    · exact timerLoad_disarm_le hτ ht ch
  rcases hcase with ⟨rfl, -⟩ | ⟨iv, c, hiv, hfn, rfl, -⟩ | ⟨iv, r, ρ, -, -, -, rfl, -⟩
  · exact load_le_of (a := 0) (heldLoad_of_probes hp ch) (handlerLoad_of_idle hh hi ch) htimer
      (Nat.zero_le _)
  · -- the ack closure's offer
    refine load_le_of (a := if c = ch then 1 else 0) ?_ (handlerLoad_of_invoking hiv hh hi ch)
      htimer ?_
    · calc (s₁.modifyProbe c _).heldLoad ch ≤ s₁.heldLoad ch + (if c = ch then 1 else 0) :=
            heldLoad_modifyProbe_le c (fun p => p.length_msgs_offerAck_le _ _) ch
        _ = s.heldLoad ch + (if c = ch then 1 else 0) := by simp [heldLoad, hp]
    · by_cases hcc : c = ch <;> simp [hcc, hfn]
  · -- a relay closure writes no run
    exact load_le_of (a := 0) (heldLoad_of_probes hp ch) (handlerLoad_of_idle hh hi ch) htimer
      (Nat.zero_le _)

/-! ### No function raises a rank -/

/-- Every run of `s` is still in `s'`, at a rank no higher. -/
def RankLe (s s' : AckState) : Prop :=
  ∀ (ch : Nat) (p : probeRun), s.probes[ch]? = some p →
    ∃ p' : probeRun, s'.probes[ch]? = some p' ∧ p'.rank ≤ p.rank

theorem RankLe.refl (s : AckState) : RankLe s s := fun _ _ hp => ⟨_, hp, le_refl _⟩

theorem RankLe.of_probes (hp : s'.probes = s.probes) : RankLe s s' :=
  fun _ _ hq => ⟨_, hp ▸ hq, le_refl _⟩

theorem RankLe.trans {s₁ s₂ : AckState} (h₁ : RankLe s s₁) (h₂ : RankLe s₁ s₂) :
    RankLe s s₂ := by
  intro ch p hp
  obtain ⟨p₁, hp₁, hle₁⟩ := h₁ ch p hp
  obtain ⟨p₂, hp₂, hle₂⟩ := h₂ ch p₁ hp₁
  exact ⟨p₂, hp₂, hle₂.trans hle₁⟩

/-- A change of the run `ch` that lowers it or keeps its rank. -/
theorem rankLe_modifyProbe (ch : Nat) {f : probeRun → probeRun}
    (hf : ∀ p, s.probes[ch]? = some p → (f p).rank ≤ p.rank) : RankLe s (s.modifyProbe ch f) := by
  intro ch' p hp
  refine ⟨_, getElem?_modifyProbe_eq' hp f, ?_⟩
  split
  · next hc =>
    subst hc
    exact hf p hp
  · exact le_refl _

theorem rankLe_set_probe {ch : Nat} {p q : probeRun} (hp : s.probes[ch]? = some p)
    (hq : q.rank ≤ p.rank) : RankLe s { s with probes := s.probes.set ch q } := by
  intro ch' r hr
  by_cases hc : ch = ch'
  · subst hc
    rw [hp] at hr
    cases hr
    exact ⟨q, by simp [(List.getElem?_eq_some_iff.mp hp).1], hq⟩
  · exact ⟨r, by simp [List.getElem?_set_ne hc, hr], le_refl _⟩

theorem probeStart_rankLe {node : nodeState} (hok : s.probeStart pc node = .ok s') :
    RankLe s s' := by
  obtain ⟨run, -, -, -, rfl⟩ := probeStart_spec hok
  intro ch p hp
  exact ⟨p, getElem?_append_of hp [run], le_refl _⟩

/-- The ping goes out, or the run gives up: it leaves the wait for its timer. -/
theorem probeSend_rankLe (cfg : Config) (self : IPPort) (ch : Nat) (res : SendResult) :
    RankLe s (s.probeSend cfg self ch res).1 := by
  rcases probeSend_spec (s := s) cfg self ch res with heq | ⟨p, t, g, hp, hph, heq, hg, -⟩ <;>
    rw [heq]
  · exact RankLe.refl s
  · refine rankLe_modifyProbe (s := s.armTimer t) ch fun q hq => ?_
    rw [show (s.armTimer t).probes = s.probes from rfl, hp] at hq
    cases hq
    rcases (hg p).2.2 with h | h | h <;> simp [probeRun.rank, h, hph]

theorem probeRemoteFailure_rankLe (cfg : Config) (pc : ProbeConfig) (self : IPPort) (ch : Nat)
    (kNodes : List Node) : RankLe s (s.probeRemoteFailure cfg pc self ch kNodes).1 := by
  rcases probeRemoteFailure_spec (s := s) cfg pc self ch kNodes with
    heq | ⟨p, q, hp, -, -, hph, hqph, heq, -⟩ <;> rw [heq]
  · exact RankLe.refl s
  · -- from the remote failure to the wait on `ackCh`
    refine rankLe_set_probe hp ?_
    simp only [probeRun.rank, hph, hqph]
    split <;> omega

theorem fireTimer_rankLe (pc : ProbeConfig) (t : Nat) : RankLe s (s.fireTimer pc t) := by
  rcases fireTimer_spec (s := s) pc t with heq | ⟨τ, -, -, ⟨-, heq⟩ | ⟨c, -, heq⟩⟩ <;> rw [heq]
  · exact RankLe.refl s
  · exact RankLe.of_probes rfl
  · exact RankLe.trans (RankLe.of_probes rfl)
      (rankLe_modifyProbe c fun p _ => p.rank_offerTimeout_le _)

theorem invokeAckFn_rankLe {stopped : Bool}
    (hok : s.invokeAckFn cfg pc self stopped = .ok (s', pkts)) : RankLe s s' := by
  obtain ⟨s₁, -, -, hp, -, -, -, hcase⟩ := invokeAckFn_spec hok
  have h₁ : RankLe s s₁ := RankLe.of_probes hp
  rcases hcase with ⟨rfl, -⟩ | ⟨iv, c, -, -, rfl, -⟩ | ⟨iv, r, ρ, -, -, -, rfl, -⟩
  · exact h₁
  · exact h₁.trans (rankLe_modifyProbe c fun p _ => p.rank_offerAck_le _ _)
  · exact h₁.trans (RankLe.of_probes rfl)

theorem nackGoroutine_rankLe (cfg : Config) (self : IPPort) (r : Nat) (timeout : Bool) :
    RankLe s (s.nackGoroutine cfg self r timeout).1 := by
  rcases nackGoroutine_spec (s := s) cfg self r timeout with heq | ⟨ρ, -, heq, -⟩ <;> rw [heq]
  · exact RankLe.refl s
  · -- the goroutine only takes its call off the relays
    exact RankLe.of_probes rfl

theorem handleMsg_rankLe (from_ : IPPort) (m : ProbeMsg) :
    RankLe s (s.handleMsg cfg pc self from_ m).1 := by
  cases m with
  | ping q => exact RankLe.refl s
  | indirectPing ind =>
    obtain ⟨call, -, -, heq, -⟩ := handleIndirectPing_spec (s := s) cfg self ind from_
    show RankLe s (s.handleIndirectPing cfg self ind from_).1
    rw [heq]
    -- a relay touches no run
    exact RankLe.of_probes rfl
  | ack a =>
    show RankLe s (s.invokeAckHandler a)
    cases hk : s.ackHandlers.lookup a.SeqNo with
    | none =>
      rw [invokeAckHandler_of_none hk]
      exact RankLe.of_probes rfl
    | some ah =>
      rw [invokeAckHandler_of_some hk]
      exact RankLe.of_probes rfl
  | nack n =>
    show RankLe s (s.invokeNackHandler pc n)
    rcases invokeNackHandler_spec (s := s) pc n with heq | ⟨c, heq⟩ <;> rw [heq]
    · exact RankLe.refl s
    · exact rankLe_modifyProbe c fun p _ => le_of_eq (p.rank_offerNack _)

/-! ### The moves that lower a rank -/

/-- The run starts its timer and sends the ping, or gives up. -/
theorem probeSend_lowers {ch : Nat} {p : probeRun} (hp : s.probes[ch]? = some p) {t : Nat}
    (h : p.phase = .installing t) (cfg : Config) (self : IPPort) (res : SendResult) :
    ∃ q : probeRun, (s.probeSend cfg self ch res).1.probes[ch]? = some q ∧ q.rank < p.rank := by
  have hq : ∀ g : probeRun → probeRun, ((s.armTimer t).modifyProbe ch g).probes[ch]? =
      some (g p) := fun g => by
    rw [getElem?_modifyProbe_eq' (show (s.armTimer t).probes[ch]? = some p from hp), if_pos rfl]
  simp only [probeSend, hp, h]
  split
  · exact ⟨_, hq _, by simp [probeRun.rank, h]⟩
  · cases res <;> exact ⟨_, hq _, by simp [probeRun.rank, h]⟩

/-- `HANDLE_REMOTE_FAILURE` sends the run on to the wait after the indirect pings. -/
theorem probeRemoteFailure_lowers {ch : Nat} {p : probeRun} (hp : s.probes[ch]? = some p)
    (h : p.phase = .failing) (cfg : Config) (pc : ProbeConfig) (self : IPPort)
    (kNodes : List Node) :
    ∃ q : probeRun, (s.probeRemoteFailure cfg pc self ch kNodes).1.probes[ch]? = some q ∧
      q.rank < p.rank := by
  simp only [probeRemoteFailure, hp, h, if_true]
  refine ⟨_, List.getElem?_set_self (List.getElem?_eq_some_iff.mp hp).1, ?_⟩
  simp only [probeRun.rank, h]
  split <;> omega

/-- An armed timer of a run that waits on an empty `ackCh` fires and leaves its message
    there. -/
theorem Armed.fireTimer_lowers (hcap : 0 < pc.chanCap) {ch : Nat} (ha : s.Armed ch)
    {p : probeRun} (hp : s.probes[ch]? = some p) (h : p.phase = .indirect) (hch : p.ackCh = []) :
    ∃ (t : Nat) (q : probeRun), (s.fireTimer pc t).probes[ch]? = some q ∧ q.rank < p.rank := by
  obtain ⟨t, τ, hτ, hprobe, harmed⟩ := ha
  refine ⟨t, _, ?_, p.rank_offerTimeout_lt hcap h hch⟩
  simp [fireTimer, hτ, hprobe, harmed, modifyProbe, hp]

/-! ### A put-back that finds the buffer full -/

/-- The run `ch` is stuck in its put-back of `v`: the buffer of `ackCh` is full, and only
    `probeNode` itself receives from it. -/
def StuckAt (s : AckState) (cap ch : Nat) (v : ackMessage) : Prop :=
  ∃ p, s.probes[ch]? = some p ∧ p.phase = .requeue v ∧ cap ≤ p.ackCh.length

variable {cap ch : Nat} {v : ackMessage}

theorem StuckAt.of_probes (h : s.StuckAt cap ch v) (hp : s'.probes = s.probes) :
    s'.StuckAt cap ch v := by
  unfold StuckAt
  rw [hp]
  exact h

/-- A change of the run `ch'` that keeps a stuck run stuck. -/
theorem StuckAt.modifyProbe (h : s.StuckAt cap ch v) (ch' : Nat) {f : probeRun → probeRun}
    (hf : ∀ p, s.probes[ch']? = some p → p.phase = .requeue v → cap ≤ p.ackCh.length →
      (f p).phase = .requeue v ∧ cap ≤ (f p).ackCh.length) :
    (s.modifyProbe ch' f).StuckAt cap ch v := by
  obtain ⟨p, hp, hph, hfull⟩ := h
  refine ⟨_, getElem?_modifyProbe_eq' hp f, ?_⟩
  split
  · next hc =>
    subst hc
    exact hf p hp hph hfull
  · exact ⟨hph, hfull⟩

/-- An offer keeps the phase, and what the buffer holds. -/
theorem StuckAt.offer (h : s.StuckAt cap ch v) (ch' : Nat) {f : probeRun → probeRun}
    (hf : ∀ p, (f p).phase = p.phase ∧ p.ackCh.length ≤ (f p).ackCh.length) :
    (s.modifyProbe ch' f).StuckAt cap ch v :=
  h.modifyProbe ch' fun p _ hph hfull => ⟨(hf p).1.trans hph, hfull.trans (hf p).2⟩

/-- A store into a run that is not stuck. -/
theorem StuckAt.set_probe (h : s.StuckAt cap ch v) {ch' : Nat} {p q : probeRun}
    (hp : s.probes[ch']? = some p) (hne : p.phase ≠ .requeue v) :
    { s with probes := s.probes.set ch' q }.StuckAt cap ch v := by
  obtain ⟨r, hr, hph, hfull⟩ := h
  have hc : ch' ≠ ch := by
    rintro rfl
    rw [hp, Option.some.injEq] at hr
    exact hne (hr ▸ hph)
  exact ⟨r, by simp [List.getElem?_set_ne hc, hr], hph, hfull⟩

theorem length_le_offer {α : Type} (cap : Nat) (waiting : Bool) (buf : List α) (x : α) :
    buf.length ≤ (offer cap waiting buf x).length := by
  unfold offer
  split <;> simp

theorem probeStart_stuckAt (h : s.StuckAt cap ch v) {node : nodeState}
    (hok : s.probeStart pc node = .ok s') : s'.StuckAt cap ch v := by
  obtain ⟨run, -, -, -, rfl⟩ := probeStart_spec hok
  obtain ⟨p, hp, hstuck⟩ := h
  exact ⟨p, getElem?_append_of hp [run], hstuck⟩

/-- The run that starts its timer is not the one in its put-back. -/
theorem probeSend_stuckAt (h : s.StuckAt cap ch v) (cfg : Config) (self : IPPort) (ch' : Nat)
    (res : SendResult) : (s.probeSend cfg self ch' res).1.StuckAt cap ch v := by
  rcases probeSend_spec (s := s) cfg self ch' res with heq | ⟨p, t, g, hp, hph, heq, -, -⟩ <;>
    rw [heq]
  · exact h
  · refine StuckAt.modifyProbe (s := s.armTimer t) h ch' fun q hq hq' _ => ?_
    rw [show (s.armTimer t).probes = s.probes from rfl, hp, Option.some.injEq] at hq
    subst hq
    rw [hph] at hq'
    cases hq'

theorem probeRemoteFailure_stuckAt (h : s.StuckAt cap ch v) (cfg : Config) (pc : ProbeConfig)
    (self : IPPort) (ch' : Nat) (kNodes : List Node) :
    (s.probeRemoteFailure cfg pc self ch' kNodes).1.StuckAt cap ch v := by
  rcases probeRemoteFailure_spec (s := s) cfg pc self ch' kNodes with
    heq | ⟨p, q, hp, -, -, hph, -, heq, -⟩ <;> rw [heq]
  · exact h
  · exact h.set_probe hp (by rw [hph]; simp)

theorem fireTimer_stuckAt (h : s.StuckAt cap ch v) (pc : ProbeConfig) (t : Nat) :
    (s.fireTimer pc t).StuckAt cap ch v := by
  rcases fireTimer_spec (s := s) pc t with heq | ⟨τ, -, -, ⟨-, heq⟩ | ⟨c, -, heq⟩⟩ <;> rw [heq]
  · exact h
  · exact h.of_probes rfl
  · exact StuckAt.offer (h.of_probes (by rfl)) c fun p => ⟨rfl, length_le_offer _ _ _ _⟩

theorem invokeAckFn_stuckAt (h : s.StuckAt cap ch v) {stopped : Bool}
    (hok : s.invokeAckFn cfg pc self stopped = .ok (s', pkts)) : s'.StuckAt cap ch v := by
  obtain ⟨s₁, -, -, hp, -, -, -, hcase⟩ := invokeAckFn_spec hok
  have h₁ : s₁.StuckAt cap ch v := h.of_probes hp
  rcases hcase with ⟨rfl, -⟩ | ⟨iv, c, -, -, rfl, -⟩ | ⟨iv, r, ρ, -, -, -, rfl, -⟩
  · exact h₁
  · exact h₁.offer c fun p => ⟨rfl, length_le_offer _ _ _ _⟩
  · exact h₁.of_probes rfl

theorem nackGoroutine_stuckAt (h : s.StuckAt cap ch v) (cfg : Config) (self : IPPort) (r : Nat)
    (timeout : Bool) : (s.nackGoroutine cfg self r timeout).1.StuckAt cap ch v := by
  rcases nackGoroutine_spec (s := s) cfg self r timeout with heq | ⟨ρ, -, heq, -⟩ <;> rw [heq]
  · exact h
  · exact h.of_probes rfl

theorem handleMsg_stuckAt (h : s.StuckAt cap ch v) (from_ : IPPort) (m : ProbeMsg) :
    (s.handleMsg cfg pc self from_ m).1.StuckAt cap ch v := by
  cases m with
  | ping q => exact h
  | indirectPing ind =>
    obtain ⟨call, -, -, heq, -⟩ := handleIndirectPing_spec (s := s) cfg self ind from_
    show (s.handleIndirectPing cfg self ind from_).1.StuckAt cap ch v
    rw [heq]
    exact h.of_probes rfl
  | ack a =>
    show (s.invokeAckHandler a).StuckAt cap ch v
    cases hk : s.ackHandlers.lookup a.SeqNo with
    | none =>
      rw [invokeAckHandler_of_none hk]
      exact h.of_probes rfl
    | some ah =>
      rw [invokeAckHandler_of_some hk]
      exact h.of_probes rfl
  | nack n =>
    show (s.invokeNackHandler pc n).StuckAt cap ch v
    rcases invokeNackHandler_spec (s := s) pc n with heq | ⟨c, heq⟩ <;> rw [heq]
    · exact h
    · exact h.offer c fun p => ⟨rfl, le_refl _⟩

/-- With room for two messages, no run is ever stuck: the put-back holds one message besides
    at most one in the buffer. -/
theorem LoadInv.not_stuckAt (h : s.LoadInv) (hcap : 2 ≤ cap) : ¬ s.StuckAt cap ch v := by
  rintro ⟨p, hp, hph, hfull⟩
  have := h.requeue_room hp hph
  omega

end AckState

end memberlist
