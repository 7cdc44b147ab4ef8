import Memberlist.State.Basic
import Mathlib

/-!
# Counting suspicion confirmations (suspicion.go)

`suspicion.Confirm` counts a peer's confirmation while fewer than `k` are counted and the peer
is not among `confirmations`, which `newSuspicion` seeds with the accuser.  The saturation test
comes first, so a peer that confirms after `k` are counted is not recorded.  This module follows
a suspicion through any sequence of calls:

* `suspicion.confirmAll` — the calls `Confirm p₁, …, Confirm pₘ` in turn, and `confirmed`, the
  peers of the calls that returned true;
* `suspicion.Valid` — what every call keeps: the confirmations are distinct, the counter is their
  number less the accuser, and it never exceeds `max k 0`;
* `Confirm_spec`, `confirmAll_spec` — the step and run lemmas: a run puts exactly the confirmed
  peers in front of the confirmations and raises the counter by their number;
* `confirmAll_n_eq_min` — the counter a run leaves is `min (max k 0) (|C ∪ {p₁, …, pₘ}| - 1)`;
* `newSuspicion_confirmAll_counts` — the same from `newSuspicion from k`, where `k` is first
  narrowed to `int32`, as the source's `int32(k)` does.
-/

namespace memberlist

/-- The peers of the calls that returned `true`. -/
def confirmed : List String → List Bool → List String
  | p :: ps, b :: bs => if b then p :: confirmed ps bs else confirmed ps bs
  | _, _ => []

namespace suspicion

/-- The calls `s.Confirm p₁, …, Confirm pₘ` in turn: the suspicion they leave and what each
    call returned. -/
def confirmAll (s : suspicion) : List String → suspicion × List Bool
  | [] => (s, [])
  | p :: ps =>
    let (s', b) := s.Confirm p
    let (s'', bs) := s'.confirmAll ps
    (s'', b :: bs)

@[simp] theorem confirmAll_nil (s : suspicion) : s.confirmAll [] = (s, []) := rfl

@[simp] theorem confirmAll_cons (s : suspicion) (p : String) (ps : List String) :
    s.confirmAll (p :: ps) =
      (((s.Confirm p).1.confirmAll ps).1, (s.Confirm p).2 :: ((s.Confirm p).1.confirmAll ps).2) :=
  rfl

/-! ### One call -/

theorem Confirm_of_le {s : suspicion} (p : String) (h : s.k ≤ s.n) : s.Confirm p = (s, false) :=
  if_pos h

theorem Confirm_of_mem {s : suspicion} {p : String} (h : p ∈ s.confirmations) :
    s.Confirm p = (s, false) := by
  simp only [Confirm, if_pos h, ite_self]

theorem Confirm_of_lt {s : suspicion} {p : String} (hlt : s.n < s.k)
    (hp : p ∉ s.confirmations) :
    s.Confirm p = ({ s with n := s.n + 1, confirmations := p :: s.confirmations }, true) := by
  have hge : ¬ s.n ≥ s.k := Int32.not_le.mpr hlt
  rw [Confirm, if_neg hge, if_neg hp]

/-- Below another `int32` the counter goes up by one without wrapping. -/
theorem toInt_add_one_of_lt {a b : Int32} (h : a < b) : (a + 1).toInt = a.toInt + 1 := by
  have hab := Int32.lt_iff_toInt_lt.mp h
  have hlo := Int32.le_toInt a
  have hhi := Int32.toInt_lt b
  rw [Int32.toInt_add, Int32.toInt_one]
  exact Int.bmod_eq_of_le (by omega) (by omega)

/-- What `newSuspicion` establishes and every `Confirm` keeps. -/
structure Valid (s : suspicion) : Prop where
  nodup : s.confirmations.Nodup
  length : (s.confirmations.length : Int) = s.n.toInt + 1
  nonneg : 0 ≤ s.n.toInt
  le : s.n.toInt ≤ max s.k.toInt 0

theorem newSuspicion_valid (from_ : String) (k : Int) : (newSuspicion from_ k).Valid where
  nodup := List.nodup_singleton from_
  length := rfl
  nonneg := le_refl 0
  le := le_max_right _ _

/-- The step lemma: a call either leaves the suspicion as it is and returns false, or counts
    the peer once and returns true. -/
theorem Confirm_spec {s : suspicion} (hs : s.Valid) (p : String) :
    (s.Confirm p).1.k = s.k ∧
      (s.Confirm p).1.confirmations =
        (if (s.Confirm p).2 then [p] else []) ++ s.confirmations ∧
      (s.Confirm p).1.n.toInt = s.n.toInt + (if (s.Confirm p).2 then 1 else 0) ∧
      (s.Confirm p).1.Valid := by
  by_cases hle : s.k ≤ s.n
  · -- saturated: the call is ignored
    rw [Confirm_of_le p hle]
    exact ⟨rfl, rfl, (Int.add_zero _).symm, hs⟩
  by_cases hp : p ∈ s.confirmations
  · -- a peer already counted, or the accuser
    rw [Confirm_of_mem hp]
    exact ⟨rfl, rfl, (Int.add_zero _).symm, hs⟩
  · have hlt : s.n < s.k := Int32.not_le.mp hle
    have hn := toInt_add_one_of_lt hlt
    have hk := Int32.lt_iff_toInt_lt.mp hlt
    have hlen := hs.length
    rw [Confirm_of_lt hlt hp]
    refine ⟨rfl, rfl, by simp only [if_true, hn], ?_⟩
    have hnn := hs.nonneg
    refine ⟨List.nodup_cons.mpr ⟨hp, hs.nodup⟩, ?_, ?_, ?_⟩
    · simp only [List.length_cons, hn]
      omega
    · simp only [hn]
      omega
    · simp only [hn]
      omega

/-- The run lemma: a run keeps `k` and `Valid`, puts the confirmed peers (latest first) in front
    of the confirmations, and raises the counter by the number of calls that returned true. -/
theorem confirmAll_spec {s : suspicion} (hs : s.Valid) (ps : List String) :
    (s.confirmAll ps).1.k = s.k ∧
      (s.confirmAll ps).1.confirmations =
        (confirmed ps (s.confirmAll ps).2).reverse ++ s.confirmations ∧
      (s.confirmAll ps).1.n.toInt = s.n.toInt + (s.confirmAll ps).2.count true ∧
      (s.confirmAll ps).1.Valid := by
  induction ps generalizing s with
  | nil => simp [hs, confirmed]
  | cons p ps ih =>
    obtain ⟨hk, hconf, hn, hs'⟩ := Confirm_spec hs p
    obtain ⟨hk', hconf', hn', hv⟩ := ih hs'
    simp only [confirmAll_cons]
    refine ⟨hk'.trans hk, ?_, ?_, hv⟩
    · rw [hconf', hconf]
      cases (s.Confirm p).2 <;> simp [confirmed]
    · rw [hn', hn]
      cases (s.Confirm p).2 with
      | false => simp
      | true =>
        simp only [if_true, List.count_cons_self, Nat.cast_add, Nat.cast_one]
        omega

/-- What a run returns at its `i`-th call is what `Confirm` returns on the suspicion the calls
    before it leave. -/
theorem confirmAll_getElem? (s : suspicion) (ps : List String) (i : Nat) (hi : i < ps.length) :
    (s.confirmAll ps).2[i]? = some (((s.confirmAll (ps.take i)).1.Confirm ps[i]).2) := by
  induction ps generalizing s i with
  | nil => cases hi
  | cons p ps ih =>
    cases i with
    | zero => simp
    | succ i =>
      simp only [confirmAll_cons, List.getElem?_cons_succ, List.take_succ_cons,
        List.getElem_cons_succ]
      exact ih _ i (Nat.lt_of_succ_lt_succ hi)

/-! ### The counter against the peers seen -/

/-- A saturated counter is `max k 0`. -/
theorem Valid.n_eq_max {s : suspicion} (hs : s.Valid) (hle : s.k ≤ s.n) :
    s.n.toInt = max s.k.toInt 0 := by
  have hk := Int32.le_iff_toInt_le.mp hle
  have hnn := hs.nonneg
  have hle' := hs.le
  omega

/-- The counter a run leaves is `max k 0`, or less when fewer peers than that are new. -/
theorem confirmAll_n_eq_min {s : suspicion} (hs : s.Valid) (ps : List String) :
    (s.confirmAll ps).1.n.toInt =
      min (max s.k.toInt 0) ((s.confirmations.toFinset ∪ ps.toFinset).card - 1 : Nat) := by
  induction ps generalizing s with
  | nil =>
    -- the confirmations are distinct, so they number `n + 1`
    have hcard : s.confirmations.toFinset.card = s.confirmations.length :=
      List.toFinset_card_of_nodup hs.nodup
    have hlen := hs.length
    have hnn := hs.nonneg
    have hle := hs.le
    simp only [confirmAll_nil, List.toFinset_nil, Finset.union_empty, hcard]
    omega
  | cons p ps ih =>
    have hsub : s.confirmations.toFinset ⊆ s.confirmations.toFinset ∪ ps.toFinset :=
      Finset.subset_union_left
    by_cases hle : s.k ≤ s.n
    · -- saturated: both sides are `max k 0`, the peers seen being at least `n + 1`
      have hmax := hs.n_eq_max hle
      have hcard : s.confirmations.toFinset.card = s.confirmations.length :=
        List.toFinset_card_of_nodup hs.nodup
      have hmono := Finset.card_le_card hsub
      have hmono' : s.confirmations.toFinset.card ≤
          (s.confirmations.toFinset ∪ (p :: ps).toFinset).card :=
        Finset.card_le_card Finset.subset_union_left
      have hlen := hs.length
      simp only [confirmAll_cons, Confirm_of_le p hle]
      rw [ih hs]
      omega
    by_cases hp : p ∈ s.confirmations
    · -- a peer already among the confirmations adds nothing to the peers seen
      have hins : s.confirmations.toFinset ∪ (p :: ps).toFinset =
          s.confirmations.toFinset ∪ ps.toFinset := by
        rw [List.toFinset_cons, Finset.union_insert]
        exact Finset.insert_eq_of_mem (Finset.mem_union_left _ (List.mem_toFinset.mpr hp))
      simp only [confirmAll_cons, Confirm_of_mem hp]
      rw [ih hs, hins]
    · -- a new peer is counted and moves from the peers to come to the confirmations
      have hlt : s.n < s.k := Int32.not_le.mp hle
      have hs' := (Confirm_spec hs p).2.2.2
      rw [Confirm_of_lt hlt hp] at hs'
      have hins : (p :: s.confirmations).toFinset ∪ ps.toFinset =
          s.confirmations.toFinset ∪ (p :: ps).toFinset := by
        rw [List.toFinset_cons, List.toFinset_cons, Finset.insert_union, Finset.union_insert]
      simp only [confirmAll_cons, Confirm_of_lt hlt hp]
      rw [ih hs', hins]

end suspicion

/-- The peers other than the accuser number one less than the peers together with it. -/
theorem card_insert_sub_one (X : Finset String) (a : String) :
    (insert a X).card - 1 = (X \ {a}).card := by
  rw [Finset.sdiff_singleton_eq_erase, ← Finset.erase_insert_eq_erase,
    ← Finset.card_erase_add_one (Finset.mem_insert_self a X), Nat.add_sub_cancel]

/-- Confirmations of a new suspicion: the calls that return true are as many as the final
    counter, which is `min (max k 0) |{p₁, …, pₘ} \ {from}|` for `k` narrowed to `int32`; no
    peer and never the accuser is confirmed twice, and no call returns true once the counter
    has reached `k`. -/
theorem newSuspicion_confirmAll_counts (from_ : String) (k : Int) (ps : List String) :
    (((newSuspicion from_ k).confirmAll ps).2.count true : Int) =
        ((newSuspicion from_ k).confirmAll ps).1.n.toInt ∧
      ((newSuspicion from_ k).confirmAll ps).1.n.toInt =
        min (max (Int32.ofInt k).toInt 0) ((ps.toFinset \ {from_}).card : Nat) ∧
      (confirmed ps ((newSuspicion from_ k).confirmAll ps).2).Nodup ∧
      from_ ∉ confirmed ps ((newSuspicion from_ k).confirmAll ps).2 ∧
      ∀ i, i < ps.length →
        ((newSuspicion from_ k).confirmAll (ps.take i)).1.k ≤
            ((newSuspicion from_ k).confirmAll (ps.take i)).1.n →
          ((newSuspicion from_ k).confirmAll ps).2[i]? = some false := by
  have hv := suspicion.newSuspicion_valid from_ k
  obtain ⟨-, hconf, hn, hv'⟩ := suspicion.confirmAll_spec hv ps
  -- the final confirmations are the confirmed peers, latest first, then the accuser
  have hnodup : (List.reverse (confirmed ps ((newSuspicion from_ k).confirmAll ps).2) ++
      [from_]).Nodup := hconf ▸ hv'.nodup
  refine ⟨?_, ?_, ?_, ?_, ?_⟩
  · rw [hn]
    exact (Int.zero_add _).symm
  · rw [suspicion.confirmAll_n_eq_min hv ps, ← card_insert_sub_one]
    rfl
  · exact List.nodup_reverse.mp (List.Nodup.of_append_left hnodup)
  · intro hmem
    exact List.disjoint_of_nodup_append hnodup (List.mem_reverse.mpr hmem)
      (List.mem_singleton_self from_)
  · intro i hi hle
    rw [suspicion.confirmAll_getElem? _ ps i hi, suspicion.Confirm_of_le _ hle]

/-- `newSuspicion` narrows `k` to `int32`: with `k = 2³² + 1` it waits for one confirmation,
    not for as many as there are peers. -/
theorem newSuspicion_confirmAll_narrows_k :
    ((newSuspicion "x" (2 ^ 32 + 1)).confirmAll ["a", "b"]).1.n.toInt ≠
      min (max (2 ^ 32 + 1) 0) (((["a", "b"].toFinset \ {"x"}).card : Nat) : Int) := by
  decide

end memberlist
