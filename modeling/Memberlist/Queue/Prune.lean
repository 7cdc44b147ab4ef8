import Memberlist.Queue.Greedy
import Mathlib

/-!
# Pruning the queue (queue.go)

`Prune maxRetain` finishes and deletes the greatest item while more than `maxRetain` are
queued.  Its loop asks the tree for its length first, without the `lenLocked` guard the other
calls use, and the tree is created lazily by `queueBroadcast` and set back to nil by `Reset`.

* `Prune_eq` — on a tree sorted by `Less`, the `n = min (size, max maxRetain 0)` least items
  stay and the others are finished, the greatest first; `pruneLoop_eq` is its loop.
* `Prune_nil_tree_panics` — on the zero-value queue, and after `Reset`, `Prune` calls `Len` on
  the nil tree.
-/

namespace memberlist

open Go

namespace TransmitLimitedQueue

/-- On distinct items, erasing the last leaves the others. -/
theorem erase_getLast {α : Type} [DecidableEq α] {l : List α} (hnd : l.Nodup) (hne : l ≠ []) :
    l.erase (l.getLast hne) = l.dropLast := by
  have hsplit := List.dropLast_append_getLast hne
  have hnot : l.getLast hne ∉ l.dropLast := by
    intro hmem
    rw [← hsplit] at hnd
    exact List.disjoint_of_nodup_append hnd hmem (List.mem_singleton_self _)
  calc l.erase (l.getLast hne) = (l.dropLast ++ [l.getLast hne]).erase (l.getLast hne) := by
        rw [hsplit]
    _ = l.dropLast := by rw [List.erase_append_right _ hnot, List.erase_cons_head, List.append_nil]

/-- How many items `Prune maxRetain` keeps of `t`. -/
theorem keep_lt_length {t : List limitedBroadcast} {maxRetain : Int}
    (hgt : (t.length : Int) > maxRetain) (hne : t ≠ []) : (max maxRetain 0).toNat < t.length := by
  have := List.length_pos_iff.mpr hne
  omega

/-- The loop of `Prune` on a sorted tree, given a round for each item it deletes and one more:
    it deletes the greatest items until `min (size, max maxRetain 0)` are left, finishing them
    from the greatest down. -/
theorem pruneLoop_eq (maxRetain : Int) :
    ∀ (fuel : Nat) {q : TransmitLimitedQueue} {t : List limitedBroadcast} (finished : List Broadcast),
      q.tq = some t → t.Pairwise (fun a b => a.Less b = true) →
      t.length - min t.length (max maxRetain 0).toNat < fuel →
      ∃ q', pruneLoop maxRetain fuel q finished =
          .ok (q', finished ++ ((t.drop (min t.length (max maxRetain 0).toNat)).reverse.map (·.b))) ∧
        q'.tq = some (t.take (min t.length (max maxRetain 0).toNat))
  | 0, _, _, _, _, _, hfuel => absurd hfuel (Nat.not_lt_zero _)
  | fuel + 1, q, t, finished, htq, hsorted, hfuel => by
    rw [pruneLoop, htq]
    dsimp only
    by_cases hgt : (t.length : Int) > maxRetain
    · rw [if_pos hgt]
      cases hlast : t.getLast? with
      | none =>
        -- an empty tree: nothing to delete
        have ht : t = [] := List.getLast?_eq_none_iff.mp hlast
        subst ht
        exact ⟨q, by simp, by simp [htq]⟩
      | some cur =>
        -- the greatest item is finished and deleted; the loop goes on with the others
        have hne : t ≠ [] := fun h => by simp [h] at hlast
        have hcur : cur = t.getLast hne := by
          rw [List.getLast?_eq_some_getLast hne] at hlast
          exact (Option.some.inj hlast).symm
        have hkeep := keep_lt_length hgt hne
        have hnd : t.Nodup := hsorted.imp fun {a b} hab heq => by
          subst heq
          exact limitedBroadcast.Less_isStrictWeakOrder.irrefl a hab
        obtain ⟨q₁, hdel⟩ : ∃ q₁, q.deleteItem cur = .ok q₁ := by
          unfold deleteItem
          rw [htq]
          exact ⟨_, rfl⟩
        have htq₁ : q₁.tq = some t.dropLast := by
          rw [deleteItem_tq hdel, htq, Option.getD_some,
            SortedSet.delete_eq_erase limitedBroadcast.Less_isStrictWeakOrder hsorted
              (hcur ▸ List.getLast_mem hne), hcur, erase_getLast hnd hne]
        have hlen : t.dropLast.length = t.length - 1 := List.length_dropLast
        set n := min t.length (max maxRetain 0).toNat with hn
        have hmin : min t.dropLast.length (max maxRetain 0).toNat = n := by
          rw [hlen, hn]
          omega
        obtain ⟨q', hloop, htq'⟩ := pruneLoop_eq maxRetain fuel (finished ++ [cur.b]) htq₁
          (hsorted.sublist (List.dropLast_sublist t)) (by rw [hmin, hlen]; omega)
        rw [hmin] at hloop htq'
        -- the last item is the greatest, past the `n` that stay
        have hsplit := List.dropLast_append_getLast hne
        have hle : n ≤ t.dropLast.length := by omega
        refine ⟨q', ?_, ?_⟩
        · simp only [bind, Except.bind, hdel]
          rw [hloop]
          have hdrop : t.drop n = t.dropLast.drop n ++ [cur] := by
            calc t.drop n = (t.dropLast ++ [t.getLast hne]).drop n := by rw [hsplit]
              _ = t.dropLast.drop n ++ [cur] := by rw [List.drop_append_of_le_length hle, hcur]
          rw [hdrop, List.reverse_append, List.map_append]
          simp
        · rw [htq']
          calc some (t.dropLast.take n) = some ((t.dropLast ++ [t.getLast hne]).take n) := by
                rw [List.take_append_of_le_length hle]
            _ = some (t.take n) := by rw [hsplit]
    · -- no more than `maxRetain` items: all stay
      rw [if_neg hgt]
      have hall : min t.length (max maxRetain 0).toNat = t.length := by omega
      refine ⟨q, ?_, by rw [htq, hall, List.take_length]⟩
      rw [hall, List.drop_length]
      simp

/-- `Prune maxRetain` on a tree sorted by `Less`: the `min (size, max maxRetain 0)` least items
    stay, and `Finished` is called on each of the others, from the greatest down. -/
theorem Prune_eq {q : TransmitLimitedQueue} {t : List limitedBroadcast} (htq : q.tq = some t)
    (hsorted : t.Pairwise (fun a b => a.Less b = true)) (maxRetain : Int) :
    ∃ q', q.Prune maxRetain =
        .ok (q', (t.drop (min t.length (max maxRetain 0).toNat)).reverse.map (·.b)) ∧
      q'.tq = some (t.take (min t.length (max maxRetain 0).toNat)) := by
  have hfuel : t.length - min t.length (max maxRetain 0).toNat < q.lenLocked + 1 := by
    rw [lenLocked_eq, htq, Option.getD_some]
    omega
  obtain ⟨q', hloop, htq'⟩ := pruneLoop_eq maxRetain _ [] htq hsorted hfuel
  exact ⟨q', by rw [Prune, hloop, List.nil_append], htq'⟩

end TransmitLimitedQueue

/-- `Prune` dereferences the nil tree: on the zero-value queue, and on any queue right after
    `Reset`, it panics. -/
theorem Prune_nil_tree_panics (invalidates : Broadcast → Broadcast → Bool) :
    (∀ mult maxRetain : Int,
      runQueue invalidates (TransmitLimitedQueue.zero mult) [.Prune maxRetain] =
        .error TransmitLimitedQueue.nilTree) ∧
    ∀ (q : TransmitLimitedQueue) (maxRetain : Int),
      runQueue invalidates q [.Reset, .Prune maxRetain] = .error TransmitLimitedQueue.nilTree := by
  constructor
  · intro mult maxRetain
    rfl
  · intro q maxRetain
    rfl

end memberlist
