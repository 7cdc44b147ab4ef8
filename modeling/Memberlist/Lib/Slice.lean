import Mathlib

/-!
# Slices updated in place

A goroutine's state kept in a slice is changed by `s[i] = v` (`List.set`) or by an update of
one element (`List.modify`).  What such an update leaves alone is what the proofs about the
other elements use:

* `map_modify_of_forall`, `map_set_of_getElem?` — an update that keeps what `g` reads of an
  element keeps `map g`, so that the identities of all elements are unchanged;
* `modify_append_length` — the element just appended is the one updated.
-/

namespace List

variable {α β : Type*}

/-- An update that keeps what `g` reads of every element keeps `map g`. -/
theorem map_modify_of_forall {f : α → α} {g : α → β} (h : ∀ a, g (f a) = g a) (l : List α)
    (i : Nat) : (l.modify i f).map g = l.map g := by
  apply List.ext_getElem?
  intro j
  rw [List.getElem?_map, List.getElem?_map, List.getElem?_modify]
  split <;> cases l[j]? <;> simp [h]

/-- A store that keeps what `g` reads of the element it overwrites keeps `map g`. -/
theorem map_set_of_getElem? {g : α → β} {l : List α} {i : Nat} {a b : α} (hi : l[i]? = some b)
    (h : g a = g b) : (l.set i a).map g = l.map g := by
  apply List.ext_getElem?
  intro j
  rw [List.getElem?_map, List.getElem?_map, List.getElem?_set]
  split
  · subst j
    obtain ⟨hlt, hb⟩ := List.getElem?_eq_some_iff.mp hi
    simp [h, hlt, hb]
  · rfl

@[simp]
theorem modify_append_length (f : α → α) (l : List α) (a : α) :
    (l ++ [a]).modify l.length f = l ++ [f a] := by
  apply List.ext_getElem?
  intro j
  rw [List.getElem?_modify]
  rcases lt_trichotomy j l.length with hj | rfl | hj
  · simp [hj.ne', List.getElem?_append_left hj]
  · simp
  · simp [hj.ne, hj.not_ge]

end List
