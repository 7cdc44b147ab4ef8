import Mathlib

/-!
# The pieces of Go's runtime the model needs

Go code that indexes a slice out of range, dereferences a nil pointer or writes to a nil
map does not return: it panics, and an unrecovered panic in any goroutine ends the whole
process.  A modelled function that can do so returns `Except Panic _`; an `error` result of
the Go function is part of the `ok` value, so a panic can never be confused with one.

* `Go.Panic` — a runtime panic, with the runtime's message.
* `Go.index xs i` — `xs[i]`, panicking when `i` is out of range.
* `Go.MaxInt64` — `math.MaxInt64`.
* `Go.firstError f xs` — the loop `for _, x := range xs { if err := f(x); err != nil {
  return err } }`, whose body may panic.

A loop with an accumulator is a `foldl`, or a `foldlM` in `Except Panic` when its body can
panic: `foldlM_eq_ok_foldl` drops the monad where the body does not panic, `foldl_iff` says
what the accumulator ends with, and `firstError_eq_none_iff` what a loop of checks returns.

`bind_eq_ok` peels a computation in `Except` apart, so that proofs about a function never
unfold the functions it calls.

A Go map is Mathlib's `AList`: `m[k]` is `lookup`, `m[k] = v` is `insert`, `delete(m, k)` is
`erase`, `len(m)` is the length of `keys`.  `lookup_foldl_erase` is what a loop of `delete`s
leaves.
-/

namespace Go

/-- A Go runtime panic. -/
structure Panic where
  msg : String
  deriving DecidableEq, Repr

/-- `xs[i]`: the element, or the runtime's index-out-of-range panic. -/
def index {α : Type} (xs : List α) (i : Nat) : Except Panic α :=
  match xs[i]? with
  | some a => .ok a
  | none => .error ⟨"index out of range"⟩

/-- `math.MaxInt64`. -/
def MaxInt64 : Int := 2 ^ 63 - 1

/-- The first error the loop body `f` returns over `xs`, or `none`. -/
def firstError {α ε : Type} (f : α → Except Panic (Option ε)) : List α → Except Panic (Option ε)
  | [] => .ok none
  | x :: xs => do
    match ← f x with
    | some e => pure (some e)
    | none => firstError f xs

theorem bind_eq_ok {ε α β : Type} {x : Except ε α} {f : α → Except ε β} {b : β} :
    x >>= f = .ok b ↔ ∃ a, x = .ok a ∧ f a = .ok b := by
  cases x with
  | error e => simp [bind, Except.bind]
  | ok a => simp [bind, Except.bind]

/-! ### Loops -/

/-- A loop whose body keeps `A` of the accumulator exactly when `P` holds of the element keeps
    it to the end exactly when `P` holds of every element. -/
theorem foldl_iff {α β : Type} {s : β → α → β} {A : β → Prop} {P : α → Prop}
    (h : ∀ b x, A (s b x) ↔ A b ∧ P x) (xs : List α) (b : β) :
    A (xs.foldl s b) ↔ A b ∧ ∀ x ∈ xs, P x := by
  induction xs generalizing b with
  | nil => simp
  | cons x xs ih =>
    rw [List.foldl_cons, ih, h, List.forall_mem_cons, and_assoc]

/-- A loop whose body does not panic on the elements is the pure loop of its results. -/
theorem foldlM_eq_ok_foldl {α β ε : Type} {s : β → α → Except ε β} {t : β → α → β}
    {xs : List α} (h : ∀ x ∈ xs, ∀ b, s b x = .ok (t b x)) (b : β) :
    xs.foldlM s b = .ok (xs.foldl t b) := by
  induction xs generalizing b with
  | nil => rfl
  | cons x xs ih =>
    rw [List.foldlM_cons, h x List.mem_cons_self b]
    exact ih (fun y hy => h y (List.mem_cons_of_mem x hy)) (t b x)

/-- A loop of checks none of which panics ends, and without error exactly when every check
    passes. -/
theorem firstError_eq_none_iff {α ε : Type} {f : α → Except Panic (Option ε)} {xs : List α}
    (hf : ∀ x ∈ xs, ∃ o, f x = .ok o) :
    ∃ o, firstError f xs = .ok o ∧ (o = none ↔ ∀ x ∈ xs, f x = .ok none) := by
  induction xs with
  | nil => exact ⟨none, rfl, by simp⟩
  | cons x xs ih =>
    obtain ⟨o, hx⟩ := hf x List.mem_cons_self
    obtain ⟨o', hrest, hiff⟩ := ih (fun y hy => hf y (List.mem_cons_of_mem x hy))
    cases o with
    | some e =>
      -- the first check fails, and the loop returns its error
      refine ⟨some e, by simp only [firstError, hx]; rfl, ?_⟩
      simp [hx]
    | none =>
      refine ⟨o', by simp only [firstError, hx, hrest]; rfl, ?_⟩
      simp [hx, hiff]

theorem index_eq_ok {α : Type} {xs : List α} {i : Nat} (h : i < xs.length) :
    index xs i = .ok xs[i] := by
  simp [index, List.getElem?_eq_getElem h]

/-- What indexing returns is an element of the slice. -/
theorem mem_of_index_eq_ok {α : Type} {xs : List α} {i : Nat} {a : α} (h : index xs i = .ok a) :
    a ∈ xs := by
  unfold index at h
  split at h
  · next a' ha' =>
    cases h
    exact List.mem_of_getElem? ha'
  · cases h

/-- After `for _, x := range xs { delete(mp, f(x)) }` a key is gone exactly when some `x`
    names it. -/
theorem lookup_foldl_erase {κ β γ : Type} [DecidableEq κ] (f : γ → κ) (xs : List γ)
    (mp : AList (fun _ : κ => β)) (k : κ) :
    (xs.foldl (fun mp x => mp.erase (f x)) mp).lookup k =
      if k ∈ xs.map f then none else mp.lookup k := by
  induction xs generalizing mp with
  | nil => simp
  | cons x xs ih =>
    rw [List.foldl_cons, ih]
    by_cases hk : k = f x
    · subst hk
      simp [AList.lookup_erase]
    · simp [hk, AList.lookup_erase_ne hk]

end Go
