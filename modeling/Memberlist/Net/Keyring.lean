import Memberlist.State.Basic
import Memberlist.Lib.Run
import Mathlib

/-!
# The keyring (keyring.go)

The keys encryption uses, the primary key first: it seals every message, and every key is tried
when opening one.

* `ValidateKey`, `installKeys`, `AddKey`, `UseKey`, `RemoveKey`, `NewKeyring` — translated from
  the source, with the texts of their errors.  `RemoveKey` indexes `k.keys[0]` before anything
  else, and deletes inside its own `range` loop by appending sub-slices: `RemoveKey.loop` keeps
  the array the loop reads apart from `k.keys`, since the first append writes into it.
* `KeyringOp.apply` — one call as its caller sees it: a call that returns an error leaves the
  keyring as it was, as each of the three does; a run of calls is `Run.run` of it.
* `KeyHistory` — what the calls so far say the keyring should hold: the keys added and not
  removed since, and the primary key (the key of the last successful `UseKey`, else the first
  key added).  `Keyring.Tracks` relates a keyring to it: distinct valid keys, exactly those,
  the primary first.

`AddKey_tracks`, `UseKey_tracks` and `RemoveKey_tracks` are the step lemmas (`RemoveKey_eq`
says what the loop does on distinct keys), `run_tracks` the run lemma, `NewKeyring_tracks`
starts it, and `keyring_runs_track` puts them together.  `RemoveKey` panics on an empty
keyring, and `NewKeyring [] []` builds one (`RemoveKey_empty_keyring_panics`).
-/

namespace memberlist

/-- `ValidateKey key`: a key of 16, 24 or 32 bytes selects AES-128, AES-192 or AES-256. -/
def ValidateKey (key : List UInt8) : Option String :=
  if key.length ≠ 16 ∧ key.length ≠ 24 ∧ key.length ≠ 32 then
    some "key size must be 16, 24 or 32 bytes"
  else none

namespace Keyring

/-- `k.installKeys keys primaryKey`: the primary key, then the other keys in their order. -/
def installKeys (keys : List (List UInt8)) (primaryKey : List UInt8) : Keyring :=
  ⟨primaryKey :: keys.filter fun key => key != primaryKey⟩

/-- `k.AddKey key`.  A nil key and an empty one are one value here; no installed key is
    empty, so `GetPrimaryKey() == nil` only on an empty ring. -/
def AddKey (k : Keyring) (key : List UInt8) : Except String Keyring :=
  match ValidateKey key with
  | some err => .error err
  | none =>
    -- no-op if the key is already installed
    if k.keys.any fun installedKey => installedKey == key then .ok k
    else
      let keys := k.keys ++ [key]
      let primaryKey := if k.GetPrimaryKey = [] then key else k.GetPrimaryKey
      .ok (installKeys keys primaryKey)

/-- `k.UseKey key`. -/
def UseKey (k : Keyring) (key : List UInt8) : Except String Keyring :=
  if k.keys.any fun installedKey => key == installedKey then .ok (installKeys k.keys key)
  else .error "requested key is not in the keyring"

/-- The loop of `RemoveKey` at index `i`, with `left` rounds of the `range` to go.  `range`
    reads the array `arr` that `k.keys` had when the loop began, `cur` is `k.keys` now, and
    `shared` says whether `cur` is still backed by `arr`.  `append(k.keys[:i], k.keys[i+1:]...)`
    writes the shorter slice over `k.keys`'s own array, so `k.keys[0]` right after it, and while
    `arr` is shared the elements the loop reads next, come from the shifted array; `installKeys`
    then gives `k.keys` a new one. -/
def RemoveKey.loop (key : List UInt8) (arr : List (List UInt8)) (i : Nat) (shared : Bool)
    (cur : List (List UInt8)) : Nat → Except Go.Panic (List (List UInt8))
  | 0 => .ok cur
  | left + 1 =>
    if key == arr.getD i [] then do
      if cur.length < i + 1 then throw ⟨"slice bounds out of range"⟩
      let keys := cur.take i ++ cur.drop (i + 1)
      -- what the append leaves in `k.keys`'s array
      let written := keys ++ cur.drop keys.length
      let primaryKey ← Go.index written 0
      let arr := if shared then keys ++ arr.drop keys.length else arr
      loop key arr (i + 1) false (installKeys keys primaryKey).keys left
    else loop key arr (i + 1) shared cur left

/-- `k.RemoveKey key`: the keyring after it, or the error; it panics on an empty ring. -/
def RemoveKey (k : Keyring) (key : List UInt8) : Except Go.Panic (Except String Keyring) := do
  let primaryKey ← Go.index k.keys 0
  if key == primaryKey then return .error "removing the primary key is not allowed"
  let keys ← RemoveKey.loop key k.keys 0 true k.keys k.keys.length
  return .ok ⟨keys⟩

end Keyring

/-- `NewKeyring keys primaryKey`: no keys, or the primary key and then the others added in
    turn. -/
def NewKeyring (keys : List (List UInt8)) (primaryKey : List UInt8) : Except String Keyring :=
  let keyring : Keyring := ⟨[]⟩
  if keys.length > 0 ∨ primaryKey.length > 0 then
    if primaryKey.length = 0 then .error "empty primary key not allowed"
    else do
      let keyring ← keyring.AddKey primaryKey
      keys.foldlM (fun keyring key => keyring.AddKey key) keyring
  else .ok keyring

/-- A call on the keyring. -/
inductive KeyringOp where
  | AddKey (key : List UInt8)
  | UseKey (key : List UInt8)
  | RemoveKey (key : List UInt8)
  deriving DecidableEq, Repr

/-- A call's result as its caller sees it: the keyring it leaves, the old one when it returns an
    error, and the error. -/
def settle (k : Keyring) : Except String Keyring → Keyring × List (Option String)
  | .ok k' => (k', [none])
  | .error e => (k, [some e])

/-- One call on the keyring `k`. -/
def KeyringOp.apply (k : Keyring) : KeyringOp → Except Go.Panic (Keyring × List (Option String))
  | .AddKey key => .ok (settle k (k.AddKey key))
  | .UseKey key => .ok (settle k (k.UseKey key))
  | .RemoveKey key => (k.RemoveKey key).map (settle k)

namespace Keyring

/-! ### Keyrings of distinct keys -/

/-- Installing keys with their own first key as the primary changes nothing, when they are
    distinct. -/
theorem installKeys_head {p : List UInt8} {rest : List (List UInt8)} (hnd : (p :: rest).Nodup) :
    installKeys (p :: rest) p = ⟨p :: rest⟩ := by
  have hp : p ∉ rest := (List.nodup_cons.mp hnd).1
  have hrest : rest.filter (fun key => key != p) = rest := by
    apply List.filter_eq_self.mpr
    intro a ha
    have hap : a ≠ p := fun h => hp (h ▸ ha)
    simpa using hap
  simp [installKeys, hrest]

/-- A loop that meets no occurrence of the key leaves `k.keys` as it is. -/
theorem RemoveKey.loop_of_ne {key : List UInt8} {arr cur : List (List UInt8)} {shared : Bool} :
    ∀ {i left : Nat}, (∀ j, i ≤ j → j < i + left → arr.getD j [] ≠ key) →
      RemoveKey.loop key arr i shared cur left = .ok cur
  | _, 0, _ => rfl
  | i, left + 1, hne => by
    have hi : ¬ (key == arr.getD i []) = true := by
      rw [beq_iff_eq]
      exact fun h => hne i (Nat.le_refl i) (by omega) h.symm
    rw [RemoveKey.loop, if_neg hi]
    exact loop_of_ne fun j hj hj' => hne j (by omega) (by omega)

/-- Once the key at `m` is cut out in place, the array the loop reads holds past `m` only keys
    that stood after `m`, none of them the key when the keys are distinct. -/
theorem shifted_getD_ne {keys : List (List UInt8)} (hnd : keys.Nodup) {m j : Nat}
    (hm : m < keys.length) (hj : m + 1 ≤ j) (hjn : j < keys.length) :
    (keys.eraseIdx m ++ keys.drop (keys.eraseIdx m).length).getD j [] ≠ keys[m] := by
  have hlen : (keys.eraseIdx m).length = keys.length - 1 := by
    rw [List.length_eraseIdx, if_pos hm]
  by_cases hlast : j < keys.length - 1
  · -- still in the shifted part: the key that stood at `j + 1`
    rw [List.getD_append _ _ _ _ (by omega), List.getD_eq_getElem _ _ (by omega),
      List.getElem_eraseIdx_of_ge _ (by omega), Ne, hnd.getElem_inj_iff]
    omega
  · -- the last slot, which the append leaves as it was
    rw [List.getD_append_right _ _ _ _ (by omega), hlen, List.getD_eq_getElem _ _ (by simp; omega),
      List.getElem_drop, Ne, hnd.getElem_inj_iff]
    omega

/-- With distinct keys, the loop deletes the key at `m > 0`, and passes over every other one. -/
theorem RemoveKey.loop_eraseIdx {keys : List (List UInt8)} (hnd : keys.Nodup) {m : Nat}
    (hm : m < keys.length) (hm0 : 0 < m) :
    ∀ {i left : Nat}, i ≤ m → i + left = keys.length →
      RemoveKey.loop keys[m] keys i true keys left = .ok (keys.eraseIdx m)
  | _, 0, hi, hlen => by omega
  | i, left + 1, hi, hlen => by
    rcases Nat.lt_or_eq_of_le hi with hlt | rfl
    · -- before the key: another key is passed over
      have hne : ¬ (keys[m] == keys.getD i []) = true := by
        rw [List.getD_eq_getElem _ _ (by omega), beq_iff_eq, hnd.getElem_inj_iff]
        omega
      rw [RemoveKey.loop, if_neg hne]
      exact loop_eraseIdx hnd hm hm0 hlt (by omega)
    · -- at the key: it is cut out, the primary stays first, and no other match follows
      have hmatch : (keys[i] == keys.getD i []) = true := by
        rw [List.getD_eq_getElem _ _ hm, beq_self_eq_true]
      have hbounds : ¬ keys.length < i + 1 := by omega
      have hcut : keys.take i ++ keys.drop (i + 1) = keys.eraseIdx i :=
        (List.eraseIdx_eq_take_drop_succ keys i).symm
      have hlen' : (keys.eraseIdx i).length = keys.length - 1 := by
        rw [List.length_eraseIdx, if_pos hm]
      have hwritten : 0 < (keys.eraseIdx i ++ keys.drop (keys.eraseIdx i).length).length := by
        simp only [List.length_append, List.length_drop]
        omega
      have hfirst : (keys.eraseIdx i ++ keys.drop (keys.eraseIdx i).length)[0] = keys[0] := by
        rw [List.getElem_append_left (by omega), List.getElem_eraseIdx_of_lt _ hm0]
      have hne : keys.eraseIdx i ≠ [] := List.ne_nil_of_length_pos (by omega)
      have hhead : keys.eraseIdx i = keys[0] :: (keys.eraseIdx i).tail := by
        conv_lhs => rw [← List.cons_head_tail hne]
        rw [List.head_eq_getElem, List.getElem_eraseIdx_of_lt _ hm0]
      have hinstall : installKeys (keys.eraseIdx i) keys[0] = ⟨keys.eraseIdx i⟩ := by
        have hnd' : (keys.eraseIdx i).Nodup := hnd.sublist (List.eraseIdx_sublist _ _)
        rw [hhead] at hnd' ⊢
        exact installKeys_head hnd'
      rw [RemoveKey.loop, if_pos hmatch]
      simp only [if_neg hbounds, hcut]
      rw [Go.index_eq_ok hwritten, hfirst]
      simp only [bind, Except.bind, if_true, hinstall]
      exact RemoveKey.loop_of_ne fun j hj hj' => shifted_getD_ne hnd hm hj (by omega)

/-- `RemoveKey` on a ring of distinct keys: the primary key is refused, any other key is
    deleted, and a key not on the ring changes nothing. -/
theorem RemoveKey_eq {k : Keyring} (hnd : k.keys.Nodup) {p : List UInt8}
    {rest : List (List UInt8)} (hk : k.keys = p :: rest) (key : List UInt8) :
    k.RemoveKey key = .ok (if key = p then .error "removing the primary key is not allowed"
      else .ok ⟨k.keys.erase key⟩) := by
  have hindex : Go.index k.keys 0 = .ok p := by
    rw [hk]
    rfl
  unfold RemoveKey
  rw [hindex]
  by_cases hp : key = p
  · simp [hp, bind, Except.bind, pure, Except.pure]
  have hloop : RemoveKey.loop key k.keys 0 true k.keys k.keys.length = .ok (k.keys.erase key) := by
    by_cases hmem : key ∈ k.keys
    · -- the key's one occurrence, which is past the primary
      have hidx := List.idxOf_lt_length_iff.mpr hmem
      have hget : k.keys[k.keys.idxOf key] = key := List.getElem_idxOf hidx
      have hpos : 0 < k.keys.idxOf key := by
        refine Nat.pos_of_ne_zero fun h0 => hp ?_
        have hlen : 0 < k.keys.length := by
          rw [hk]
          exact Nat.succ_pos _
        have hfirst : k.keys[0] = p := by simp [hk]
        rw [← hget, ← hfirst]
        simp only [h0]
      have h := RemoveKey.loop_eraseIdx hnd hidx hpos (Nat.zero_le _) (Nat.zero_add k.keys.length)
      rw [hget, List.eraseIdx_idxOf_eq_erase] at h
      exact h
    · -- no occurrence: nothing is deleted
      rw [List.erase_of_not_mem hmem]
      refine RemoveKey.loop_of_ne fun j _ hj h => hmem ?_
      rw [← h, List.getD_eq_getElem _ _ (by omega)]
      exact List.getElem_mem _
  simp [hp, hloop, bind, Except.bind, pure, Except.pure]

end Keyring

/-! ### The keyring the calls describe -/

/-- What the calls so far say the keyring holds: the keys added and not removed since, and the
    primary key. -/
structure KeyHistory where
  added : Finset (List UInt8)
  primary : Option (List UInt8)

/-- The history after a call that returned `err`: a call that errs changes nothing, an added key
    becomes the primary when there is none, a used key becomes the primary. -/
def KeyHistory.record (h : KeyHistory) : KeyringOp → Option String → KeyHistory
  | .AddKey key, none => ⟨insert key h.added, h.primary.or (some key)⟩
  | .UseKey key, none => ⟨h.added, some key⟩
  | .RemoveKey key, none => ⟨h.added.erase key, h.primary⟩
  | _, some _ => h

/-- The history after calls that returned `errs`. -/
def KeyHistory.replay (h : KeyHistory) : List KeyringOp → List (Option String) → KeyHistory
  | op :: ops, err :: errs => (h.record op err).replay ops errs
  | _, _ => h

/-- The history `NewKeyring keys primaryKey` starts: the primary key and the others added, or
    nothing. -/
def KeyHistory.new (keys : List (List UInt8)) (primaryKey : List UInt8) : KeyHistory :=
  if keys.length > 0 ∨ primaryKey.length > 0 then ⟨insert primaryKey keys.toFinset, some primaryKey⟩
  else ⟨∅, none⟩

/-- A keyring holds what a history says: distinct keys of a valid size, exactly the keys added
    and not removed since, the primary key first. -/
structure Keyring.Tracks (k : Keyring) (h : KeyHistory) : Prop where
  nodup : k.keys.Nodup
  valid : ∀ key ∈ k.keys, ValidateKey key = none
  added : k.keys.toFinset = h.added
  primary : k.keys.head? = h.primary


/-- A key of a valid size is not empty. -/
theorem ne_nil_of_ValidateKey {key : List UInt8} (h : ValidateKey key = none) : key ≠ [] := by
  intro hnil
  subst hnil
  simp [ValidateKey] at h

namespace Keyring

variable {k k' : Keyring} {h : KeyHistory}

/-- The step lemma of `AddKey`: the key joins the ring, first when the ring is empty. -/
theorem AddKey_tracks (ht : k.Tracks h) {key : List UInt8} (hadd : k.AddKey key = .ok k') :
    k'.Tracks (h.record (.AddKey key) none) := by
  show k'.Tracks ⟨insert key h.added, h.primary.or (some key)⟩
  unfold AddKey at hadd
  split at hadd
  · cases hadd
  rename_i hvalid
  split at hadd
  · -- already installed: nothing changes
    rename_i hany
    cases hadd
    have hmem : key ∈ k.keys := by simpa using hany
    obtain ⟨p, rest, hk⟩ := List.exists_cons_of_ne_nil (List.ne_nil_of_mem hmem)
    refine ⟨ht.nodup, ht.valid, ?_, ?_⟩
    · rw [← ht.added, Finset.insert_eq_of_mem (List.mem_toFinset.mpr hmem)]
    · rw [← ht.primary, hk]
      rfl
  · rename_i hany
    cases hadd
    have hnot : key ∉ k.keys := by simpa using hany
    have hadded := ht.added
    have hprimary := ht.primary
    cases hk : k.keys with
    | nil =>
      -- the first key added is the primary
      rw [hk] at hadded hprimary
      refine ⟨by simp [installKeys, GetPrimaryKey, hk], ?_, ?_, ?_⟩
      · simpa [installKeys, GetPrimaryKey, hk] using hvalid
      · simp [installKeys, GetPrimaryKey, hk, ← hadded]
      · simp [installKeys, GetPrimaryKey, hk, ← hprimary]
    | cons p rest =>
      -- the key goes after the others, and the primary stays first
      rw [hk] at hadded hprimary hnot
      have hp : p ≠ [] := ne_nil_of_ValidateKey (ht.valid p (by rw [hk]; exact List.mem_cons_self))
      have hnd : (p :: (rest ++ [key])).Nodup := by
        rw [← List.cons_append]
        exact List.nodup_append.mpr ⟨hk ▸ ht.nodup, List.nodup_singleton key,
          fun a ha b hb hab => hnot (List.mem_singleton.mp hb ▸ hab ▸ ha)⟩
      have hinstall : installKeys (p :: rest ++ [key]) p = ⟨p :: (rest ++ [key])⟩ :=
        installKeys_head hnd
      simp only [GetPrimaryKey, hk, List.headD_cons, if_neg hp, hinstall]
      refine ⟨hnd, ?_, ?_, ?_⟩
      · intro a ha
        rcases List.mem_cons.mp ha with rfl | ha
        · exact ht.valid a (by rw [hk]; exact List.mem_cons_self)
        rcases List.mem_append.mp ha with ha | ha
        · exact ht.valid a (by rw [hk]; exact List.mem_cons_of_mem p ha)
        · rw [List.mem_singleton.mp ha]
          exact hvalid
      · rw [← hadded]
        ext a
        simp [or_left_comm]
      · rw [← hprimary]
        rfl

/-- The step lemma of `UseKey`: the key, which is on the ring, becomes the primary. -/
theorem UseKey_tracks (ht : k.Tracks h) {key : List UInt8} (huse : k.UseKey key = .ok k') :
    k'.Tracks (h.record (.UseKey key) none) := by
  show k'.Tracks ⟨h.added, some key⟩
  unfold UseKey at huse
  split at huse
  · rename_i hany
    cases huse
    have hmem : key ∈ k.keys := by simpa using hany
    refine ⟨?_, ?_, ?_, rfl⟩
    · -- the key, then the others without it
      refine List.nodup_cons.mpr ⟨by simp, ht.nodup.filter _⟩
    · intro a ha
      rcases List.mem_cons.mp ha with rfl | ha
      · exact ht.valid a hmem
      · exact ht.valid a (List.mem_of_mem_filter ha)
    · rw [← ht.added]
      ext a
      by_cases hak : a = key
      · simp [installKeys, hak, hmem]
      · simp [installKeys, hak]
  · cases huse

/-- The step lemma of `RemoveKey`: a key other than the primary leaves the ring. -/
theorem RemoveKey_tracks (ht : k.Tracks h) {key : List UInt8}
    (hremove : k.RemoveKey key = .ok (.ok k')) : k'.Tracks (h.record (.RemoveKey key) none) := by
  show k'.Tracks ⟨h.added.erase key, h.primary⟩
  cases hk : k.keys with
  | nil =>
    -- an empty ring panics
    have hpanic : k.RemoveKey key = .error ⟨"index out of range"⟩ := by
      simp [RemoveKey, hk, Go.index, bind, Except.bind]
    rw [hpanic] at hremove
    cases hremove
  | cons p rest =>
    rw [RemoveKey_eq ht.nodup hk] at hremove
    by_cases hp : key = p
    · rw [if_pos hp] at hremove
      cases hremove
    · rw [if_neg hp] at hremove
      cases hremove
      refine ⟨ht.nodup.erase key, fun a ha => ht.valid a (List.mem_of_mem_erase ha), ?_, ?_⟩
      · rw [← ht.added]
        ext a
        rw [List.mem_toFinset, ht.nodup.mem_erase_iff, Finset.mem_erase, List.mem_toFinset]
      · -- the primary stays first
        have hne : (p == key) = false := by simpa using fun h => hp h.symm
        rw [← ht.primary, hk, List.erase_cons, hne]
        rfl

/-- A ring in a history with a primary key holds a key. -/
theorem Tracks.ne_nil (ht : k.Tracks h) {p : List UInt8} (hp : h.primary = some p) :
    k.keys ≠ [] := by
  intro hnil
  have := ht.primary
  rw [hnil, hp] at this
  cases this

end Keyring

theorem KeyHistory.record_some (h : KeyHistory) (op : KeyringOp) (e : String) :
    h.record op (some e) = h := by
  cases op <;> rfl

/-- A settled call keeps a ring in its history: one that errs leaves the ring as it was, one
    that succeeds as its step lemma says. -/
theorem settle_tracks {k : Keyring} {h : KeyHistory} (ht : k.Tracks h) {op : KeyringOp}
    {r : Except String Keyring} (hok : ∀ k', r = .ok k' → k'.Tracks (h.record op none)) :
    ∃ err, (settle k r).2 = [err] ∧ (settle k r).1.Tracks (h.record op err) := by
  cases r with
  | ok k' => exact ⟨none, rfl, hok k' rfl⟩
  | error e => exact ⟨some e, rfl, (h.record_some op e).symm ▸ ht⟩

/-- One call keeps a ring in its history, and returns one result. -/
theorem KeyringOp.apply_tracks {k k' : Keyring} {h : KeyHistory} (ht : k.Tracks h)
    {op : KeyringOp} {out : List (Option String)} (happly : op.apply k = .ok (k', out)) :
    ∃ err, out = [err] ∧ k'.Tracks (h.record op err) := by
  -- the settled result of the call, and that it keeps the ring in its history
  obtain ⟨r, hsettle, hr⟩ : ∃ r, settle k r = (k', out) ∧
      ∀ k₁, r = .ok k₁ → k₁.Tracks (h.record op none) := by
    cases op with
    | AddKey key => exact ⟨_, Except.ok.inj happly, fun _ => Keyring.AddKey_tracks ht⟩
    | UseKey key => exact ⟨_, Except.ok.inj happly, fun _ => Keyring.UseKey_tracks ht⟩
    | RemoveKey key =>
      cases hremove : k.RemoveKey key with
      | error e => simp only [apply, hremove, Except.map, reduceCtorEq] at happly
      | ok r =>
        simp only [apply, hremove, Except.map, Except.ok.injEq] at happly
        exact ⟨r, happly, fun k₁ hk₁ => Keyring.RemoveKey_tracks ht (hk₁ ▸ hremove)⟩
  obtain ⟨err, hout, hk'⟩ := settle_tracks ht hr
  rw [hsettle] at hout hk'
  exact ⟨err, hout, hk'⟩

/-- A ring that holds a key answers every call without panicking. -/
theorem KeyringOp.apply_ok {k : Keyring} (hnd : k.keys.Nodup) (hne : k.keys ≠ [])
    (op : KeyringOp) : ∃ r, op.apply k = .ok r := by
  cases op with
  | AddKey key => exact ⟨_, rfl⟩
  | UseKey key => exact ⟨_, rfl⟩
  | RemoveKey key =>
    obtain ⟨p, rest, hk⟩ := List.exists_cons_of_ne_nil hne
    rw [apply, Keyring.RemoveKey_eq hnd hk]
    exact ⟨_, rfl⟩

/-- A history with a primary key keeps one. -/
theorem KeyHistory.record_primary {h : KeyHistory} {p : List UInt8} (hp : h.primary = some p)
    (op : KeyringOp) (err : Option String) : ∃ p', (h.record op err).primary = some p' := by
  cases err with
  | some e => exact ⟨p, by rw [h.record_some]; exact hp⟩
  | none =>
    cases op with
    | AddKey key => exact ⟨p, by simp [record, hp]⟩
    | UseKey key => exact ⟨key, rfl⟩
    | RemoveKey key => exact ⟨p, hp⟩

/-- The run lemma: a run of calls from a ring in its history returns one result a call and ends
    in the history of what the calls returned. -/
theorem Keyring.run_tracks : ∀ {k k' : Keyring} {h : KeyHistory} {ops : List KeyringOp}
    {errs : List (Option String)}, k.Tracks h → Run.run KeyringOp.apply k ops = .ok (k', errs) →
      errs.length = ops.length ∧ k'.Tracks (h.replay ops errs)
  | _, _, _, [], _, ht, hrun => by
    cases hrun
    exact ⟨rfl, ht⟩
  | _, _, _, op :: ops, _, ht, hrun => by
    obtain ⟨k₁, o, o', hop, hrest, rfl⟩ := Run.run_cons_eq_ok.mp hrun
    obtain ⟨err, rfl, ht₁⟩ := KeyringOp.apply_tracks ht hop
    obtain ⟨hlen, ht'⟩ := run_tracks ht₁ hrest
    exact ⟨by simp [hlen], ht'⟩

/-- A run from a ring that holds a key never panics. -/
theorem Keyring.run_ok : ∀ {k : Keyring} {h : KeyHistory} {p : List UInt8} (ops : List KeyringOp),
    k.Tracks h → h.primary = some p → ∃ r, Run.run KeyringOp.apply k ops = .ok r
  | _, _, _, [], _, _ => ⟨_, rfl⟩
  | _, _, _, op :: ops, ht, hp => by
    obtain ⟨⟨k₁, o⟩, hop⟩ := KeyringOp.apply_ok ht.nodup (ht.ne_nil hp) op
    obtain ⟨err, rfl, ht₁⟩ := KeyringOp.apply_tracks ht hop
    obtain ⟨p₁, hp₁⟩ := KeyHistory.record_primary hp op err
    obtain ⟨⟨k', o'⟩, hrest⟩ := run_ok ops ht₁ hp₁
    exact ⟨_, Run.run_cons_eq_ok.mpr ⟨k₁, [err], o', hop, hrest, rfl⟩⟩

theorem Keyring.empty_tracks : (⟨[]⟩ : Keyring).Tracks ⟨∅, none⟩ :=
  ⟨List.nodup_nil, List.forall_mem_nil _, rfl, rfl⟩

/-- `NewKeyring`'s loop of `AddKey`s keeps the primary and adds the keys. -/
theorem Keyring.foldlM_AddKey_tracks {p : List UInt8} :
    ∀ {k k' : Keyring} {added : Finset (List UInt8)} {keys : List (List UInt8)},
      k.Tracks ⟨added, some p⟩ → keys.foldlM (fun keyring key => keyring.AddKey key) k = .ok k' →
      k'.Tracks ⟨added ∪ keys.toFinset, some p⟩
  | _, _, added, [], ht, hfold => by
    cases hfold
    simpa using ht
  | k, _, added, key :: keys, ht, hfold => by
    rw [List.foldlM_cons] at hfold
    obtain ⟨k₁, hadd, hrest⟩ := Go.bind_eq_ok.mp hfold
    have ht₁ := AddKey_tracks ht hadd
    have hunion : insert key added ∪ keys.toFinset = added ∪ (key :: keys).toFinset := by
      rw [List.toFinset_cons, Finset.union_insert, Finset.insert_union]
    rw [← hunion]
    exact foldlM_AddKey_tracks ht₁ hrest

/-- `NewKeyring` starts a ring in the history of its arguments. -/
theorem NewKeyring_tracks {keys : List (List UInt8)} {primaryKey : List UInt8} {k : Keyring}
    (hnew : NewKeyring keys primaryKey = .ok k) : k.Tracks (KeyHistory.new keys primaryKey) := by
  unfold NewKeyring at hnew
  unfold KeyHistory.new
  split at hnew
  · rename_i hargs
    rw [if_pos hargs]
    split at hnew
    · cases hnew
    -- the primary key first, then the others
    obtain ⟨k₁, hadd, hfold⟩ := Go.bind_eq_ok.mp hnew
    have ht₁ := Keyring.AddKey_tracks Keyring.empty_tracks hadd
    have ht := Keyring.foldlM_AddKey_tracks ht₁ hfold
    rw [Finset.insert_union, Finset.empty_union] at ht
    exact ht
  · rename_i hargs
    rw [if_neg hargs]
    cases hnew
    exact Keyring.empty_tracks

/-- Every run of calls after `NewKeyring` returns one result a call and keeps the ring in the
    history of what they returned: distinct keys of a valid size, exactly those added and not
    removed since, the primary first; and no call panics once the ring holds a key. -/
theorem keyring_runs_track {keys : List (List UInt8)} {primaryKey : List UInt8} {k : Keyring}
    (hnew : NewKeyring keys primaryKey = .ok k) (ops : List KeyringOp) :
    (∀ k' errs, Run.run KeyringOp.apply k ops = .ok (k', errs) →
      errs.length = ops.length ∧ k'.Tracks ((KeyHistory.new keys primaryKey).replay ops errs)) ∧
    (k.keys ≠ [] → ∃ r, Run.run KeyringOp.apply k ops = .ok r) := by
  have ht := NewKeyring_tracks hnew
  refine ⟨fun k' errs hrun => Keyring.run_tracks ht hrun, fun hne => ?_⟩
  -- a ring that holds a key has a primary in its history
  obtain ⟨p, rest, hk⟩ := List.exists_cons_of_ne_nil hne
  have hp : (KeyHistory.new keys primaryKey).primary = some p := by
    rw [← ht.primary, hk]
    rfl
  exact Keyring.run_ok ops ht hp

/-- `NewKeyring` with no keys builds an empty ring, and `RemoveKey` on it indexes `k.keys[0]` of
    an empty slice: every run that starts with it panics. -/
theorem RemoveKey_empty_keyring_panics :
    NewKeyring [] [] = .ok ⟨[]⟩ ∧
      ∀ (key : List UInt8) (ops : List KeyringOp),
        Run.run KeyringOp.apply ⟨[]⟩ (.RemoveKey key :: ops) = .error ⟨"index out of range"⟩ := by
  refine ⟨rfl, fun key ops => ?_⟩
  simp [Run.run, KeyringOp.apply, Keyring.RemoveKey, Go.index, Except.map, bind, Except.bind]

end memberlist
