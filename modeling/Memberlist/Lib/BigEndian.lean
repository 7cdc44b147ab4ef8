import Mathlib

/-!
# Big-endian byte encodings of naturals

`encoding/binary`'s `BigEndian` on naturals: `PutUint16(b, uint16(n))` writes `toListBE 2 n`
and `Uint16(b)` reads `ofListBE` of two bytes; likewise for 32 bits.

* `toListBE w n` — the `w` bytes of `n`, most significant first; bits above `8 * w` are
  dropped, as the conversion to a `uint16` or `uint32` drops them.
* `ofListBE` — the natural a list of bytes spells.
* `ofListBE_toListBE` — the round trip, as `n % 256 ^ w`.
-/

namespace BigEndian

/-- The `w` big-endian bytes of `n`. -/
def toListBE : Nat → Nat → List UInt8
  | 0, _ => []
  | w + 1, n => UInt8.ofNat (n / 256 ^ w) :: toListBE w n

/-- The natural with the given big-endian bytes. -/
def ofListBE : List UInt8 → Nat
  | [] => 0
  | b :: bs => b.toNat * 256 ^ bs.length + ofListBE bs

@[simp] theorem toListBE_zero (n : Nat) : toListBE 0 n = [] := rfl

@[simp] theorem toListBE_succ (w n : Nat) :
    toListBE (w + 1) n = UInt8.ofNat (n / 256 ^ w) :: toListBE w n := rfl

@[simp] theorem ofListBE_nil : ofListBE [] = 0 := rfl

@[simp] theorem ofListBE_cons (b : UInt8) (bs : List UInt8) :
    ofListBE (b :: bs) = b.toNat * 256 ^ bs.length + ofListBE bs := rfl

@[simp] theorem length_toListBE (w n : Nat) : (toListBE w n).length = w := by
  induction w with
  | zero => rfl
  | succ w ih => simp [ih]

theorem ofListBE_toListBE (w n : Nat) : ofListBE (toListBE w n) = n % 256 ^ w := by
  induction w with
  | zero => simp [Nat.mod_one]
  | succ w ih =>
    have hbyte : (UInt8.ofNat (n / 256 ^ w)).toNat = n / 256 ^ w % 256 := by simp
    rw [toListBE_succ, ofListBE_cons, ih, length_toListBE, hbyte]
    -- the top byte is the digit of `n` at `256 ^ w`
    have hdigit : n % 256 ^ (w + 1) = n / 256 ^ w % 256 * 256 ^ w + n % 256 ^ w := by
      rw [pow_succ, Nat.mod_mul]
      ring
    rw [hdigit]

theorem ofListBE_toListBE_of_lt {w n : Nat} (h : n < 256 ^ w) : ofListBE (toListBE w n) = n := by
  rw [ofListBE_toListBE, Nat.mod_eq_of_lt h]

end BigEndian
