import Mathlib

/-!
# Big-endian byte strings

A natural number written in a fixed number of bytes, most significant byte
first, and read back by accumulation. Truncation is explicit: writing `k`
bytes keeps the value modulo `256 ^ k`.
-/

set_option autoImplicit false

namespace BigEndian

def toBytes : ℕ → ℕ → List UInt8
  | 0, _ => []
  | k+1, v => UInt8.ofNat (v >>> (8*k)) :: toBytes k v

def accumulate (v : ℕ) (b : UInt8) : ℕ := (v <<< 8) ||| b.toNat

def ofBytes (bs : List UInt8) : ℕ := bs.foldl accumulate 0

@[simp] theorem toBytes_length (k v : ℕ) : (toBytes k v).length = k := by
  induction k with
  | zero => rfl
  | succ k ih => simp [toBytes, ih]

theorem accumulate_eq (v : ℕ) (b : UInt8) : accumulate v b = v*256+b.toNat := by
  rw [accumulate, ← Nat.shiftLeft_add_eq_or_of_lt b.toNat_lt, Nat.shiftLeft_eq]

theorem foldl_toBytes (k v acc : ℕ) :
    (toBytes k v).foldl accumulate acc = acc*256^k+v%256^k := by
  induction k generalizing acc with
  | zero => simp [toBytes, Nat.mod_one]
  | succ k ih =>
    have hb : (UInt8.ofNat (v >>> (8*k))).toNat = v/256^k%256 := by
      rw [UInt8.toNat_ofNat', Nat.shiftRight_eq_div_pow, pow_mul]
      norm_num
    rw [toBytes, List.foldl_cons, ih, accumulate_eq, hb, Nat.mod_pow_succ]
    ring

theorem ofBytes_toBytes (k v : ℕ) : ofBytes (toBytes k v) = v%256^k := by
  rw [ofBytes, foldl_toBytes]
  simp

end BigEndian
