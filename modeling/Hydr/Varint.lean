import Mathlib
import Hydr.Library.BigEndian

/-!
# Variable-length integers

The four length classes of the wire format. A value is a `u64`; the two top
bits of the first byte carry the class, so only 62 bits of the value survive.
-/

set_option autoImplicit false

namespace Hydr

abbrev Bytes := List UInt8

def ascii (s : String) : Bytes := s.toList.map (fun c => UInt8.ofNat c.toNat)

inductive Error where
  | io
  | unexpectedEof
  | invalidData (reason : String)
  | message (text : Bytes)
  | authFailed
  | streamClosed
  | unsupported
  deriving DecidableEq, Repr

abbrev Result := Except Error

theorem ok_of_bind {A B : Type} {x : Result A} {f : A → Result B} {b : B} (h : x >>= f = .ok b) :
    ∃ a, x = .ok a ∧ f a = .ok b := by
  cases x with
  | error e => cases h
  | ok a => exact ⟨a,rfl,h⟩

/-- `e.to_string()`; the operating system's own text is left out of `io`. -/
def Error.text : Error → Bytes
  | .io => ascii "io error"
  | .unexpectedEof => ascii "unexpected end of buffer"
  | .invalidData reason => ascii "invalid data: " ++ ascii reason
  | .message text => text
  | .authFailed => ascii "authentication failed"
  | .streamClosed => ascii "stream closed"
  | .unsupported => ascii "unsupported"

namespace Varint
open BigEndian

def encodeVarint (v : ℕ) : Bytes :=
  if v < 1 <<< 6 then [UInt8.ofNat v]
  else if v < 1 <<< 14 then [UInt8.ofNat (v >>> 8) ||| 0x40, UInt8.ofNat v]
  else if v < 1 <<< 30 then (UInt8.ofNat (v >>> 24) ||| 0x80) :: (toBytes 4 v).tail
  else (UInt8.ofNat (v >>> 56) ||| 0xc0) :: (toBytes 8 v).tail

def encodeVarintLen (v : ℕ) : ℕ :=
  if v < 1 <<< 6 then 1
  else if v < 1 <<< 14 then 2
  else if v < 1 <<< 30 then 4
  else 8

def decodeVarint : Bytes → Result (ℕ × ℕ)
  | [] => .error .unexpectedEof
  | first::rest =>
    let len := 1 <<< (first >>> 6).toNat
    if (first::rest).length < len then .error .unexpectedEof
    else .ok ((rest.take (len-1)).foldl accumulate (first &&& 0x3f).toNat, len)

/-- What the class bits leave of the first byte, for each way of setting them. -/
theorem class_bits : ∀ b : UInt8,
    (b < 64 → (b >>> 6).toNat = 0 ∧ (b &&& 0x3f).toNat = b.toNat ∧
      ((b ||| 0x40) >>> 6).toNat = 1 ∧ ((b ||| 0x40) &&& 0x3f).toNat = b.toNat ∧
      ((b ||| 0x80) >>> 6).toNat = 2 ∧ ((b ||| 0x80) &&& 0x3f).toNat = b.toNat) ∧
    ((b ||| 0xc0) >>> 6).toNat = 3 ∧ ((b ||| 0xc0) &&& 0x3f).toNat = b.toNat%64 := by
  decide +kernel

theorem small_byte (n : ℕ) (h : n < 64) : UInt8.ofNat n < 64 ∧ (UInt8.ofNat n).toNat = n := by
  have hn : (UInt8.ofNat n).toNat = n := by rw [UInt8.toNat_ofNat']; omega
  exact ⟨by rw [UInt8.lt_iff_toNat_lt, hn]; exact h,hn⟩

theorem decode_class (first : UInt8) (body rest : Bytes) (k : ℕ)
    (hk : (first >>> 6).toNat = k) (hl : body.length = 2^k-1) :
    decodeVarint (first::(body++rest)) =
      .ok (body.foldl accumulate (first &&& 0x3f).toNat, 2^k) := by
  have hp : 0 < 2^k := by positivity
  have hs : 1 <<< (first >>> 6).toNat = 2^k := by rw [hk, Nat.one_shiftLeft]
  simp only [decodeVarint, hs]
  rw [if_neg (by simp; omega), ← hl, List.take_left]

@[simp] theorem encodeVarint_length (v : ℕ) : (encodeVarint v).length = encodeVarintLen v := by
  unfold encodeVarint encodeVarintLen
  split_ifs <;> simp

theorem encodeVarintLen_pos (v : ℕ) : 0 < encodeVarintLen v := by
  unfold encodeVarintLen
  split_ifs <;> simp

theorem encodeVarintLen_le (v : ℕ) : encodeVarintLen v ≤ 8 := by
  unfold encodeVarintLen
  split_ifs <;> simp

/-- Every value comes back modulo `2 ^ 62`, whatever follows it. -/
theorem decode_encode (v : ℕ) (rest : Bytes) :
    decodeVarint (encodeVarint v++rest) = .ok (v%2^62, encodeVarintLen v) := by
  unfold encodeVarint encodeVarintLen
  split_ifs with h1 h2 h3
  · have hv : v < 64 := h1
    obtain ⟨hs,hn⟩ := small_byte v hv
    have hb := (class_bits (UInt8.ofNat v)).1 hs
    have hd := decode_class (UInt8.ofNat v) [] rest 0 hb.1 rfl
    rw [Nat.mod_eq_of_lt (show v < 2^62 by omega)]
    simpa [hb.2.1, hn] using hd
  · have hv : v < 2^14 := h2
    obtain ⟨hs,hn⟩ := small_byte (v >>> 8) (by rw [Nat.shiftRight_eq_div_pow]; omega)
    have hb := (class_bits (UInt8.ofNat (v >>> 8))).1 hs
    have hd := decode_class (UInt8.ofNat (v >>> 8) ||| 0x40) [UInt8.ofNat v] rest 1
      hb.2.2.1 rfl
    rw [hb.2.2.2.1, hn] at hd
    refine Eq.trans hd ?_
    congr 2
    simp only [List.foldl_cons, List.foldl_nil, accumulate_eq, UInt8.toNat_ofNat',
      Nat.shiftRight_eq_div_pow]
    omega
  · have hv : v < 2^30 := h3
    obtain ⟨hs,hn⟩ := small_byte (v >>> 24) (by rw [Nat.shiftRight_eq_div_pow]; omega)
    have hb := (class_bits (UInt8.ofNat (v >>> 24))).1 hs
    have hd := decode_class (UInt8.ofNat (v >>> 24) ||| 0x80) (toBytes 3 v) rest 2
      hb.2.2.2.2.1 (by simp)
    rw [hb.2.2.2.2.2, hn, foldl_toBytes] at hd
    refine Eq.trans hd ?_
    rw [Nat.shiftRight_eq_div_pow]
    congr 2
    omega
  · have hb := (class_bits (UInt8.ofNat (v >>> 56))).2
    have hd := decode_class (UInt8.ofNat (v >>> 56) ||| 0xc0) (toBytes 7 v) rest 3
      hb.1 (by simp)
    rw [hb.2, foldl_toBytes, UInt8.toNat_ofNat'] at hd
    refine Eq.trans hd ?_
    rw [Nat.shiftRight_eq_div_pow]
    congr 2
    omega

theorem foldl_accumulate_lt (bs : Bytes) (a : ℕ) :
    bs.foldl accumulate a < (a+1)*256^bs.length := by
  induction bs generalizing a with
  | nil => simp
  | cons b bs ih =>
    have hb := b.toNat_lt
    have ha : accumulate a b+1 ≤ (a+1)*256 := by
      rw [accumulate_eq]
      omega
    calc (b::bs).foldl accumulate a < (accumulate a b+1)*256^bs.length := ih _
      _ ≤ (a+1)*256*256^bs.length := Nat.mul_le_mul_right _ ha
      _ = (a+1)*256^(b::bs).length := by rw [List.length_cons, pow_succ]; ring

/-- The encoder never needs more bytes than the decoder has read. -/
theorem encodeVarintLen_le_used (buf : Bytes) (v used : ℕ)
    (h : decodeVarint buf = .ok (v,used)) : encodeVarintLen v ≤ used := by
  match buf with
  | first::rest =>
    have hc : ∀ b : UInt8, (b >>> 6).toNat < 4 ∧ (b &&& 0x3f).toNat < 64 := by decide +kernel
    obtain ⟨hk,hf⟩ := hc first
    simp only [decodeVarint] at h
    split_ifs at h
    obtain ⟨rfl,rfl⟩ := Prod.mk.inj (Except.ok.inj h)
    have hv := foldl_accumulate_lt (rest.take (1 <<< (first >>> 6).toNat-1)) (first &&& 0x3f).toNat
    generalize hw : (rest.take _).foldl accumulate _ = w at hv ⊢
    have hl : w < 64*256^(1 <<< (first >>> 6).toNat-1) := hv.trans_le
      (Nat.mul_le_mul (by omega) (Nat.pow_le_pow_right (by omega) (List.length_take_le _ _)))
    generalize (first >>> 6).toNat = k at hk hl ⊢
    unfold encodeVarintLen
    have hs : k = 0 ∨ k = 1 ∨ k = 2 ∨ k = 3 := by omega
    rcases hs with rfl | rfl | rfl | rfl <;> simp only [Nat.shiftLeft_eq] at hl ⊢ <;>
      split_ifs <;> omega

theorem decode_encode_small (v : ℕ) (rest : Bytes) (h : v < 2^62) :
    decodeVarint (encodeVarint v++rest) = .ok (v, encodeVarintLen v) := by
  rw [decode_encode, Nat.mod_eq_of_lt h]

end Varint
end Hydr
