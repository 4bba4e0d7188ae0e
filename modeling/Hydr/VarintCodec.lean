import Mathlib
import Hydr.SafeDecoding

/-!
# The varint codec over all of its words

The encoder takes a word of 64 bits, and the decoder shifts one together. Every
word comes back but for its two top bits, in the fewest bytes that have room for
it; and what is decoded is never longer when it is encoded again.
-/

set_option autoImplicit false

namespace Hydr.Varint

def lengths : List ℕ := [1,2,4,8]

def HasRoom (n v : ℕ) : Prop := v < 2^(8*n-2)

structure Shortest (n v : ℕ) : Prop where
  mem : n ∈ lengths
  least : ∀ m ∈ lengths, HasRoom m v → n ≤ m
  room : HasRoom n v ∨ n = 8 ∧ 2^62 ≤ v

theorem hasRoom_iff (v : ℕ) : (HasRoom 1 v ↔ v < 2^6) ∧ (HasRoom 2 v ↔ v < 2^14) ∧
    (HasRoom 4 v ↔ v < 2^30) ∧ (HasRoom 8 v ↔ v < 2^62) :=
  ⟨Iff.rfl,Iff.rfl,Iff.rfl,Iff.rfl⟩

theorem encodeVarintLen_mem (v : ℕ) : encodeVarintLen v ∈ lengths := by
  unfold encodeVarintLen
  split_ifs <;> decide

theorem encodeVarintLen_least (v m : ℕ) (hm : m ∈ lengths) (h : HasRoom m v) :
    encodeVarintLen v ≤ m := by
  obtain ⟨h1,h2,h4,h8⟩ := hasRoom_iff v
  simp only [lengths, List.mem_cons, List.not_mem_nil, or_false] at hm
  unfold encodeVarintLen
  simp only [Nat.one_shiftLeft]
  rcases hm with rfl | rfl | rfl | rfl
  · rw [if_pos (h1.mp h)]
  · have hv := h2.mp h
    split_ifs <;> omega
  · have hv := h4.mp h
    split_ifs <;> omega
  · split_ifs <;> omega

theorem encodeVarintLen_room (v : ℕ) :
    HasRoom (encodeVarintLen v) v ∨ encodeVarintLen v = 8 ∧ 2^62 ≤ v := by
  obtain ⟨h1,h2,h4,h8⟩ := hasRoom_iff v
  unfold encodeVarintLen
  simp only [Nat.one_shiftLeft]
  split_ifs with ha hb hc
  · exact Or.inl (h1.mpr ha)
  · exact Or.inl (h2.mpr hb)
  · exact Or.inl (h4.mpr hc)
  · by_cases hd : v < 2^62
    · exact Or.inl (h8.mpr hd)
    · exact Or.inr ⟨rfl,Nat.le_of_not_lt hd⟩

theorem encodeVarintLen_shortest (v : ℕ) : Shortest (encodeVarintLen v) v :=
  ⟨encodeVarintLen_mem v,encodeVarintLen_least v,encodeVarintLen_room v⟩

/-- The decoder that shifts a word together answers as the plain one. -/
theorem decodeVarintChecked_iff (buf : Bytes) (r : Result (ℕ × ℕ)) :
    Checked.Returns (decodeVarintChecked buf) r ↔ decodeVarint buf = r :=
  Checked.returns_iff (decodeVarint_returns buf)

/-- Every word is decoded to its lower 62 bits from the shortest encoding, and what
any bytes decode to is encoded again in no more bytes and comes back. -/
theorem codec_exact (v : UInt64) (rest : Bytes) :
    Checked.Returns (decodeVarintChecked (encodeVarint v.toNat++rest))
      (.ok (v.toNat%2^62,(encodeVarint v.toNat).length)) ∧
    (encodeVarint v.toNat).length = encodeVarintLen v.toNat ∧
    Shortest (encodeVarint v.toNat).length v.toNat ∧
    ∀ buf w n, Checked.Returns (decodeVarintChecked buf) (.ok (w,n)) → w < 2^62 ∧
      (encodeVarint w).length ≤ n ∧
      Checked.Returns (decodeVarintChecked (encodeVarint w)) (.ok (w,(encodeVarint w).length)) := by
  have hlen := encodeVarint_length v.toNat
  refine ⟨?_,hlen,?_,?_⟩
  · rw [decodeVarintChecked_iff, hlen]
    exact decode_encode v.toNat rest
  · rw [hlen]
    exact encodeVarintLen_shortest v.toNat
  · intro buf w n h
    rw [decodeVarintChecked_iff] at h
    have hw := decodeVarint_lt h
    have hs := decode_encode_small w [] hw
    rw [List.append_nil] at hs
    rw [decodeVarintChecked_iff, encodeVarint_length]
    exact ⟨hw,encodeVarintLen_le_used buf w n h,hs⟩

end Hydr.Varint
