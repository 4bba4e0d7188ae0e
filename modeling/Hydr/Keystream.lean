import Mathlib
import Hydr.Obfuscation

/-!
# What a masked body tells without the key

A body is masked with one block of 32 bytes, repeated as often as it takes. So
two bytes at a distance of 32 keep their difference, and the sequence number in
front is known: a body rules out every payload that does not differ from the
true one by a pattern of that period.
-/

set_option autoImplicit false

namespace Hydr.Obfuscator
open BigEndian

/-- The body of a message is the plaintext under the block of its salt. -/
theorem sealed_masked (b3 : Blake3) (ob : Obfuscator) (seq : ℕ) (salt : Salt) (p : Bytes) :
    bodyOf (ob.sealed b3 seq salt p) =
      xorBlock (ob.keyStream b3 salt.toList) (toBytes 8 seq++p) :=
  sealed_body b3 ob seq salt p

def difference (p q : Bytes) (i : ℕ) : UInt8 := if i < 8 then 0 else p.getD (i-8) 0 ^^^ q.getD (i-8) 0

def Repeats (p q : Bytes) : Prop :=
  ∀ i, i+32 < 8+p.length → difference p q i = difference p q (i+32)

def Hides (seq : ℕ) (p q : Bytes) (block : Digest) : Prop :=
  ∃ block', xorBlock block' (toBytes 8 seq++q) = xorBlock block (toBytes 8 seq++p)

variable (seq : ℕ) (p q : Bytes) (block : Digest)

theorem xorBlock_length (buf : Bytes) : (xorBlock block buf).length = buf.length := by
  simp [xorBlock]

theorem xorBlock_getD (buf : Bytes) (i : ℕ) (hi : i < buf.length) :
    (xorBlock block buf).getD i 0 = buf.getD i 0 ^^^ block.get (Fin.ofNat 32 i) := by
  simp [xorBlock, List.getD_eq_getElem?_getD, hi]

theorem plain_getD (i : ℕ) :
    (toBytes 8 seq++p).getD i 0 = if i < 8 then (toBytes 8 seq).getD i 0 else p.getD (i-8) 0 := by
  split_ifs with h
  · exact List.getD_append _ _ _ _ (by simpa using h)
  · rw [List.getD_append_right _ _ _ _ (by simpa using h), toBytes_length]

theorem difference_eq (i : ℕ) :
    difference p q i = (toBytes 8 seq++p).getD i 0 ^^^ (toBytes 8 seq++q).getD i 0 := by
  rw [plain_getD, plain_getD, difference]
  split_ifs
  · rw [UInt8.xor_self]
  · rfl

theorem masked_eq_iff (a b x y : UInt8) : b ^^^ y = a ^^^ x ↔ y = x ^^^ (a ^^^ b) := by
  rw [← UInt8.xor_right_inj b (a := b ^^^ y), ← UInt8.xor_assoc, UInt8.xor_self,
    UInt8.zero_xor, ← UInt8.xor_assoc, UInt8.xor_comm (b ^^^ a) x, UInt8.xor_comm b a]

theorem bytes_ext (l m : Bytes) (n : ℕ) (hl : l.length = n) (hm : m.length = n) :
    l = m ↔ ∀ i < n, l.getD i 0 = m.getD i 0 := by
  constructor
  · rintro rfl i -
    rfl
  · intro h
    apply List.ext_getElem (hl.trans hm.symm)
    intro i h1 h2
    simpa [h1, h2] using h i (h1.trans_eq hl)

section Payloads

variable {p q} (hl : q.length = p.length)
include hl

/-- A block masks the second payload alike when its bytes differ from those of
the first block as the plaintexts do. -/
theorem masks_iff (block' : Digest) :
    xorBlock block' (toBytes 8 seq++q) = xorBlock block (toBytes 8 seq++p) ↔
      ∀ i < 8+p.length, block'.get (Fin.ofNat 32 i) =
        block.get (Fin.ofNat 32 i) ^^^ difference p q i := by
  have hp : (toBytes 8 seq++p).length = 8+p.length := by simp
  have hq : (toBytes 8 seq++q).length = 8+p.length := by simp [hl]
  rw [bytes_ext _ _ (8+p.length) (by rw [xorBlock_length, hq]) (by rw [xorBlock_length, hp])]
  refine forall₂_congr fun i hi => ?_
  rw [xorBlock_getD _ _ _ (hi.trans_eq hq.symm), xorBlock_getD _ _ _ (hi.trans_eq hp.symm),
    masked_eq_iff, difference_eq seq p q i]

omit hl in
theorem difference_mod (h : Repeats p q) (i : ℕ) (hi : i < 8+p.length) :
    difference p q i = difference p q (i%32) := by
  induction i using Nat.strong_induction_on with
  | _ i ih =>
    by_cases hs : i < 32
    · rw [Nat.mod_eq_of_lt hs]
    · obtain ⟨j,rfl⟩ := Nat.exists_eq_add_of_le' (not_lt.mp hs)
      rw [← h j hi, Nat.add_mod_right]
      exact ih j (by omega) (by omega)

/-- The payload is not ruled out exactly when it differs by a repeating pattern. -/
theorem hides_iff_repeats : Hides seq p q block ↔ Repeats p q := by
  constructor
  · rintro ⟨block',hb⟩ i hi
    rw [masks_iff seq block hl] at hb
    have h1 := hb i (by omega)
    have h2 := hb (i+32) hi
    have hf : Fin.ofNat 32 (i+32) = Fin.ofNat 32 i := Fin.ext (Nat.add_mod_right i 32)
    rw [hf, h1] at h2
    exact (UInt8.xor_right_inj _).mp h2
  · intro h
    refine ⟨.ofFn fun j => block.get j ^^^ difference p q j,?_⟩
    rw [masks_iff seq block hl]
    intro i hi
    rw [List.Vector.get_ofFn, difference_mod h i hi]
    rfl

omit hl in
/-- In front of the second block's first byte there is nothing but the number. -/
theorem repeats_of_short (h : p.length ≤ 24) : Repeats p q := fun _ hi => by omega

end Payloads

theorem not_repeats_last (n : ℕ) :
    ¬Repeats (List.replicate (25+n) 0) (List.replicate 24 0++1::List.replicate n 0) := by
  intro h
  have h0 := h 0 (by rw [List.length_replicate]; omega)
  simp [difference] at h0

/-- A body excludes a payload of its length exactly when the two differ by
anything but a pattern that repeats every 32 bytes and starts with the zeros of
the number; so none is excluded exactly for payloads of at most 24 bytes. -/
theorem hides_iff (n : ℕ) :
    (∀ p q block, p.length = n → q.length = n → (Hides seq p q block ↔ Repeats p q)) ∧
    ((∀ p q block, p.length = n → q.length = n → Hides seq p q block) ↔ n ≤ 24) := by
  refine ⟨fun p q block hp hq => hides_iff_repeats seq block (hq.trans hp.symm),fun h => ?_,?_⟩
  · by_contra hn
    obtain ⟨m,rfl⟩ := Nat.exists_eq_add_of_le (show 25 ≤ n by omega)
    have hq : (List.replicate 24 (0:UInt8)++1::List.replicate m 0).length = 25+m := by
      simp; omega
    have hp : (List.replicate (25+m) (0:UInt8)).length = 25+m := List.length_replicate
    have hh := h (List.replicate (25+m) 0) _ (.replicate 32 0) hp hq
    exact not_repeats_last m ((hides_iff_repeats seq _ (hq.trans hp.symm)).mp hh)
  · exact fun hn p q block hp hq =>
      (hides_iff_repeats seq block (hq.trans hp.symm)).mpr (repeats_of_short (hp.trans_le hn))

/-- Payloads of 25 bytes that differ in the last one. -/
theorem long_payload_excluded :
    ¬∀ (seq : ℕ) (p q : Bytes) (block : Digest), q.length = p.length → Hides seq p q block := by
  intro h
  have hl : (List.replicate 24 (0:UInt8)++1::List.replicate 0 0).length =
      (List.replicate (25+0) (0:UInt8)).length := by simp
  exact not_repeats_last 0 ((hides_iff_repeats 0 _ hl).mp (h 0 _ _ (.replicate 32 0) hl))

/-- Two payloads of three bytes. -/
theorem short_payload_hidden : Hides 0 [1,2,3] [4,5,6] (.replicate 32 0) :=
  (hides_iff 0 3).2.mpr (by decide) [1,2,3] [4,5,6] _ rfl rfl

end Hydr.Obfuscator
