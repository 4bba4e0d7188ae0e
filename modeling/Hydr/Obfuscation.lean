import Mathlib
import Hydr.Message
import Hydr.ReplayFilter

/-!
# The obfuscation layer

A sealed message is salt, masked body and tag. The body masks the sequence
number and the payload with a keystream derived from the key and the salt; the
tag is a keyed hash of the body alone. Opening a message is split here into
its stateless half, which checks the length and the tag and unmasks, and the
replay filter, which sees only the unmasked sequence number.
-/

set_option autoImplicit false

namespace Hydr

inductive DecryptOutcome where
  | ok (payload : Bytes)
  | replay
  | invalid
  deriving DecidableEq

structure Obfuscator where
  key : Bytes
  key32 : Digest
  sendSeq : ℕ
  recv : ReplayFilter

namespace Obfuscator
open BigEndian Message

def saltLen : ℕ := 8

abbrev Salt := List.Vector UInt8 saltLen

def new (b3 : Blake3) (key : Bytes) : Obfuscator where
  key := key
  key32 := b3.hash key
  sendSeq := 0
  recv := .new (1 <<< 16)

/-- The hasher takes the key, then the salt; it hashes their concatenation. -/
def keyStream (b3 : Blake3) (ob : Obfuscator) (salt : Bytes) : Digest := b3.hash (ob.key++salt)

def xorInPlace (b3 : Blake3) (ob : Obfuscator) (buf salt : Bytes) : Bytes :=
  buf.mapIdx fun i b => b ^^^ (ob.keyStream b3 salt).get (Fin.ofNat 32 i)

def xorBlock (block : Digest) (buf : Bytes) : Bytes :=
  buf.mapIdx fun i b => b ^^^ block.get (Fin.ofNat 32 i)

def tag (b3 : Blake3) (ob : Obfuscator) (body : Bytes) : Bytes :=
  (b3.keyedHash ob.key32 body).toList.take tagLen

/-- The random salt is an input; the counter is a wrapping `u64`. -/
def encrypt (b3 : Blake3) (ob : Obfuscator) (salt : Salt) (buf : Bytes) : Bytes × Obfuscator :=
  let plaintext := toBytes 8 ob.sendSeq ++ buf
  let body := ob.xorInPlace b3 plaintext salt.toList
  (salt.toList ++ body ++ ob.tag b3 body, { ob with sendSeq := (ob.sendSeq+1)%2^64 })

def saltOf (buf : Bytes) : Bytes := buf.take saltLen

def bodyOf (buf : Bytes) : Bytes :=
  let rest := buf.drop saltLen
  rest.take (rest.length-tagLen)

def tagOf (buf : Bytes) : Bytes :=
  let rest := buf.drop saltLen
  rest.drop (rest.length-tagLen)

def decryptOutcome (b3 : Blake3) (ob : Obfuscator) (buf : Bytes) :
    DecryptOutcome × Obfuscator :=
  if buf.length < saltLen+tagLen+8 then (.invalid,ob)
  else if ob.tag b3 (bodyOf buf) ≠ tagOf buf then (.invalid,ob)
  else
    let plain := ob.xorInPlace b3 (bodyOf buf) (saltOf buf)
    let seq := ofBytes (plain.take 8)
    let (fresh,recv) := ob.recv.observe seq
    if !fresh then (.replay,{ ob with recv := recv })
    else (.ok (plain.drop 8),{ ob with recv := recv })

def Verifies (b3 : Blake3) (ob : Obfuscator) (buf : Bytes) : Prop :=
  saltLen+tagLen+8 ≤ buf.length ∧ ob.tag b3 (bodyOf buf) = tagOf buf

instance (b3 : Blake3) (ob : Obfuscator) (buf : Bytes) : Decidable (ob.Verifies b3 buf) :=
  inferInstanceAs (Decidable (_ ∧ _))

def plainOf (b3 : Blake3) (ob : Obfuscator) (buf : Bytes) : Bytes :=
  ob.xorInPlace b3 (bodyOf buf) (saltOf buf)

def seqOf (b3 : Blake3) (ob : Obfuscator) (buf : Bytes) : ℕ :=
  ofBytes ((ob.plainOf b3 buf).take 8)

def payloadOf (b3 : Blake3) (ob : Obfuscator) (buf : Bytes) : Bytes :=
  (ob.plainOf b3 buf).drop 8

theorem decrypt_invalid (b3 : Blake3) (ob : Obfuscator) (buf : Bytes)
    (h : ¬ob.Verifies b3 buf) : ob.decryptOutcome b3 buf = (.invalid,ob) := by
  unfold Verifies at h
  unfold decryptOutcome
  by_cases hl : buf.length < saltLen+tagLen+8
  · rw [if_pos hl]
  · rw [if_neg hl, if_pos (fun ht => h ⟨by omega,ht⟩)]

theorem decrypt_stale (b3 : Blake3) (ob : Obfuscator) (buf : Bytes) (h : ob.Verifies b3 buf)
    (hs : ob.recv.Stale (ob.seqOf b3 buf)) : ob.decryptOutcome b3 buf = (.replay,ob) := by
  have ho := ReplayFilter.observe_stale ob.recv (ob.seqOf b3 buf) hs
  unfold seqOf plainOf at ho
  unfold decryptOutcome
  rw [if_neg (by have := h.1; omega), if_neg (not_not.mpr h.2)]
  simp only [ho, Bool.not_false, if_true]

theorem decrypt_fresh (b3 : Blake3) (ob : Obfuscator) (buf : Bytes) (h : ob.Verifies b3 buf)
    (hs : ¬ob.recv.Stale (ob.seqOf b3 buf)) :
    ob.decryptOutcome b3 buf = (.ok (ob.payloadOf b3 buf),
      { ob with recv := (ob.recv.observe (ob.seqOf b3 buf)).2 }) := by
  have ho := ReplayFilter.observe_fresh ob.recv (ob.seqOf b3 buf) hs
  unfold decryptOutcome
  rw [if_neg (by have := h.1; omega), if_neg (not_not.mpr h.2)]
  unfold seqOf plainOf at ho
  simp only [ho, Bool.not_true, Bool.false_eq_true, if_false]
  unfold seqOf plainOf
  rw [ho]
  rfl

@[simp] theorem xorInPlace_length (b3 : Blake3) (ob : Obfuscator) (buf salt : Bytes) :
    (ob.xorInPlace b3 buf salt).length = buf.length := by
  simp [xorInPlace]

/-- Masking twice with one salt gives the buffer back. -/
theorem xorInPlace_involutive (b3 : Blake3) (ob : Obfuscator) (buf salt : Bytes) :
    ob.xorInPlace b3 (ob.xorInPlace b3 buf salt) salt = buf := by
  apply List.ext_getElem (by simp)
  intro i h1 h2
  simp [xorInPlace]

@[simp] theorem tag_length (b3 : Blake3) (ob : Obfuscator) (body : Bytes) :
    (ob.tag b3 body).length = tagLen := by
  simp [tag, tagLen]

def sealed (b3 : Blake3) (ob : Obfuscator) (seq : ℕ) (salt : Salt) (payload : Bytes) : Bytes :=
  let body := ob.xorInPlace b3 (toBytes 8 seq ++ payload) salt.toList
  salt.toList ++ body ++ ob.tag b3 body

theorem encrypt_eq (b3 : Blake3) (ob : Obfuscator) (salt : Salt) (buf : Bytes) :
    ob.encrypt b3 salt buf =
      (ob.sealed b3 ob.sendSeq salt buf,{ ob with sendSeq := (ob.sendSeq+1)%2^64 }) := rfl

section Fields

variable (b3 : Blake3) (ob : Obfuscator) (seq : ℕ) (salt : Salt) (payload : Bytes)

theorem sealed_length :
    (ob.sealed b3 seq salt payload).length = saltLen+(8+payload.length)+tagLen := by
  simp [sealed, add_assoc]

theorem sealed_salt : saltOf (ob.sealed b3 seq salt payload) = salt.toList := by
  rw [saltOf, sealed, List.append_assoc, List.take_left' salt.toList_length]

theorem sealed_rest : (ob.sealed b3 seq salt payload).drop saltLen =
    ob.xorInPlace b3 (toBytes 8 seq++payload) salt.toList ++
      ob.tag b3 (ob.xorInPlace b3 (toBytes 8 seq++payload) salt.toList) := by
  rw [sealed, List.append_assoc, List.drop_left' salt.toList_length]

theorem sealed_body : bodyOf (ob.sealed b3 seq salt payload) =
    ob.xorInPlace b3 (toBytes 8 seq++payload) salt.toList := by
  simp only [bodyOf, sealed_rest]
  exact List.take_left' (by simp)

theorem sealed_tag : tagOf (ob.sealed b3 seq salt payload) =
    ob.tag b3 (ob.xorInPlace b3 (toBytes 8 seq++payload) salt.toList) := by
  simp only [tagOf, sealed_rest]
  exact List.drop_left' (by simp)

theorem sealed_verifies : ob.Verifies b3 (ob.sealed b3 seq salt payload) := by
  refine ⟨?_,by rw [sealed_body, sealed_tag]⟩
  rw [sealed_length]
  omega

theorem sealed_plain : ob.plainOf b3 (ob.sealed b3 seq salt payload) = toBytes 8 seq++payload := by
  rw [plainOf, sealed_body, sealed_salt, xorInPlace_involutive]

theorem sealed_seq : ob.seqOf b3 (ob.sealed b3 seq salt payload) = seq%2^64 := by
  rw [seqOf, sealed_plain, List.take_left' (toBytes_length 8 seq), ofBytes_toBytes]
  norm_num

theorem sealed_payload : ob.payloadOf b3 (ob.sealed b3 seq salt payload) = payload := by
  rw [payloadOf, sealed_plain, List.drop_left' (toBytes_length 8 seq)]

end Fields

def SameKey (a b : Obfuscator) : Prop := a.key = b.key ∧ a.key32 = b.key32

section Shared

variable {b3 : Blake3} {a b : Obfuscator}

theorem sealed_congr (h : SameKey a b) (seq : ℕ) (salt : Salt) (payload : Bytes) :
    a.sealed b3 seq salt payload = b.sealed b3 seq salt payload := by
  simp only [sealed, xorInPlace, keyStream, tag, h.1, h.2]

theorem verifies_congr (h : SameKey a b) (buf : Bytes) : a.Verifies b3 buf ↔ b.Verifies b3 buf := by
  simp only [Verifies, tag, h.2]

theorem seqOf_congr (h : SameKey a b) (buf : Bytes) : a.seqOf b3 buf = b.seqOf b3 buf := by
  simp only [seqOf, plainOf, xorInPlace, keyStream, h.1]

theorem payloadOf_congr (h : SameKey a b) (buf : Bytes) :
    a.payloadOf b3 buf = b.payloadOf b3 buf := by
  simp only [payloadOf, plainOf, xorInPlace, keyStream, h.1]

end Shared

theorem decrypt_key (b3 : Blake3) (ob : Obfuscator) (buf : Bytes) :
    SameKey (ob.decryptOutcome b3 buf).2 ob := by
  by_cases h : ob.Verifies b3 buf
  · by_cases hs : ob.recv.Stale (ob.seqOf b3 buf)
    · rw [decrypt_stale b3 ob buf h hs]; exact ⟨rfl,rfl⟩
    · rw [decrypt_fresh b3 ob buf h hs]; exact ⟨rfl,rfl⟩
  · rw [decrypt_invalid b3 ob buf h]; exact ⟨rfl,rfl⟩

/-- Only a verifying message with a fresh number is accepted. -/
theorem decrypt_ok_iff (b3 : Blake3) (ob : Obfuscator) (buf p : Bytes) :
    (ob.decryptOutcome b3 buf).1 = .ok p ↔
      ob.Verifies b3 buf ∧ ¬ob.recv.Stale (ob.seqOf b3 buf) ∧ ob.payloadOf b3 buf = p := by
  by_cases h : ob.Verifies b3 buf
  · by_cases hs : ob.recv.Stale (ob.seqOf b3 buf)
    · simp [decrypt_stale b3 ob buf h hs, hs]
    · simp [decrypt_fresh b3 ob buf h hs, h, hs]
  · simp [decrypt_invalid b3 ob buf h, h]

end Obfuscator
end Hydr
