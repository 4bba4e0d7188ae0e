import Mathlib
import Hydr.Frame
import Hydr.QuicHandshake

/-!
# Announced lengths

A message over QUIC and a frame over WebSocket carry the same length field
before the same body. The frame decoder bounds what the field may say before it
looks at the body; the QUIC reader sets up a buffer of whatever length the peer
announces, before the peer is known.
-/

set_option autoImplicit false

namespace Hydr.Quic
open Varint

def readMessageBuffers {T : Type} (decode : Bytes → Result (T × ℕ)) (recv : Bytes) :
    List ℕ × Result (T × Bytes) :=
  match readVarint recv with
  | .error e => ([],.error e)
  | .ok (len,recv) => ([len],do
    let (buf,recv) ← readExact len recv
    let (msg,_) ← decode buf
    return (msg,recv))

def frameMessage {T : Type} (decode : Bytes → Result (T × ℕ)) (buf : Bytes) : Result T := do
  let (frame,_) ← Frame.decode buf
  let (msg,_) ← decode frame.body
  return msg

def behindHeader (streamId : ℕ) (frameType : UInt8) (recv : Bytes) : Bytes :=
  encodeVarint streamId++frameType::recv

/-- The buffer is set up after the length is read and before the body is. -/
theorem readMessageBuffers_eq {T : Type} (decode : Bytes → Result (T × ℕ)) (recv : Bytes) :
    (readMessageBuffers decode recv).2 = readMessage decode recv := by
  simp only [readMessageBuffers, readMessage, bind, Except.bind]
  cases readVarint recv <;> rfl

def Bounded (recv : Bytes) : Prop :=
  ∀ (T : Type) (decode : Bytes → Result (T × ℕ)), ∀ len ∈ (readMessageBuffers decode recv).1,
    len ≤ Frame.maxBodyLen

def FramingsAgree (recv : Bytes) : Prop :=
  ∀ (T : Type) (decode : Bytes → Result (T × ℕ)) (streamId : ℕ) (frameType : UInt8) (msg : T),
    (∃ rest, readMessage decode recv = .ok (msg,rest)) ↔
      frameMessage decode (behindHeader streamId frameType recv) = .ok msg

def Announces (recv : Bytes) (len used : ℕ) : Prop := decodeVarint recv = .ok (len,used)

def Modest (recv : Bytes) : Prop := ∀ len used, Announces recv len used → len ≤ Frame.maxBodyLen

def CutShort (recv : Bytes) : Prop :=
  ∀ len used, Announces recv len used → recv.length < used+len

theorem announces_used_le {recv : Bytes} {len used : ℕ} (h : Announces recv len used) :
    used ≤ recv.length := by
  unfold Announces at h
  cases recv with
  | nil => cases h
  | cons first rest =>
    simp only [decodeVarint] at h
    split_ifs at h with hs
    have hu := congrArg Prod.snd (Except.ok.inj h)
    simp only at hu
    omega

/-- Reading byte by byte finds the varint that the buffer decoder finds. -/
theorem readVarint_announced {recv : Bytes} {len used : ℕ} (h : Announces recv len used) :
    readVarint recv = .ok (len,recv.drop used) := by
  unfold Announces at h
  cases recv with
  | nil => cases h
  | cons first rest =>
    simp only [decodeVarint] at h
    split_ifs at h with hs
    obtain ⟨hv,hu⟩ := Prod.ext_iff.mp (Except.ok.inj h)
    simp only at hv hu
    have hp : 0 < used := by rw [← hu, Nat.one_shiftLeft]; positivity
    have hl : used-1 ≤ rest.length := by
      rw [hu, List.length_cons] at hs
      omega
    have hd : decodeVarint (first::rest.take (used-1)) = .ok (len,used) := by
      simp only [decodeVarint, hu, List.length_cons, List.length_take, List.take_take, min_self]
      rw [if_neg (by omega), ← hv, hu]
    have hc : (first::rest).drop used = rest.drop (used-1) := by
      rw [← Nat.sub_add_cancel hp]
      rfl
    rw [hc]
    simp only [readVarint, hu, readExact, if_neg (show ¬rest.length < used-1 by omega), bind,
      Except.bind, hd, pure, Except.pure]

theorem readVarint_unannounced {recv : Bytes} (h : ∀ len used, ¬Announces recv len used) :
    readVarint recv = .error .io := by
  cases recv with
  | nil => rfl
  | cons first rest =>
    have hs : rest.length < (1 <<< (first >>> 6).toNat)-1 := by
      by_contra hs
      have hp : 0 < 1 <<< (first >>> 6).toNat := by rw [Nat.one_shiftLeft]; positivity
      have hd : decodeVarint (first::rest) = .ok (_,1 <<< (first >>> 6).toNat) :=
        if_neg (by rw [List.length_cons]; omega)
      exact h _ _ hd
    simp only [readVarint, readExact, if_pos hs, bind, Except.bind]

section Framings

variable {T : Type} (decode : Bytes → Result (T × ℕ)) {recv : Bytes} {len used : ℕ}

theorem buffers_announced (h : Announces recv len used) :
    (readMessageBuffers decode recv).1 = [len] := by
  rw [readMessageBuffers, readVarint_announced h]

theorem buffers_unannounced (h : ∀ len used, ¬Announces recv len used) :
    (readMessageBuffers decode recv).1 = [] := by
  rw [readMessageBuffers, readVarint_unannounced h]

/-- Over QUIC a message is read when its body is there and decodes. -/
theorem readMessage_announced (h : Announces recv len used) (msg : T) :
    (∃ rest, readMessage decode recv = .ok (msg,rest)) ↔
      used+len ≤ recv.length ∧ ∃ n, decode ((recv.drop used).take len) = .ok (msg,n) := by
  have hu := announces_used_le h
  simp only [readMessage, readVarint_announced h, readExact, List.length_drop, bind, Except.bind]
  by_cases hl : recv.length-used < len
  · rw [if_pos hl]
    constructor
    · rintro ⟨rest,hr⟩
      cases hr
    · rintro ⟨hle,-⟩
      omega
  · rw [if_neg hl]
    have hle : used+len ≤ recv.length := by omega
    cases hd : decode ((recv.drop used).take len) with
    | error e => simp [hd]
    | ok p => simp [hd, pure, Except.pure, Prod.ext_iff, hle]

theorem readMessage_unannounced (h : ∀ len used, ¬Announces recv len used) :
    readMessage decode recv = .error .io := by
  simp only [readMessage, readVarint_unannounced h, bind, Except.bind]

variable (streamId : ℕ) (frameType : UInt8)

theorem decode_behindHeader (recv : Bytes) :
    Frame.decode (behindHeader streamId frameType recv) = (do
      let (bodyLen,used) ← decodeVarint recv
      if Frame.maxBodyLen < bodyLen then .error (.invalidData "frame body too large")
      else if recv.length < used+bodyLen then .error .unexpectedEof
      else .ok (⟨streamId%2^62,frameType,(recv.drop used).take bodyLen⟩,
        encodeVarintLen streamId+1+used+bodyLen)) := by
  have hv := Varint.decode_encode streamId (frameType::recv)
  have ht : (behindHeader streamId frameType recv)[encodeVarintLen streamId]? = some frameType := by
    simp [behindHeader, ← encodeVarint_length]
  have hr : (behindHeader streamId frameType recv).drop (encodeVarintLen streamId+1) = recv := by
    rw [← encodeVarint_length, ← List.drop_drop, behindHeader, List.drop_left]
    rfl
  have hl : (behindHeader streamId frameType recv).length =
      encodeVarintLen streamId+1+recv.length := by
    simp [behindHeader]
    omega
  simp only [Frame.decode, bind, Except.bind, hl]
  rw [show decodeVarint (behindHeader streamId frameType recv) = _ from hv]
  simp only [ht, hr]
  cases decodeVarint recv with
  | error e => rfl
  | ok p =>
    have hb : (behindHeader streamId frameType recv).drop (encodeVarintLen streamId+1+p.2) =
        recv.drop p.2 := by
      rw [← List.drop_drop, hr]
    simp only [hb]
    simp only [add_assoc, Nat.add_lt_add_iff_left]

/-- Over WebSocket the announced length must be within the limit as well. -/
theorem frameMessage_announced (h : Announces recv len used) (msg : T) :
    frameMessage decode (behindHeader streamId frameType recv) = .ok msg ↔
      len ≤ Frame.maxBodyLen ∧ used+len ≤ recv.length ∧
        ∃ n, decode ((recv.drop used).take len) = .ok (msg,n) := by
  have hd : decodeVarint recv = .ok (len,used) := h
  simp only [frameMessage, decode_behindHeader, hd, bind, Except.bind]
  by_cases hm : Frame.maxBodyLen < len
  · simp [if_pos hm, not_le_of_gt hm]
  · by_cases hl : recv.length < used+len
    · simp [if_neg hm, if_pos hl, not_le_of_gt hl]
    · simp only [if_neg hm, if_neg hl, le_of_not_gt hm, le_of_not_gt hl, true_and]
      cases hb : decode ((recv.drop used).take len) with
      | error e => simp
      | ok p => simp [pure, Except.pure, Prod.ext_iff]

theorem frameMessage_unannounced (h : ∀ len used, ¬Announces recv len used) (msg : T) :
    frameMessage decode (behindHeader streamId frameType recv) ≠ .ok msg := by
  simp only [frameMessage, decode_behindHeader]
  cases hd : decodeVarint recv with
  | error e => simp [bind, Except.bind]
  | ok p => exact absurd hd (h p.1 p.2)

end Framings

theorem announced_or_not (recv : Bytes) :
    (∃ len used, Announces recv len used) ∨ ∀ len used, ¬Announces recv len used := by
  by_cases h : ∃ len used, Announces recv len used
  · exact Or.inl h
  · exact Or.inr fun len used hl => h ⟨len,used,hl⟩

theorem announces_unique {recv : Bytes} {len used len' used' : ℕ} (h : Announces recv len used)
    (h' : Announces recv len' used') : len' = len ∧ used' = used := by
  have he : decodeVarint recv = .ok (len',used') := h'
  rw [show decodeVarint recv = .ok (len,used) from h] at he
  exact Prod.ext_iff.mp (Except.ok.inj he.symm)

theorem modest_of_announces {recv : Bytes} {len used : ℕ} (h : Announces recv len used) :
    Modest recv ↔ len ≤ Frame.maxBodyLen := by
  constructor
  · intro hm
    exact hm len used h
  · intro hl len' used' h'
    rw [(announces_unique h h').1]
    exact hl

theorem cutShort_of_announces {recv : Bytes} {len used : ℕ} (h : Announces recv len used) :
    CutShort recv ↔ recv.length < used+len := by
  constructor
  · intro hc
    exact hc len used h
  · intro hl len' used' h'
    rw [(announces_unique h h').1, (announces_unique h h').2]
    exact hl

theorem bounded_iff (recv : Bytes) : Bounded recv ↔ Modest recv := by
  rcases announced_or_not recv with ⟨len,used,h⟩ | h
  · rw [modest_of_announces h]
    simp only [Bounded, buffers_announced _ h, List.mem_singleton, forall_eq]
    constructor
    · intro hb
      exact hb ℕ (fun _ => .error .io)
    · intro hl T decode
      exact hl
  · constructor
    · intro hb len used hl
      exact absurd hl (h len used)
    · intro hm T decode len hl
      rw [buffers_unannounced decode h] at hl
      cases hl

/-- The framings part on the messages that are there and too long. -/
theorem framingsAgree_iff (recv : Bytes) : FramingsAgree recv ↔ Modest recv ∨ CutShort recv := by
  rcases announced_or_not recv with ⟨len,used,h⟩ | h
  · rw [modest_of_announces h, cutShort_of_announces h]
    simp only [FramingsAgree, readMessage_announced _ h, frameMessage_announced _ _ _ h]
    constructor
    · intro ha
      by_cases hl : used+len ≤ recv.length
      · have hw := (ha ℕ (fun _ => .ok (0,0)) 0 0 0).mp ⟨hl,0,rfl⟩
        exact Or.inl hw.1
      · exact Or.inr (not_le.mp hl)
    · rintro (hm | hc) T decode streamId frameType msg
      · exact ⟨fun hr => ⟨hm,hr⟩,fun hr => hr.2⟩
      · exact iff_of_false (fun hr => by omega) (fun hr => by omega)
  · refine iff_of_true ?_ (Or.inl fun len used hl => absurd hl (h len used))
    intro T decode streamId frameType msg
    refine iff_of_false ?_ (frameMessage_unannounced decode streamId frameType h msg)
    rintro ⟨rest,hr⟩
    rw [readMessage_unannounced decode h] at hr
    cases hr

/-- The reader's buffer is bounded, and the framings accept and reject together,
exactly for the streams that announce no more than a frame may carry. -/
theorem announced_length_iff (recv : Bytes) :
    (Bounded recv ∧ FramingsAgree recv ↔ Modest recv) ∧
      (FramingsAgree recv ↔ Modest recv ∨ CutShort recv) := by
  refine ⟨?_,framingsAgree_iff recv⟩
  rw [bounded_iff, framingsAgree_iff]
  exact ⟨And.left,fun hm => ⟨hm,Or.inl hm⟩⟩

/-- Eight bytes make the reader set up a buffer of `2 ^ 62 - 1`. -/
theorem eight_bytes_announce_all :
    ¬∀ recv : Bytes, Bounded recv ∧ FramingsAgree recv := by
  intro h
  have ha : Announces (List.replicate 8 0xff) (2^62-1) 8 := rfl
  have hm := (bounded_iff _).mp (h (List.replicate 8 0xff)).1 _ _ ha
  exact absurd hm (by decide)

end Hydr.Quic
