import Mathlib
import Hydr.Library.Chunks
import Hydr.AnnouncedLength
import Hydr.WireFormat

/-!
# Messages on a QUIC stream

The stream hands out its bytes in pieces of any size. The readers take what they
ask for and no more, so that messages written one after another come back one
after another, and the bytes behind them are left for whoever reads on.
-/

set_option autoImplicit false

namespace Hydr.Quic
open Message Varint

abbrev RecvStream : Type := List Bytes

namespace RecvStream

def readExact (n : ℕ) (recv : RecvStream) : Result (Bytes × RecvStream) :=
  match Chunks.readExact n recv with
  | some r => .ok r
  | none => .error .io

def readMore (len : ℕ) (recv : RecvStream) : Result (Bytes × RecvStream) :=
  if 1 < len then readExact (len-1) recv else .ok ([],recv)

def readVarint (recv : RecvStream) : Result (ℕ × RecvStream) := do
  let (head,recv) ← readExact 1 recv
  let first := head.getD 0 0
  let (more,recv) ← readMore (1 <<< (first >>> 6).toNat) recv
  let (v,_) ← decodeVarint (first::more)
  return (v,recv)

def readMessage {T : Type} (decode : Bytes → Result (T × ℕ)) (recv : RecvStream) :
    Result (T × RecvStream) := do
  let (len,recv) ← readVarint recv
  let (buf,recv) ← readExact len recv
  let (msg,_) ← decode buf
  return (msg,recv)

def joined {T : Type} (r : Result (T × RecvStream)) : Result (T × Bytes) :=
  r.map fun p => (p.1,p.2.flatten)

theorem joined_bind {S T : Type} (x : Result (S × RecvStream))
    (f : S × RecvStream → Result (T × RecvStream)) (g : S × Bytes → Result (T × Bytes))
    (h : ∀ p, joined (f p) = g (p.1,p.2.flatten)) : joined (x >>= f) = joined x >>= g := by
  cases x with
  | error e => rfl
  | ok p => exact h p

theorem joined_ok {T : Type} {r : Result (T × RecvStream)} {v : T} {rest : Bytes} :
    joined r = .ok (v,rest) ↔ ∃ recv, r = .ok (v,recv) ∧ recv.flatten = rest := by
  cases r with
  | error e => simp [joined, Except.map]
  | ok p =>
    obtain ⟨w,recv⟩ := p
    simp [joined, Except.map]

theorem joined_error {T : Type} {r : Result (T × RecvStream)} {e : Error} :
    joined r = .error e ↔ r = .error e := by
  cases r <;> simp [joined, Except.map]

theorem joined_readExact (n : ℕ) (recv : RecvStream) :
    joined (readExact n recv) = Quic.readExact n recv.flatten := by
  have hc := Chunks.readExact_flatten n recv
  by_cases hn : n ≤ recv.flatten.length
  · rw [if_pos hn] at hc
    obtain ⟨r,hr,he⟩ := Option.map_eq_some_iff.mp hc
    rw [readExact, hr, Quic.readExact, if_neg (not_lt_of_ge hn), ← he]
    rfl
  · rw [if_neg hn] at hc
    rw [readExact, Option.map_eq_none_iff.mp hc, Quic.readExact, if_pos (not_le.mp hn)]
    rfl

theorem joined_readMore (len : ℕ) (recv : RecvStream) :
    joined (readMore len recv) = Quic.readExact (len-1) recv.flatten := by
  by_cases hl : 1 < len
  · rw [readMore, if_pos hl, joined_readExact]
  · rw [readMore, if_neg hl, show len-1 = 0 by omega]
    rfl

theorem joined_readVarint (recv : RecvStream) :
    joined (readVarint recv) = Quic.readVarint recv.flatten := by
  have hhead := joined_readExact 1 recv
  cases hf : recv.flatten with
  | nil =>
    rw [hf] at hhead
    rw [readVarint, joined_error.mp hhead]
    rfl
  | cons first tail =>
    rw [hf] at hhead
    obtain ⟨rest,hr,rfl⟩ := joined_ok.mp
      (hhead.trans (show Quic.readExact 1 (first::tail) = .ok ([first],tail) by simp [Quic.readExact]))
    rw [readVarint, hr]
    show joined (readMore (1 <<< (first >>> 6).toNat) rest >>= _) =
      Quic.readExact (1 <<< (first >>> 6).toNat-1) rest.flatten >>= _
    rw [← joined_readMore]
    apply joined_bind
    rintro ⟨more,rest⟩
    show joined (decodeVarint (first::more) >>= _) = decodeVarint (first::more) >>= _
    cases decodeVarint (first::more) <;> rfl

theorem joined_readMessage {T : Type} (decode : Bytes → Result (T × ℕ)) (recv : RecvStream) :
    joined (readMessage decode recv) = Quic.readMessage decode recv.flatten := by
  rw [readMessage, Quic.readMessage, ← joined_readVarint]
  apply joined_bind
  rintro ⟨len,recv⟩
  dsimp only
  rw [← joined_readExact]
  apply joined_bind
  rintro ⟨buf,recv⟩
  dsimp only
  cases decode buf <;> rfl

/-- Reading the varint off the stream finds the value that the slice decoder finds
in all of it, and takes the bytes that it says. -/
theorem readVarint_iff (recv : RecvStream) (v : ℕ) (rest : Bytes) :
    (∃ recv', readVarint recv = .ok (v,recv') ∧ recv'.flatten = rest) ↔
      ∃ n, decodeVarint recv.flatten = .ok (v,n) ∧ n ≤ recv.flatten.length ∧
        rest = recv.flatten.drop n := by
  rw [← joined_ok, joined_readVarint]
  constructor
  · intro h
    rcases announced_or_not recv.flatten with ⟨len,used,ha⟩ | hn
    · rw [readVarint_announced ha] at h
      obtain ⟨rfl,rfl⟩ := Prod.mk.inj (Except.ok.inj h)
      exact ⟨used,ha,announces_used_le ha,rfl⟩
    · rw [readVarint_unannounced hn] at h
      cases h
  · rintro ⟨n,hd,-,rfl⟩
    exact readVarint_announced hd

end RecvStream

inductive ControlMessage where
  | authRequest (m : AuthRequest)
  | authResponse (m : AuthResponse)
  | openStream (m : OpenStream)
  | openStreamAck (m : OpenStreamAck)

inductive MessageKind where
  | authRequest
  | authResponse
  | openStream
  | openStreamAck

namespace ControlMessage

def kind : ControlMessage → MessageKind
  | .authRequest _ => .authRequest
  | .authResponse _ => .authResponse
  | .openStream _ => .openStream
  | .openStreamAck _ => .openStreamAck

def encode : ControlMessage → Bytes
  | .authRequest m => m.encode
  | .authResponse m => m.encode
  | .openStream m => m.encode
  | .openStreamAck m => m.encode

def Fits (m : ControlMessage) : Prop :=
  m.encode.length < 2^62 ∧
    match m with
    | .authRequest m => m.version < 2^62 ∧ m.ccRx < 2^62
    | .authResponse m => m.serverCcRx < 2^62
    | .openStream m => m.address.Text
    | .openStreamAck _ => True

end ControlMessage

def MessageKind.read (recv : RecvStream) : MessageKind → Result (ControlMessage × RecvStream)
  | .authRequest => (RecvStream.readMessage AuthRequest.decode recv).map fun p => (.authRequest p.1,p.2)
  | .authResponse =>
    (RecvStream.readMessage AuthResponse.decode recv).map fun p => (.authResponse p.1,p.2)
  | .openStream => (RecvStream.readMessage OpenStream.decode recv).map fun p => (.openStream p.1,p.2)
  | .openStreamAck =>
    (RecvStream.readMessage OpenStreamAck.decode recv).map fun p => (.openStreamAck p.1,p.2)

def readAll : List MessageKind → RecvStream → Result (List ControlMessage × RecvStream)
  | [], recv => .ok ([],recv)
  | k::ks, recv => do
    let (m,recv) ← k.read recv
    let (ms,recv) ← readAll ks recv
    return (m::ms,recv)

def written (ms : List ControlMessage) : Bytes := ms.flatMap fun m => writeLenPrefixed m.encode

theorem readMessage_written {T : Type} (decode : Bytes → Result (T × ℕ)) (m : T)
    (wrap : T → ControlMessage) (buf rest : Bytes) (recv : RecvStream) (hl : buf.length < 2^62)
    (hd : decode buf = .ok (m,buf.length)) (hr : recv.flatten = writeLenPrefixed buf++rest) :
    ∃ recv', (RecvStream.readMessage decode recv).map (fun p => (wrap p.1,p.2)) =
      .ok (wrap m,recv') ∧ recv'.flatten = rest := by
  have hj := RecvStream.joined_readMessage decode recv
  rw [hr, readMessage_write decode buf rest m _ hl hd] at hj
  obtain ⟨recv',hm,hf⟩ := RecvStream.joined_ok.mp hj
  exact ⟨recv',by rw [hm]; rfl,hf⟩

theorem read_written (m : ControlMessage) (h : m.Fits) (rest : Bytes) (recv : RecvStream)
    (hr : recv.flatten = writeLenPrefixed m.encode++rest) :
    ∃ recv', m.kind.read recv = .ok (m,recv') ∧ recv'.flatten = rest := by
  obtain ⟨hl,hv⟩ := h
  cases m with
  | authRequest m =>
    have he : m.Encodable := by
      have hl : m.encode.length < 2^62 := hl
      simp only [AuthRequest.encode, List.length_append] at hl
      exact ⟨by omega,by omega,by omega⟩
    have hd := m.decode_encode [] he
    rw [List.append_nil, AuthRequest.received, Nat.mod_eq_of_lt hv.1, Nat.mod_eq_of_lt hv.2] at hd
    exact readMessage_written _ m .authRequest m.encode rest recv hl hd hr
  | authResponse m =>
    have he : m.Encodable := by
      have hl : m.encode.length < 2^62 := hl
      simp only [AuthResponse.encode, List.length_append] at hl
      exact ⟨by omega,by omega⟩
    have hd := m.decode_encode [] he
    rw [List.append_nil, AuthResponse.received, Nat.mod_eq_of_lt hv] at hd
    exact readMessage_written _ m .authResponse m.encode rest recv hl hd hr
  | openStream m =>
    have he : m.address.Encodable := Address.encodable_of_length m.address hl
    have hd := m.decode_encode [] he
    rw [List.append_nil, Address.received_text _ hv] at hd
    exact readMessage_written _ m .openStream m.encode rest recv hl hd hr
  | openStreamAck m =>
    have he : m.message.length < 2^62 := by
      have hl : m.encode.length < 2^62 := hl
      simp only [OpenStreamAck.encode, List.length_append] at hl
      omega
    have hd := m.decode_encode [] he
    rw [List.append_nil] at hd
    exact readMessage_written _ m .openStreamAck m.encode rest recv hl hd hr

/-- Any messages come back in order, in whatever pieces the stream arrives, and
what was written behind them is left. -/
theorem readAll_written (ms : List ControlMessage) (h : ∀ m ∈ ms, m.Fits) (raw : Bytes)
    (recv : RecvStream) (hr : recv.flatten = written ms++raw) :
    ∃ recv', readAll (ms.map ControlMessage.kind) recv = .ok (ms,recv') ∧ recv'.flatten = raw := by
  induction ms generalizing recv with
  | nil => exact ⟨recv,rfl,hr⟩
  | cons m ms ih =>
    obtain ⟨hm,h⟩ := List.forall_mem_cons.mp h
    rw [written, List.flatMap_cons, List.append_assoc] at hr
    obtain ⟨recv',hread,hf⟩ := read_written m hm _ recv hr
    obtain ⟨recv'',hall,hraw⟩ := ih h recv' hf
    refine ⟨recv'',?_,hraw⟩
    rw [List.map_cons, readAll, hread]
    show (readAll (ms.map ControlMessage.kind) recv' >>= _) = _
    rw [hall]
    rfl

/-- Whatever the messages, the bytes behind them and the pieces in which the stream
arrives: the readers give the messages back in order and leave the bytes. Their
varint reader agrees with the slice decoder on every stream. -/
theorem framing_exact (ms : List ControlMessage) (h : ∀ m ∈ ms, m.Fits) (raw : Bytes)
    (recv : RecvStream) (hr : recv.flatten = written ms++raw) :
    (∃ recv', readAll (ms.map ControlMessage.kind) recv = .ok (ms,recv') ∧ recv'.flatten = raw) ∧
    ∀ (recv : RecvStream) (v : ℕ) (rest : Bytes),
      (∃ recv', RecvStream.readVarint recv = .ok (v,recv') ∧ recv'.flatten = rest) ↔
        ∃ n, decodeVarint recv.flatten = .ok (v,n) ∧ n ≤ recv.flatten.length ∧
          rest = recv.flatten.drop n :=
  ⟨readAll_written ms h raw recv hr,RecvStream.readVarint_iff⟩

def opening : List ControlMessage :=
  [.openStream ⟨.domain (Address.utf8 ['a','é']) 80⟩,.openStreamAck .ok]

theorem opening_framed : ∃ recv', readAll [.openStream,.openStreamAck]
    ((written opening++[7,8]).map fun b => [b]) = .ok (opening,recv') ∧ recv'.flatten = [7,8] :=
  (framing_exact opening
    (by
      rintro m (_ | ⟨_,_ | ⟨_,h⟩⟩)
      · exact ⟨by decide,['a','é'],rfl⟩
      · exact ⟨by decide,trivial⟩
      · cases h)
    [7,8] _ (by decide)).1

end Hydr.Quic
