import Mathlib
import Hydr.Frame
import Hydr.Utf8

/-!
# Round trips of the wire format

Every message is read back as it was written, with its own length, whatever
follows it; its varint fields come back modulo `2 ^ 62`. A datagram takes the
rest of its buffer as payload, and a frame with a large body never comes back.
-/

set_option autoImplicit false

namespace Hydr
open Message BigEndian

def RoundTrips {α : Type} (encode : α → Bytes) (decode : Bytes → Result (α × ℕ))
    (m received : α) : Prop :=
  ∀ rest, decode (encode m++rest) = .ok (received,(encode m).length)

namespace Address

def Text : Address → Prop
  | .ip _ _ => True
  | .domain host _ => ∃ text, host = utf8 text

theorem received_text (addr : Address) (h : addr.Text) : addr.received = addr := by
  match addr with
  | .ip _ _ => rfl
  | .domain host port =>
    obtain ⟨text,rfl⟩ := h
    rw [received, fromUtf8Lossy_utf8]

theorem encode_domain_length (host : Bytes) (port : UInt16) :
    (Address.domain host port).encode.length = Varint.encodeVarintLen host.length+host.length+3 := by
  simp only [encode, List.cons_append, List.length_cons, List.length_append, Varint.encodeVarint_length,
    portBytes_length]

theorem encodable_of_length (a : Address) (h : a.encode.length < 2^62) : a.Encodable := by
  match a with
  | .ip _ _ => trivial
  | .domain host port =>
    rw [encode_domain_length] at h
    change host.length < 2^62
    omega

end Address

namespace Message

theorem OpenStream.decode_encode (m : OpenStream) (rest : Bytes) (h : m.address.Encodable) :
    OpenStream.decode (m.encode++rest) = .ok (⟨m.address.received⟩,m.encode.length) := by
  simp only [OpenStream.decode, OpenStream.encode, Address.decode_encode _ _ h, bind, Except.bind,
    pure, Except.pure]

namespace Datagram

def header (d : Datagram) : Bytes :=
  toBytes 4 d.sessionId.toNat ++ toBytes 2 d.packetId.toNat ++ [d.fragId, d.fragCount]

theorem header_length (d : Datagram) : d.header.length = 8 := by simp [header]

theorem encode_eq (d : Datagram) : d.encode = d.header++(d.address.encode++d.payload) := by
  simp [encode, header]

theorem encode_length (d : Datagram) :
    d.encode.length = 8+d.address.encode.length+d.payload.length := by
  rw [encode_eq, List.length_append, List.length_append, header_length]
  omega

theorem decode_encode (d : Datagram) (h : d.address.Encodable) :
    decode d.encode = .ok ({ d with address := d.address.received },d.encode.length) := by
  have hd : d.encode.drop 8 = d.address.encode++d.payload := by
    rw [encode_eq]
    exact List.drop_left' d.header_length
  have hs : d.encode.take 4 = toBytes 4 d.sessionId.toNat := by
    rw [encode_eq, header, List.append_assoc, List.append_assoc]
    exact List.take_left' (toBytes_length _ _)
  have hp : (d.encode.drop 4).take 2 = toBytes 2 d.packetId.toNat := by
    rw [encode_eq, header, List.append_assoc, List.append_assoc,
      List.drop_left' (toBytes_length _ _)]
    exact List.take_left' (toBytes_length _ _)
  have hf : d.encode.getD 6 0 = d.fragId ∧ d.encode.getD 7 0 = d.fragCount := by
    simp [encode_eq, header, toBytes]
  have h4 : UInt32.ofNat (ofBytes (toBytes 4 d.sessionId.toNat)) = d.sessionId := by
    have hb : d.sessionId.toNat < 256^4 := d.sessionId.toNat_lt
    rw [ofBytes_toBytes, Nat.mod_eq_of_lt hb, UInt32.ofNat_toNat]
  have h2 : UInt16.ofNat (ofBytes (toBytes 2 d.packetId.toNat)) = d.packetId := by
    have hb : d.packetId.toNat < 256^2 := d.packetId.toNat_lt
    rw [ofBytes_toBytes, Nat.mod_eq_of_lt hb, UInt16.ofNat_toNat]
  have hl : d.encode.drop (8+d.address.encode.length) = d.payload := by
    rw [← List.drop_drop, hd, List.drop_left]
  rw [decode, if_neg (by rw [encode_length]; omega)]
  simp only [hd, Address.decode_encode _ _ h, bind, Except.bind, pure, Except.pure, hs, hp, hf.1,
    hf.2, h4, h2, hl]

end Datagram
end Message

/-- Every message whose byte vectors are shorter than `2 ^ 62` and whose domains
are texts comes back with its varint fields reduced, and so as it was when they
fit; a frame does if its body is within the limit, and is refused if not. -/
theorem wire_round_trip :
    (∀ a : AuthRequest, a.Encodable →
      RoundTrips AuthRequest.encode AuthRequest.decode a
        { a with version := a.version%2^62, ccRx := a.ccRx%2^62 } ∧
      (a.version < 2^62 → a.ccRx < 2^62 →
        RoundTrips AuthRequest.encode AuthRequest.decode a a)) ∧
    (∀ a : AuthResponse, a.Encodable →
      RoundTrips AuthResponse.encode AuthResponse.decode a
        { a with serverCcRx := a.serverCcRx%2^62 } ∧
      (a.serverCcRx < 2^62 → RoundTrips AuthResponse.encode AuthResponse.decode a a)) ∧
    (∀ m : OpenStream, m.address.Text → m.address.Encodable →
      RoundTrips OpenStream.encode OpenStream.decode m m) ∧
    (∀ a : OpenStreamAck, a.message.length < 2^62 →
      RoundTrips OpenStreamAck.encode OpenStreamAck.decode a a) ∧
    (∀ f : Frame, f.body.length ≤ Frame.maxBodyLen →
      RoundTrips Frame.encode Frame.decode f { f with streamId := f.streamId%2^62 } ∧
      (f.streamId < 2^62 → RoundTrips Frame.encode Frame.decode f f)) ∧
    (∀ d : Datagram, d.address.Text → d.address.Encodable →
      Datagram.decode d.encode = .ok (d,d.encode.length)) ∧
    ∀ (f : Frame) (rest : Bytes), Frame.maxBodyLen < f.body.length → f.body.length < 2^62 →
      ∃ reason, Frame.decode (f.encode++rest) = .error (.invalidData reason) := by
  refine ⟨fun a h => ⟨fun rest => a.decode_encode rest h,fun hv hc rest => ?_⟩,
    fun a h => ⟨fun rest => a.decode_encode rest h,fun hc rest => ?_⟩,fun m ht h rest => ?_,
    fun a h rest => a.decode_encode rest h,
    fun f h => ⟨fun rest => f.decode_encode rest h,fun hi rest => ?_⟩,fun d ht h => ?_,
    fun f rest h hb => ⟨_,f.decode_large rest h hb⟩⟩
  · rw [a.decode_encode rest h, AuthRequest.received, Nat.mod_eq_of_lt hv, Nat.mod_eq_of_lt hc]
  · rw [a.decode_encode rest h, AuthResponse.received, Nat.mod_eq_of_lt hc]
  · rw [m.decode_encode rest h, m.address.received_text ht]
  · rw [f.decode_encode rest h, Frame.received, Nat.mod_eq_of_lt hi]
  · rw [d.decode_encode h, d.address.received_text ht]

def exampleDatagram : Datagram := .new 7 (.domain (Address.utf8 ['a','é']) 53) [1,2]

/-- A datagram to a host with a two-byte character, and a frame of its own. -/
theorem example_round_trip :
    Datagram.decode exampleDatagram.encode = .ok (exampleDatagram,exampleDatagram.encode.length) ∧
    RoundTrips Frame.encode Frame.decode ⟨5,Frame.frameDatagram,exampleDatagram.encode⟩
      ⟨5,Frame.frameDatagram,exampleDatagram.encode⟩ :=
  ⟨wire_round_trip.2.2.2.2.2.1 exampleDatagram ⟨_,rfl⟩
      (show (Address.utf8 ['a','é']).length < 2^62 by decide),
    (wire_round_trip.2.2.2.2.1 ⟨5,Frame.frameDatagram,exampleDatagram.encode⟩ (by decide)).2
      (by decide)⟩

end Hydr
