import Mathlib
import Hydr.Socks5
import Hydr.WireFormat

/-!
# What a relaying node sends on

The client turns a UDP packet into a Datagram frame, a relaying server turns a
frame it has read into a frame for the next hop. Both go through the decoded
address, and so through the lossy conversion. The next hop reads what was
meant exactly when the host is a text, and then the frame cannot be too large.
-/

set_option autoImplicit false

namespace Hydr

namespace Address
open Varint

def literal (buf : Bytes) : Result (Address × ℕ) :=
  match buf with
  | [] => .error .unexpectedEof
  | ty::rest =>
    if ty = 0x03 then do
      let (len,used) ← decodeVarint rest
      let start := 1+used
      if buf.length < start+len+2 then .error .unexpectedEof
      else .ok (.domain ((buf.drop start).take len) (readPort (buf.drop (start+len))),start+len+2)
    else decode buf

theorem decode_literal (buf : Bytes) :
    decode buf = (literal buf).map fun r => (r.1.received,r.2) := by
  match buf with
  | [] => rfl
  | ty::rest =>
    by_cases h3 : ty = 0x03
    · subst h3
      simp only [decode, literal, if_true]
      cases hv : decodeVarint rest with
      | error e => rfl
      | ok r =>
        obtain ⟨len,used⟩ := r
        simp only [bind, Except.bind]
        by_cases hl : ((0x03:UInt8)::rest).length < 1+used+len+2
        · rw [if_pos hl, if_pos hl]
          rfl
        · rw [if_neg hl, if_neg hl]
          rfl
    · simp only [literal, if_neg h3]
      simp only [decode, if_neg h3]
      split_ifs <;> rfl

theorem encode_v4_length (octets : List.Vector UInt8 4) (port : UInt16) :
    (Address.ip (.v4 octets) port).encode.length = 7 := by
  simp [encode, portBytes_length]

theorem encode_v6_length (octets : List.Vector UInt8 16) (port : UInt16) :
    (Address.ip (.v6 octets) port).encode.length = 19 := by
  simp [encode, portBytes_length]

/-- An address is written back in no more bytes than it was read from, and the
converted one in three times as many, or a few more. -/
theorem literal_length (buf : Bytes) (a : Address) (n : ℕ) (h : literal buf = .ok (a,n)) :
    n ≤ buf.length ∧ a.encode.length ≤ n ∧ a.received.encode.length ≤ 3*n+16 := by
  match buf with
  | ty::rest =>
    by_cases h3 : ty = 0x03
    · simp only [literal, if_pos h3] at h
      cases hv : decodeVarint rest with
      | error e =>
        rw [hv] at h
        cases h
      | ok r =>
        obtain ⟨len,used⟩ := r
        have hu := encodeVarintLen_le_used rest len used hv
        rw [hv] at h
        simp only [bind, Except.bind] at h
        split_ifs at h with hl
        obtain ⟨rfl,rfl⟩ := Prod.mk.inj (Except.ok.inj h)
        have hh : (((ty::rest).drop (1+used)).take len).length = len := by
          rw [List.length_take, List.length_drop]
          omega
        have hc := lossyFuel_length (((ty::rest).drop (1+used)).take len).length
          (((ty::rest).drop (1+used)).take len)
        have h8 := encodeVarintLen_le
          (fromUtf8Lossy (((ty::rest).drop (1+used)).take len)).length
        rw [received, encode_domain_length, encode_domain_length, hh]
        rw [fromUtf8Lossy] at h8 ⊢
        omega
    · simp only [literal, if_neg h3, decode] at h
      split_ifs at h with h1 hl h2 hl
      · obtain ⟨rfl,rfl⟩ := Prod.mk.inj (Except.ok.inj h)
        rw [received, encode_v4_length, List.length_cons]
        omega
      · obtain ⟨rfl,rfl⟩ := Prod.mk.inj (Except.ok.inj h)
        rw [received, encode_v6_length, List.length_cons]
        omega

theorem received_twice (a : Address) : a.received.received = a ↔ a.Text := by
  match a with
  | .ip addr port => simp [received, Text]
  | .domain host port =>
    simp only [received, Text, fromUtf8Lossy_idem, Address.domain.injEq, and_true]
    exact fromUtf8Lossy_eq_iff host

end Address

namespace Relay
open Message Address

def datagramFrame (dg : Datagram) : Frame := ⟨0,Frame.frameDatagram,dg.encode⟩

def openStreamFrame (id : ℕ) (address : Address) : Frame :=
  ⟨id,Frame.frameOpenStream,(OpenStream.mk address).encode⟩

def packetFrame (sid : UInt32) (packet : Bytes) : Result Frame := do
  let (target,payload) ← Socks5.parseUdpPacket packet
  return datagramFrame (.new sid target payload)

def relayFrame (id : ℕ) (bytes : Bytes) : Option Frame :=
  match Frame.decode bytes with
  | .error _ => none
  | .ok (f,_) =>
    if f.frameType = Frame.frameDatagram then
      match Datagram.decode f.body with
      | .ok (dg,_) => some (datagramFrame dg)
      | .error _ => none
    else if f.frameType = Frame.frameOpenStream then
      match OpenStream.decode f.body with
      | .ok (req,_) => some (openStreamFrame id req.address)
      | .error _ => none
    else none

def readFrame (bytes : Bytes) : Result (Address × Bytes) := do
  let (f,_) ← Frame.decode bytes
  if f.frameType = Frame.frameDatagram then do
    let (dg,_) ← Datagram.decode f.body
    return (dg.address,dg.payload)
  else do
    let (req,_) ← OpenStream.decode f.body
    return (req.address,[])

def packetContent (packet : Bytes) : Result (Address × Bytes) := do
  let (address,used) ← literal (packet.drop 3)
  return (address,packet.drop (3+used))

def frameContent (bytes : Bytes) : Result (Address × Bytes) := do
  let (f,_) ← Frame.decode bytes
  if f.frameType = Frame.frameDatagram then do
    let (address,used) ← literal (f.body.drop 8)
    return (address,f.body.drop (8+used))
  else do
    let (address,_) ← literal f.body
    return (address,[])

/-- A frame that is within the limit is read, one above it is not. -/
theorem readFrame_eq (f : Frame) (hb : f.body.length < 2^62) (r : Address × Bytes) :
    readFrame f.encode = .ok r ↔ f.body.length ≤ Frame.maxBodyLen ∧
      (if f.frameType = Frame.frameDatagram then do
        let (dg,_) ← Datagram.decode f.body
        return (dg.address,dg.payload)
      else do
        let (req,_) ← OpenStream.decode f.body
        return (req.address,[]) : Result (Address × Bytes)) = .ok r := by
  by_cases h : f.body.length ≤ Frame.maxBodyLen
  · have hd := f.decode_encode [] h
    rw [List.append_nil] at hd
    simp only [readFrame, hd, bind, Except.bind, h, true_and, Frame.received]
  · have hd := f.decode_large [] (by omega) hb
    rw [List.append_nil] at hd
    simp [readFrame, hd, bind, Except.bind, h]

section
variable (raw : Address) (n : ℕ) (hn : raw.encode.length ≤ n)
  (hr : raw.received.encode.length ≤ 3*n+16)
include hn hr

/-- A datagram whose address was read from `n` bytes. -/
theorem datagramFrame_reads (d : Datagram) (ha : d.address = raw.received)
    (hfit : 8+n+d.payload.length ≤ Frame.maxBodyLen) :
    readFrame (datagramFrame d).encode = .ok (raw,d.payload) ↔ raw.Text := by
  have hl := d.encode_length
  have hm : Frame.maxBodyLen < 2^20 := by decide
  rw [ha] at hl
  have he : d.address.Encodable := Address.encodable_of_length _ (by rw [ha]; omega)
  rw [readFrame_eq _ (by simp only [datagramFrame]; omega), ← received_twice raw]
  simp only [datagramFrame, if_true, d.decode_encode he, bind, Except.bind, pure, Except.pure,
    Except.ok.injEq, Prod.mk.injEq, and_true, ha]
  constructor
  · exact fun h => h.2
  · intro h
    rw [received_text raw ((received_twice raw).mp h)] at hl
    exact ⟨by omega,h⟩

theorem openStreamFrame_reads (id : ℕ) (hfit : n ≤ Frame.maxBodyLen) :
    readFrame (openStreamFrame id raw.received).encode = .ok (raw,[]) ↔ raw.Text := by
  have hm : Frame.maxBodyLen < 2^20 := by decide
  have he : raw.received.Encodable := Address.encodable_of_length _ (by omega)
  have hk : Frame.frameOpenStream ≠ Frame.frameDatagram := by decide
  have hd := (OpenStream.mk raw.received).decode_encode [] he
  rw [List.append_nil] at hd
  rw [readFrame_eq _ (by simp only [openStreamFrame, OpenStream.encode]; omega),
    ← received_twice raw]
  simp only [openStreamFrame, if_neg hk, hd, bind, Except.bind, pure, Except.pure, Except.ok.injEq,
    Prod.mk.injEq, and_true]
  constructor
  · exact fun h => h.2
  · intro h
    refine ⟨?_,h⟩
    have ht := received_text raw ((received_twice raw).mp h)
    calc (OpenStream.mk raw.received).encode.length = raw.encode.length := by
          rw [OpenStream.encode, ht]
      _ ≤ Frame.maxBodyLen := by omega

end

theorem decode_literal_ok (buf : Bytes) (a : Address) (n : ℕ) (h : decode buf = .ok (a,n)) :
    ∃ raw, literal buf = .ok (raw,n) ∧ a = raw.received := by
  rw [decode_literal] at h
  cases hl : literal buf with
  | error e =>
    rw [hl] at h
    cases h
  | ok r =>
    obtain ⟨raw,m⟩ := r
    rw [hl] at h
    obtain ⟨rfl,rfl⟩ := Prod.mk.inj (Except.ok.inj h)
    exact ⟨raw,rfl,rfl⟩

theorem datagram_decode_ok (buf : Bytes) (d : Datagram) (n : ℕ)
    (h : Datagram.decode buf = .ok (d,n)) :
    ∃ raw used, literal (buf.drop 8) = .ok (raw,used) ∧ d.address = raw.received ∧
      d.payload = buf.drop (8+used) ∧ 8 ≤ buf.length := by
  rw [Datagram.decode] at h
  split_ifs at h with hl
  cases ha : decode (buf.drop 8) with
  | error e =>
    rw [ha] at h
    cases h
  | ok r =>
    obtain ⟨a,used⟩ := r
    obtain ⟨raw,hraw,rfl⟩ := decode_literal_ok _ _ _ ha
    rw [ha] at h
    obtain ⟨rfl,-⟩ := Prod.mk.inj (Except.ok.inj h)
    exact ⟨raw,used,hraw,rfl,rfl,by omega⟩

/-- A packet of the largest size there is, and less, fits a frame. -/
theorem packetFrame_reads (sid : UInt32) (packet : Bytes) (f : Frame)
    (hp : packet.length ≤ 65507) (h : packetFrame sid packet = .ok f) :
    ∃ raw payload, packetContent packet = .ok (raw,payload) ∧
      (readFrame f.encode = .ok (raw,payload) ↔ raw.Text) := by
  rw [packetFrame, Socks5.parseUdpPacket] at h
  split_ifs at h with hh
  · cases h
  · cases ha : decode (packet.drop 3) with
    | error e =>
      rw [ha] at h
      cases h
    | ok r =>
      obtain ⟨a,used⟩ := r
      obtain ⟨raw,hraw,rfl⟩ := decode_literal_ok _ _ _ ha
      rw [ha] at h
      obtain rfl := Except.ok.inj h
      obtain ⟨hu,he,hr⟩ := literal_length _ _ _ hraw
      rw [List.length_drop] at hu
      refine ⟨raw,packet.drop (3+used),?_,datagramFrame_reads raw used he hr
        (.new sid raw.received (packet.drop (3+used))) rfl ?_⟩
      · simp only [packetContent, hraw, bind, Except.bind, pure, Except.pure]
      · simp only [Datagram.new, List.length_drop, Frame.maxBodyLen]
        omega

theorem frame_decode_body (bytes : Bytes) (f : Frame) (n : ℕ) (h : Frame.decode bytes = .ok (f,n)) :
    f.body.length ≤ Frame.maxBodyLen := by
  unfold Frame.decode at h
  cases hv : Varint.decodeVarint bytes with
  | error e =>
    rw [hv] at h
    cases h
  | ok r =>
    obtain ⟨sid,pos⟩ := r
    rw [hv] at h
    simp only [bind, Except.bind] at h
    split at h
    · cases h
    · cases hw : Varint.decodeVarint (bytes.drop (pos+1)) with
      | error e =>
        rw [hw] at h
        cases h
      | ok r =>
        obtain ⟨len,used⟩ := r
        rw [hw] at h
        simp only at h
        split_ifs at h with h1 h2
        obtain ⟨rfl,-⟩ := Prod.mk.inj (Except.ok.inj h)
        exact (List.length_take_le _ _).trans (by omega)

theorem relayFrame_reads (id : ℕ) (bytes : Bytes) (f : Frame) (h : relayFrame id bytes = some f) :
    ∃ raw payload, frameContent bytes = .ok (raw,payload) ∧
      (readFrame f.encode = .ok (raw,payload) ↔ raw.Text) := by
  unfold relayFrame at h
  cases hd : Frame.decode bytes with
  | error e =>
    rw [hd] at h
    cases h
  | ok r =>
    obtain ⟨g,n⟩ := r
    have hb := frame_decode_body bytes g n hd
    rw [hd] at h
    simp only [frameContent, hd, bind, Except.bind]
    dsimp only at h
    split_ifs at h with hk ho
    · rw [if_pos hk]
      cases hg : Datagram.decode g.body with
      | error e =>
        rw [hg] at h
        cases h
      | ok r =>
        obtain ⟨d,m⟩ := r
        obtain ⟨raw,used,hraw,ha,hp,h8⟩ := datagram_decode_ok _ _ _ hg
        obtain ⟨hu,he,hr⟩ := literal_length _ _ _ hraw
        rw [List.length_drop] at hu
        rw [hg] at h
        obtain rfl := Option.some.inj h
        refine ⟨raw,d.payload,?_,datagramFrame_reads raw used he hr d ha ?_⟩
        · simp only [hraw, pure, Except.pure, hp]
        · rw [hp, List.length_drop]
          omega
    · rw [if_neg hk]
      cases hg : decode g.body with
      | error e =>
        simp only [OpenStream.decode, hg, bind, Except.bind] at h
        cases h
      | ok r =>
        obtain ⟨a,m⟩ := r
        obtain ⟨raw,hraw,rfl⟩ := decode_literal_ok _ _ _ hg
        obtain ⟨hu,he,hr⟩ := literal_length _ _ _ hraw
        simp only [OpenStream.decode, hg, bind, Except.bind, pure, Except.pure] at h
        obtain rfl := Option.some.inj h
        refine ⟨raw,[],?_,openStreamFrame_reads raw m he hr id (hu.trans hb)⟩
        simp only [hraw, pure, Except.pure]

/-- The next hop accepts what a node sends on and reads the bytes that the node
was given, exactly when the host they name is a text. -/
theorem relayed_frame_read_iff (sid : UInt32) (id : ℕ) (bytes : Bytes) (f : Frame) :
    (bytes.length ≤ 65507 → packetFrame sid bytes = .ok f →
      ∃ raw payload, packetContent bytes = .ok (raw,payload) ∧
        (readFrame f.encode = .ok (raw,payload) ↔ raw.Text)) ∧
    (relayFrame id bytes = some f →
      ∃ raw payload, frameContent bytes = .ok (raw,payload) ∧
        (readFrame f.encode = .ok (raw,payload) ↔ raw.Text)) :=
  ⟨packetFrame_reads sid bytes f,relayFrame_reads id bytes f⟩

def noTextPacket (n : ℕ) : Bytes :=
  [0,0,0,3]++(Varint.encodeVarint n++List.replicate n 0xff)++[0,53]

theorem lossyFuel_replicate (fuel n : ℕ) (h : n ≤ fuel) :
    lossyFuel fuel (List.replicate n 0xff) = (List.replicate n replacement).flatten := by
  induction n generalizing fuel with
  | zero => cases fuel <;> rfl
  | succ n ih =>
    obtain ⟨fuel,rfl⟩ : ∃ m, fuel = m+1 := ⟨fuel-1,by omega⟩
    have hh : headChar 0xff (List.replicate n 0xff) = (false,1) := rfl
    rw [List.replicate_succ, lossyFuel, hh, List.replicate_succ, List.flatten_cons]
    simp only [Bool.false_eq_true, if_false, List.drop_succ_cons, List.drop_zero, ih fuel (by omega)]

theorem noTextPacket_frame (sid : UInt32) (n : ℕ) (h : n < 2^62) :
    packetFrame sid (noTextPacket n) = .ok (datagramFrame
      (.new sid (.domain (List.replicate n replacement).flatten 53) [])) := by
  have hd : decode ((noTextPacket n).drop 3) =
      .ok (.domain (List.replicate n replacement).flatten 53,
        ((noTextPacket n).drop 3).length) := by
    have hl : fromUtf8Lossy (List.replicate n 0xff) = (List.replicate n replacement).flatten :=
      lossyFuel_replicate _ n (by simp)
    have ha := decode_encode (.domain (List.replicate n 0xff) 53) [] 
      (show (List.replicate n 0xff).length < 2^62 by simpa using h)
    rw [List.append_nil, received, hl] at ha
    have he : (noTextPacket n).drop 3 = (Address.domain (List.replicate n 0xff) 53).encode := by
      simp [noTextPacket, encode, portBytes, BigEndian.toBytes]
    rw [he, ha]
  have hlen : ¬((noTextPacket n).length < 4 ∨ (noTextPacket n).getD 2 0 ≠ 0) := by
    simp [noTextPacket]
  have hall : (noTextPacket n).drop (3+((noTextPacket n).drop 3).length) = [] := by
    apply List.drop_eq_nil_of_le
    rw [List.length_drop]
    omega
  rw [packetFrame, Socks5.parseUdpPacket, if_neg hlen]
  simp only [hd, bind, Except.bind, pure, Except.pure, hall]

theorem noTextPacket_length (n : ℕ) :
    (noTextPacket n).length = 6+Varint.encodeVarintLen n+n := by
  simp only [noTextPacket, List.length_append, List.length_cons, List.length_nil,
    Varint.encodeVarint_length, List.length_replicate]
  omega

theorem replacements_length (n : ℕ) : (List.replicate n replacement).flatten.length = 3*n := by
  simp [replacement, Nat.mul_comm]

theorem noText_refused (sid : UInt32) (n : ℕ) (h : Frame.maxBodyLen < 3*n) (hn : n < 2^60) :
    Frame.decode (datagramFrame
      (.new sid (.domain (List.replicate n replacement).flatten 53) [])).encode =
        .error (.invalidData "frame body too large") := by
  have hl : (datagramFrame (.new sid (.domain (List.replicate n replacement).flatten 53)
      [])).body.length = 11+Varint.encodeVarintLen (3*n)+3*n := by
    rw [datagramFrame, Datagram.encode_length, Datagram.new, encode_domain_length,
      replacements_length, List.length_nil]
    omega
  have h8 := Varint.encodeVarintLen_le (3*n)
  have hd := Frame.decode_large (datagramFrame
    (.new sid (.domain (List.replicate n replacement).flatten 53) [])) [] (by omega) (by omega)
  rwa [List.append_nil] at hd

/-- A packet of 22010 bytes, whose frame the next hop refuses. -/
theorem noText_frame_rejected :
    ¬∀ (sid : UInt32) (packet : Bytes) (f : Frame), packet.length ≤ 65507 →
      packetFrame sid packet = .ok f → ∃ g n, Frame.decode f.encode = .ok (g,n) := by
  intro h
  have hp : (noTextPacket 22000).length ≤ 65507 := by
    rw [noTextPacket_length]
    decide
  obtain ⟨g,n,hg⟩ := h 1 (noTextPacket 22000) _ hp (noTextPacket_frame 1 22000 (by norm_num))
  rw [noText_refused 1 22000 (by decide) (by norm_num)] at hg
  cases hg

theorem example_frame_read :
    (readFrame (datagramFrame (.new 1 (.domain [97] 53) [7])).encode =
      .ok (.domain [97] 53,[7])) ∧
    readFrame (openStreamFrame 1 (.domain [97] 53)).encode = .ok (.domain [97] 53,[]) := by
  obtain ⟨raw,payload,hc,hr⟩ := (relayed_frame_read_iff 1 0 [0,0,0,3,1,97,0,53,7]
    (datagramFrame (.new 1 (.domain [97] 53) [7]))).1 (by decide) rfl
  obtain ⟨raw',payload',hc',hr'⟩ := (relayed_frame_read_iff 0 1
    (openStreamFrame 9 (.domain [97] 53)).encode (openStreamFrame 1 (.domain [97] 53))).2 rfl
  obtain ⟨rfl,rfl⟩ := Prod.mk.inj (Except.ok.inj hc)
  obtain ⟨rfl,rfl⟩ := Prod.mk.inj (Except.ok.inj hc')
  exact ⟨hr.mpr ⟨['a'],rfl⟩,hr'.mpr ⟨['a'],rfl⟩⟩

end Relay
end Hydr
