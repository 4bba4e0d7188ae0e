import Mathlib
import Hydr.RelayFrames
import Hydr.UdpRelay

/-!
# The addresses of RFC 1928

The SOCKS5 side hands the bytes of a request to the decoder of the tunnel's own
format, and writes the header of a reply with its encoder. The two formats write
an IPv4 host alike, and a name whose length is a one-byte varint; they give an
IPv6 host different types, and a longer name lengths of different sizes.
-/

set_option autoImplicit false

namespace Hydr

namespace Address
open Varint

theorem lossyFuel_ascii (fuel : ℕ) (bytes : Bytes) (hf : bytes.length ≤ fuel)
    (h : ∀ b ∈ bytes, b < 0x80) : lossyFuel fuel bytes = bytes := by
  induction bytes generalizing fuel with
  | nil => cases fuel <;> rfl
  | cons b rest ih =>
    obtain ⟨fuel,rfl⟩ : ∃ m, fuel = m+1 := ⟨fuel-1,by simp at hf; omega⟩
    have hb : headChar b rest = (true,1) := by
      simp [headChar, charWidth, h b (List.mem_cons_self ..)]
    rw [lossyFuel, hb]
    simp only [if_true, List.take_succ_cons, List.take_zero, List.drop_succ_cons, List.drop_zero]
    rw [ih fuel (by simpa using hf) fun c hc => h c (List.mem_cons_of_mem _ hc)]
    rfl

theorem fromUtf8Lossy_ascii (bytes : Bytes) (h : ∀ b ∈ bytes, b < 0x80) :
    fromUtf8Lossy bytes = bytes :=
  lossyFuel_ascii _ bytes le_rfl h

end Address

namespace Socks5
open Address Varint Dialogue

/-- A host as RFC 1928 has it; a name is ASCII and has a length byte. -/
inductive Host where
  | v4 (octets : List.Vector UInt8 4)
  | v6 (octets : List.Vector UInt8 16)
  | name (bytes : Bytes) (ascii : ∀ b ∈ bytes, b < 0x80) (pos : 0 < bytes.length)
      (short : bytes.length ≤ 255)

namespace Host

def address (port : UInt16) : Host → Address
  | .v4 octets => .ip (.v4 octets) port
  | .v6 octets => .ip (.v6 octets) port
  | .name bytes _ _ _ => .domain bytes port

def atyp : Host → UInt8
  | .v4 _ => 1
  | .v6 _ => 4
  | .name _ _ _ _ => 3

def fields (port : UInt16) : Host → Bytes
  | .v4 octets => octets.toList++portBytes port
  | .v6 octets => octets.toList++portBytes port
  | .name bytes _ _ _ => UInt8.ofNat bytes.length::bytes++portBytes port

def encode (port : UInt16) (host : Host) : Bytes := host.atyp::host.fields port

def Shared : Host → Prop
  | .v4 _ => True
  | .v6 _ => False
  | .name bytes _ _ _ => bytes.length < 64

end Host

def requestBytes (cmd : UInt8) (host : Host) (port : UInt16) : Bytes := [5,cmd,0]++host.encode port

def udpBytes (host : Host) (port : UInt16) (payload : Bytes) : Bytes :=
  [0,0,0]++host.encode port++payload

theorem encodeVarint_small (n : ℕ) (h : n < 64) : encodeVarint n = [UInt8.ofNat n] := by
  rw [encodeVarint, if_pos (by simpa using h)]

theorem encodeVarintLen_large (n : ℕ) (h : 64 ≤ n) : 2 ≤ encodeVarintLen n := by
  unfold encodeVarintLen
  split_ifs with h1
  · simp at h1
    omega
  all_goals omega

/-- The tunnel's encoder writes what RFC 1928 asks for, or something else. -/
theorem encode_eq_iff (host : Host) (port : UInt16) :
    (host.address port).encode = host.encode port ↔ host.Shared := by
  cases host with
  | v4 octets => exact ⟨fun _ => trivial,fun _ => rfl⟩
  | v6 octets =>
    refine ⟨fun h => ?_,fun h => h.elim⟩
    exact absurd (show (0x02:UInt8) = 0x04 from (List.cons.inj h).1) (by decide)
  | name bytes ascii pos short =>
    constructor
    · intro h
      by_contra hn
      have hl := congrArg List.length h
      have h2 := encodeVarintLen_large bytes.length (not_lt.mp hn)
      rw [Host.address, encode_domain_length] at hl
      simp [Host.encode, Host.fields, portBytes_length] at hl
      omega
    · intro h
      have hv := encodeVarint_small bytes.length h
      simp [Host.address, Host.encode, Host.fields, Host.atyp, Address.encode, hv]

theorem received_address (host : Host) (port : UInt16) :
    (host.address port).received = host.address port := by
  cases host with
  | v4 octets => rfl
  | v6 octets => rfl
  | name bytes ascii pos short =>
    rw [Host.address, received, fromUtf8Lossy_ascii bytes ascii]

theorem decode_shared (host : Host) (port : UInt16) (rest : Bytes) (h : host.Shared) :
    decode (host.encode port++rest) = .ok (host.address port,(host.encode port).length) := by
  have he : (host.address port).Encodable := by
    cases host with
    | v4 octets => trivial
    | v6 octets => trivial
    | name bytes ascii pos short =>
      change bytes.length < 2^62
      omega
  have hd := decode_encode (host.address port) rest he
  rwa [received_address, (encode_eq_iff host port).mpr h] at hd

theorem class_large (n : ℕ) (h : 64 ≤ n) (hn : n ≤ 255) :
    1 ≤ (UInt8.ofNat n >>> 6).toNat ∧ (UInt8.ofNat n >>> 6).toNat ≤ 3 := by
  have hc : ∀ b : UInt8, 64 ≤ b.toNat → 1 ≤ (b >>> 6).toNat ∧ (b >>> 6).toNat ≤ 3 := by
    decide +kernel
  apply hc
  rw [UInt8.toNat_ofNat']
  omega

/-- A length byte from 64 on starts a varint of several bytes, so the decoder takes
part of the name for its length. -/
theorem decode_long_name (bytes rest : Bytes) (port : UInt16) (ascii : ∀ b ∈ bytes, b < 0x80)
    (hl : 64 ≤ bytes.length) (hs : bytes.length ≤ 255) (n : ℕ) (hn : n ≤ bytes.length+4) :
    decode (3::UInt8.ofNat bytes.length::bytes++portBytes port++rest) ≠
      .ok (.domain bytes port,n) := by
  obtain ⟨hk,hk3⟩ := class_large bytes.length hl hs
  generalize hc : (UInt8.ofNat bytes.length >>> 6).toNat = k at hk hk3
  have h2 : 2 ≤ 2^k := by
    calc 2 = 2^1 := rfl
      _ ≤ 2^k := Nat.pow_le_pow_right (by decide) hk
  have h8 : 2^k ≤ 8 := by
    calc 2^k ≤ 2^3 := Nat.pow_le_pow_right (by decide) hk3
      _ = 8 := rfl
  intro h
  have h1 : (0x03:UInt8) ≠ 0x01 := by decide
  have h2' : (0x03:UInt8) ≠ 0x02 := by decide
  simp only [List.cons_append, decode, if_neg h1, if_neg h2', if_true] at h
  cases hv : decodeVarint (UInt8.ofNat bytes.length::(bytes++portBytes port++rest)) with
  | error e =>
    rw [hv] at h
    cases h
  | ok r =>
    obtain ⟨len,used⟩ := r
    have hu : used = 2^k := by
      simp only [decodeVarint, hc, Nat.one_shiftLeft] at hv
      split_ifs at hv
      exact (Prod.mk.inj (Except.ok.inj hv)).2.symm
    rw [hv] at h
    simp only [bind, Except.bind] at h
    split_ifs at h
    obtain ⟨ha,rfl⟩ := Prod.mk.inj (Except.ok.inj h)
    have hd : ((0x03::UInt8.ofNat bytes.length::(bytes++portBytes port++rest)).drop (1+used)).take len =
        (bytes.drop (used-1)).take len := by
      obtain ⟨m,rfl⟩ : ∃ m, used = m+1 := ⟨used-1,by omega⟩
      rw [show 1+(m+1) = m+1+1 by omega, List.drop_succ_cons, List.drop_succ_cons, List.append_assoc,
        List.drop_append_of_le_length (by omega)]
      apply List.take_append_of_le_length
      rw [List.length_drop]
      omega
    have hf := (Address.domain.inj ha).1
    rw [hd, fromUtf8Lossy_ascii _ fun b hb => ascii b (List.mem_of_mem_drop (List.mem_of_mem_take hb))]
      at hf
    have hlen := congrArg List.length hf
    rw [List.length_take, List.length_drop] at hlen
    omega

theorem host_encode_length (host : Host) (port : UInt16) :
    3 < (host.encode port).length := by
  cases host <;> simp [Host.encode, Host.fields, portBytes_length]

/-- A host that the formats do not share is not read back from its bytes. -/
theorem shared_of_decode (host : Host) (port : UInt16) (rest : Bytes) (n : ℕ)
    (hn : n ≤ (host.encode port).length)
    (h : decode (host.encode port++rest) = .ok (host.address port,n)) : host.Shared := by
  cases host with
  | v4 octets => trivial
  | v6 octets =>
    have h4 : decode ((Host.v6 octets).encode port++rest) = .error (.invalidData "bad address type") :=
      rfl
    rw [h4] at h
    cases h
  | name bytes ascii pos short =>
    by_contra hs
    refine decode_long_name bytes rest port ascii (not_lt.mp hs) short n ?_ h
    simpa [Host.encode, Host.fields, portBytes_length] using hn

theorem decode_used_le (buf : Bytes) (a : Address) (n : ℕ) (h : decode buf = .ok (a,n)) :
    n ≤ buf.length := by
  obtain ⟨raw,hl,-⟩ := Relay.decode_literal_ok buf a n h
  exact (literal_length buf raw n hl).1

section Request

variable (cmd : UInt8) (host : Host) (port : UInt16) (rest : Bytes) (p : Peer Opening)

theorem run_readAddress :
    run (readAddress host.atyp) { p with input := host.fields port++rest } =
      (.ok (host.encode port),{ p with input := rest }) := by
  cases host with
  | v4 octets =>
    have h := run_readExact_append Error.io 6 (octets.toList++portBytes port) rest p
      (by simp [portBytes_length])
    rw [readAddress, Host.atyp, if_pos rfl, run_bind]
    simp only [Host.fields, h]
    rfl
  | v6 octets =>
    have h := run_readExact_append Error.io 18 (octets.toList++portBytes port) rest p
      (by simp [portBytes_length])
    rw [readAddress, Host.atyp, if_neg (by decide), if_pos rfl, run_bind]
    simp only [Host.fields, h]
    rfl
  | name bytes ascii pos short =>
    have hn : (UInt8.ofNat bytes.length).toNat = bytes.length := by
      rw [UInt8.toNat_ofNat']
      omega
    have h := run_readExact_append Error.io (bytes.length+2) (bytes++portBytes port) rest p
      (by simp [portBytes_length])
    rw [readAddress, Host.atyp, if_neg (by decide), if_neg (by decide), if_pos rfl, run_bind]
    simp only [Host.fields, List.cons_append, run_readByte_cons, run_bind, hn, h]
    rfl

/-- The request is read up to its end, and its address is what the decoder of the
tunnel's format makes of the bytes. -/
theorem run_readRequest :
    run readRequest { p with input := requestBytes cmd host port++rest } =
      (((decode (host.encode port)).map fun r => ⟨cmd,r.1⟩),{ p with input := rest }) := by
  have hh := run_readExact_append Error.io 4 [5,cmd,0,host.atyp] (host.fields port++rest) p rfl
  have ha := run_readAddress host port rest p
  have hi : requestBytes cmd host port++rest = [5,cmd,0,host.atyp]++(host.fields port++rest) := rfl
  rw [readRequest, run_bind, hi, hh]
  simp only [List.getD_cons_zero, ne_eq, not_true_eq_false, if_false, run_bind]
  simp only [List.getD_cons_succ, List.getD_cons_zero, ha]
  cases decode (host.encode port) with
  | error e => rfl
  | ok r => rfl

/-- A request is read as what it says exactly when it names an IPv4 address, or a
name of fewer than 64 bytes. -/
theorem readRequest_iff :
    run readRequest { p with input := requestBytes cmd host port++rest } =
      (.ok ⟨cmd,host.address port⟩,{ p with input := rest }) ↔ host.Shared := by
  rw [run_readRequest]
  constructor
  · intro h
    cases hd : decode (host.encode port) with
    | error e =>
      rw [hd] at h
      cases h
    | ok r =>
      obtain ⟨a,n⟩ := r
      rw [hd] at h
      obtain rfl : a = host.address port := by simpa [Except.map] using h
      apply shared_of_decode host port [] n (decode_used_le _ _ _ hd)
      rwa [List.append_nil]
  · intro h
    have hd := decode_shared host port [] h
    rw [List.append_nil] at hd
    rw [hd]
    rfl

end Request

def loopback : Host := .v6 ⟨List.replicate 15 0++[1],rfl⟩

/-- A request for an IPv6 address is refused. -/
theorem v6_request_refused :
    ¬∀ (cmd : UInt8) (host : Host) (port : UInt16) (rest : Bytes) (p : Peer Opening),
      run readRequest { p with input := requestBytes cmd host port++rest } =
        (.ok ⟨cmd,host.address port⟩,{ p with input := rest }) :=
  fun h => (readRequest_iff 1 loopback 443 [] ⟨[],[],[],[]⟩).mp (h _ _ _ _ _)

section Udp

theorem parseUdpPacket_udpBytes (host : Host) (port : UInt16) (payload : Bytes) :
    parseUdpPacket (udpBytes host port payload) =
      (decode (host.encode port++payload)).map fun r =>
        (r.1,(udpBytes host port payload).drop (3+r.2)) := by
  have hl := host_encode_length host port
  have hn : ¬((udpBytes host port payload).length < 4 ∨ (udpBytes host port payload).getD 2 0 ≠ 0) := by
    simp [udpBytes]
    omega
  have hd : (udpBytes host port payload).drop 3 = host.encode port++payload := rfl
  rw [parseUdpPacket, if_neg hn, hd]
  cases decode (host.encode port++payload) with
  | error e => rfl
  | ok r => rfl

theorem parse_iff (host : Host) (port : UInt16) (payload : Bytes) :
    parseUdpPacket (udpBytes host port payload) = .ok (host.address port,payload) ↔
      host.Shared := by
  rw [parseUdpPacket_udpBytes]
  constructor
  · intro h
    cases hd : decode (host.encode port++payload) with
    | error e =>
      rw [hd] at h
      cases h
    | ok r =>
      obtain ⟨a,n⟩ := r
      have hle := decode_used_le _ _ _ hd
      rw [hd] at h
      obtain ⟨rfl,hp⟩ := Prod.mk.inj (Except.ok.inj h)
      have hlen := congrArg List.length hp
      simp only [udpBytes, List.length_drop, List.length_append, List.length_cons,
        List.length_nil] at hlen hle
      exact shared_of_decode host port payload n (by omega) hd
  · intro h
    rw [decode_shared host port payload h]
    have hd : (udpBytes host port payload).drop (3+(host.encode port).length) = payload :=
      List.drop_left' (by rw [List.length_append]; rfl)
    simp only [Except.map, hd]

theorem routeReply_iff (s : UdpRelay.State) (dg : Message.Datagram) (socket : ℕ)
    (client : Udp.SocketAddr) (hs : s.sessions.lookup dg.sessionId = some ⟨socket,some client⟩)
    (host : Host) (port : UInt16) (ha : dg.address = host.address port) :
    (s.routeReply dg).replies = s.replies++[(socket,client,udpBytes host port dg.payload)] ↔
      host.Shared := by
  simp only [UdpRelay.State.routeReply, hs, ha, List.append_cancel_left_eq, List.cons.injEq,
    Prod.mk.injEq, true_and, and_true, udpBytes, List.append_assoc, List.append_cancel_right_eq]
  exact encode_eq_iff host port

/-- A packet of RFC 1928 is read as what it says, and a reply is written as one,
exactly when the host is an IPv4 address or a name of fewer than 64 bytes. -/
theorem udp_header_iff (host : Host) (port : UInt16) (payload : Bytes) :
    (parseUdpPacket (udpBytes host port payload) = .ok (host.address port,payload) ↔
      host.Shared) ∧
    ∀ (s : UdpRelay.State) (dg : Message.Datagram) (socket : ℕ) (client : Udp.SocketAddr),
      s.sessions.lookup dg.sessionId = some ⟨socket,some client⟩ →
      dg.address = host.address port → dg.payload = payload →
        ((s.routeReply dg).replies = s.replies++[(socket,client,udpBytes host port payload)] ↔
          host.Shared) := by
  refine ⟨parse_iff host port payload,fun s dg socket client hs ha hp => ?_⟩
  rw [← hp]
  exact routeReply_iff s dg socket client hs host port ha

/-- A packet to an IPv6 address does not parse. -/
theorem v6_packet_rejected :
    ¬∀ (host : Host) (port : UInt16) (payload : Bytes),
      parseUdpPacket (udpBytes host port payload) = .ok (host.address port,payload) :=
  fun h => (udp_header_iff loopback 53 []).1.mp (h _ _ _)

/-- A packet to an IPv4 address, and the reply from there. -/
theorem v4_packet_read :
    parseUdpPacket (udpBytes (.v4 (.replicate 4 127)) 53 [7]) =
      .ok (.ip (.v4 (.replicate 4 127)) 53,[7]) ∧
    (UdpRelay.State.routeReply
      { UdpRelay.State.init (.quic true 1200) with
        sessions := AList.insert 1 ⟨0,some (.v4 (.replicate 4 127),9)⟩ ∅ }
      (.new 1 (.ip (.v4 (.replicate 4 127)) 53) [7])).replies =
        [(0,(.v4 (.replicate 4 127),9),udpBytes (.v4 (.replicate 4 127)) 53 [7])] :=
  ⟨(udp_header_iff (.v4 (.replicate 4 127)) 53 [7]).1.mpr trivial,
    ((udp_header_iff (.v4 (.replicate 4 127)) 53 [7]).2 _ _ 0 _ rfl rfl rfl).mpr trivial⟩

end Udp

end Socks5
end Hydr
