import Mathlib
import Hydr.Varint

/-!
# Target addresses

Three address shapes with a big-endian port. A domain is the byte string of a
UTF-8 text; decoding goes through the standard library's lossy conversion,
which replaces each maximal invalid piece by the three bytes of U+FFFD.
-/

set_option autoImplicit false

namespace Hydr.Address
open BigEndian Varint

def charWidth (b : UInt8) : ℕ :=
  if b < 0x80 then 1
  else if 0xc2 ≤ b ∧ b ≤ 0xdf then 2
  else if 0xe0 ≤ b ∧ b ≤ 0xef then 3
  else if 0xf0 ≤ b ∧ b ≤ 0xf4 then 4
  else 0

def continues (b : UInt8) : Bool := b &&& 192 == 128

def secondOk (b c : UInt8) : Bool :=
  if b = 0xe0 then 0xa0 ≤ c && c ≤ 0xbf
  else if b = 0xed then 0x80 ≤ c && c ≤ 0x9f
  else if b = 0xf0 then 0x90 ≤ c && c ≤ 0xbf
  else if b = 0xf4 then 0x80 ≤ c && c ≤ 0x8f
  else 0x80 ≤ c && c ≤ 0xbf

/-- How many bytes the head of a buffer takes, and whether they are one valid
character. A byte past the end reads as zero, as `safe_get` does. -/
def headChar (b : UInt8) (rest : Bytes) : Bool × ℕ :=
  match charWidth b with
  | 1 => (true,1)
  | 2 => if continues (rest.getD 0 0) then (true,2) else (false,1)
  | 3 =>
    if !secondOk b (rest.getD 0 0) then (false,1)
    else if continues (rest.getD 1 0) then (true,3) else (false,2)
  | 4 =>
    if !secondOk b (rest.getD 0 0) then (false,1)
    else if !continues (rest.getD 1 0) then (false,2)
    else if continues (rest.getD 2 0) then (true,4) else (false,3)
  | _ => (false,1)

def replacement : Bytes := [0xef, 0xbf, 0xbd]

def lossyFuel : ℕ → Bytes → Bytes
  | 0, _ => []
  | _+1, [] => []
  | fuel+1, b::rest =>
    let (valid,n) := headChar b rest
    (if valid then (b::rest).take n else replacement) ++ lossyFuel fuel ((b::rest).drop n)

/-- `String::from_utf8_lossy`; every round consumes a byte. -/
def fromUtf8Lossy (bytes : Bytes) : Bytes := lossyFuel bytes.length bytes

inductive IpAddr where
  | v4 (octets : List.Vector UInt8 4)
  | v6 (octets : List.Vector UInt8 16)
  deriving DecidableEq

end Address

inductive Address where
  | ip (addr : Address.IpAddr) (port : UInt16)
  | domain (host : Bytes) (port : UInt16)
  deriving DecidableEq

namespace Address
open BigEndian Varint

def portBytes (port : UInt16) : Bytes := toBytes 2 port.toNat

def readPort (buf : Bytes) : UInt16 := UInt16.ofNat (ofBytes (buf.take 2))

def encode : Address → Bytes
  | .ip (.v4 octets) port => 0x01 :: octets.toList ++ portBytes port
  | .ip (.v6 octets) port => 0x02 :: octets.toList ++ portBytes port
  | .domain host port => 0x03 :: encodeVarint host.length ++ host ++ portBytes port

def readOctets (n : ℕ) (buf : Bytes) (h : n ≤ buf.length) : List.Vector UInt8 n :=
  ⟨buf.take n, by simp [h]⟩

def decode (buf : Bytes) : Result (Address × ℕ) :=
  match buf with
  | [] => .error .unexpectedEof
  | ty::rest =>
    if ty = 0x01 then
      if h : 6 ≤ rest.length then
        .ok (.ip (.v4 (readOctets 4 rest (by omega))) (readPort (rest.drop 4)), 7)
      else .error .unexpectedEof
    else if ty = 0x02 then
      if h : 18 ≤ rest.length then
        .ok (.ip (.v6 (readOctets 16 rest (by omega))) (readPort (rest.drop 16)), 19)
      else .error .unexpectedEof
    else if ty = 0x03 then do
      let (len,used) ← decodeVarint rest
      let start := 1+used
      if buf.length < start+len+2 then .error .unexpectedEof
      else
        let host := fromUtf8Lossy ((buf.drop start).take len)
        .ok (.domain host (readPort (buf.drop (start+len))), start+len+2)
    else .error (.invalidData "bad address type")

theorem portBytes_length (port : UInt16) : (portBytes port).length = 2 := toBytes_length _ _

theorem readPort_portBytes (port : UInt16) (rest : Bytes) :
    readPort (portBytes port++rest) = port := by
  have ht : (portBytes port++rest).take 2 = portBytes port := List.take_left' (portBytes_length port)
  have hb : port.toNat < 256^2 := port.toNat_lt
  rw [readPort, ht, portBytes, ofBytes_toBytes, Nat.mod_eq_of_lt hb]
  exact UInt16.ofNat_toNat

theorem readOctets_append (n : ℕ) (octets : List.Vector UInt8 n) (rest : Bytes)
    (h : n ≤ (octets.toList++rest).length) :
    readOctets n (octets.toList++rest) h = octets :=
  Subtype.ext (List.take_left' octets.toList_length)

def received : Address → Address
  | .ip addr port => .ip addr port
  | .domain host port => .domain (fromUtf8Lossy host) port

def Encodable : Address → Prop
  | .ip _ _ => True
  | .domain host _ => host.length < 2^62

theorem decode_encode (addr : Address) (rest : Bytes) (h : addr.Encodable) :
    decode (addr.encode++rest) = .ok (addr.received, addr.encode.length) := by
  match addr with
  | .ip (.v4 octets) port =>
    have hd : (octets.toList++(portBytes port++rest)).drop 4 = portBytes port++rest :=
      List.drop_left' octets.toList_length
    simp only [encode, decode, List.cons_append, List.append_assoc, if_true, hd,
      readOctets_append, readPort_portBytes]
    rw [dif_pos (by simp [portBytes_length]; omega)]
    simp [received, portBytes_length]
  | .ip (.v6 octets) port =>
    have hd : (octets.toList++(portBytes port++rest)).drop 16 = portBytes port++rest :=
      List.drop_left' octets.toList_length
    have h1 : (0x02:UInt8) ≠ 0x01 := by decide
    simp only [encode, decode, List.cons_append, List.append_assoc, if_neg h1, if_true, hd,
      readOctets_append, readPort_portBytes]
    rw [dif_pos (by simp [portBytes_length]; omega)]
    simp [received, portBytes_length]
  | .domain host port =>
    have h1 : (0x03:UInt8) ≠ 0x01 := by decide
    have h2 : (0x03:UInt8) ≠ 0x02 := by decide
    have hd : (0x03::(encodeVarint host.length++(host++(portBytes port++rest)))).drop
        (1+encodeVarintLen host.length) = host++(portBytes port++rest) := by
      rw [Nat.add_comm, List.drop_succ_cons]
      exact List.drop_left' (encodeVarint_length _)
    have hp : (0x03::(encodeVarint host.length++(host++(portBytes port++rest)))).drop
        (1+encodeVarintLen host.length+host.length) = portBytes port++rest := by
      rw [← List.drop_drop, hd, List.drop_left]
    simp only [encode, decode, List.cons_append, List.append_assoc, if_neg h1, if_neg h2, if_true,
      decode_encode_small _ _ h, bind, Except.bind, hd, hp, List.take_left, readPort_portBytes]
    rw [if_neg (by simp [portBytes_length]; omega)]
    simp [received, portBytes_length]
    omega

end Address
end Hydr
