import Mathlib
import Hydr.Address

/-!
# Control messages

Authentication, stream opening and datagrams as the two transports exchange
them. The hash functions of the source are a third-party library and enter as
a parameter. Every decoder of a prefix format is shown to return what was
encoded, whatever bytes follow, with its varint fields reduced to 62 bits.
-/

set_option autoImplicit false

namespace Hydr

abbrev Digest := List.Vector UInt8 32

structure Blake3 where
  hash : Bytes → Digest
  keyedHash : Digest → Bytes → Digest
  deriveKey : String → Bytes → Digest

/-- A hash that copies the tail of its input, and a keyed hash that copies the
head: the keystream is the reversed salt, the tag the first body bytes. -/
def copyHash : Blake3 where
  hash bytes := .ofFn fun i => bytes.reverse.getD i.val 0
  keyedHash _ bytes := .ofFn fun i => bytes.getD i.val 0
  deriveKey _ _ := .replicate 32 0

namespace Message
open BigEndian Varint

def protocolVersion : ℕ := 0x01
def statusOk : UInt8 := 0x00
def statusErr : UInt8 := 0x01
def featureUdp : UInt8 := 0x01

def errNone : UInt8 := 0x00
def errBadCredentials : UInt8 := 0x01
def errConnectFailed : UInt8 := 0x03
def errUnsupported : UInt8 := 0x04
def errProtocol : UInt8 := 0x05

def tagLen : ℕ := 16

def deriveKey (b3 : Blake3) (password : Bytes) : Digest :=
  b3.deriveKey "hydr v1 auth proof" password

def computeAuthProof (b3 : Blake3) (password nonce : Bytes) : Bytes :=
  (b3.keyedHash (deriveKey b3 password) nonce).toList

def ctEq (a b : Bytes) : Bool :=
  if a.length ≠ b.length then false
  else (a.zip b).foldl (fun diff p => diff ||| (p.1 ^^^ p.2)) 0 == 0

theorem foldl_diff (ps : List (UInt8 × UInt8)) (diff : UInt8) :
    ps.foldl (fun diff p => diff ||| (p.1 ^^^ p.2)) diff = 0 ↔
      diff = 0 ∧ ∀ p ∈ ps, p.1 = p.2 := by
  induction ps generalizing diff with
  | nil => simp
  | cons p ps ih => simp [ih, and_assoc]

/-- The constant-time comparison decides equality of byte strings. -/
theorem ctEq_iff (a b : Bytes) : ctEq a b = true ↔ a = b := by
  unfold ctEq
  split_ifs with h
  · exact ⟨fun hf => by simp at hf,fun he => absurd (congrArg List.length he) h⟩
  · simp only [ne_eq, not_not] at h
    rw [beq_iff_eq, foldl_diff]
    constructor
    · rintro ⟨-,hp⟩
      exact List.ext_getElem h fun i ha hb =>
        hp (a[i],b[i]) (List.mem_iff_getElem.mpr ⟨i,by simp [ha,hb],by simp⟩)
    · rintro rfl
      exact ⟨rfl,fun p hp => by obtain ⟨i,hi,rfl⟩ := List.mem_iff_getElem.mp hp; simp⟩

structure AuthRequest where
  version : ℕ
  authMethod : UInt8
  clientNonce : Bytes
  authProof : Bytes
  ccRx : ℕ
  features : UInt8
  padding : Bytes
  deriving DecidableEq

def authPassword : UInt8 := 0x01

/-- The random nonce is an input. -/
def AuthRequest.newPassword (b3 : Blake3) (password : Bytes) (ccRx : ℕ) (features : UInt8)
    (nonce : Bytes) : AuthRequest where
  version := protocolVersion
  authMethod := authPassword
  clientNonce := nonce
  authProof := computeAuthProof b3 password nonce
  ccRx := ccRx
  features := features
  padding := []

structure AuthResponse where
  status : UInt8
  errorCode : UInt8
  message : Bytes
  serverCcRx : ℕ
  serverFeatures : UInt8
  padding : Bytes
  deriving DecidableEq

def AuthResponse.ok (serverCcRx : ℕ) (serverFeatures : UInt8) : AuthResponse where
  status := statusOk
  errorCode := errNone
  message := []
  serverCcRx := serverCcRx
  serverFeatures := serverFeatures
  padding := []

def AuthResponse.errorWithCode (errorCode : UInt8) (msg : Bytes) : AuthResponse where
  status := statusErr
  errorCode := errorCode
  message := msg
  serverCcRx := 0
  serverFeatures := 0
  padding := []

def AuthResponse.error (msg : Bytes) : AuthResponse := .errorWithCode errBadCredentials msg

structure OpenStream where
  address : Address
  deriving DecidableEq

structure OpenStreamAck where
  status : UInt8
  errorCode : UInt8
  message : Bytes
  deriving DecidableEq

structure Datagram where
  sessionId : UInt32
  packetId : UInt16
  fragId : UInt8
  fragCount : UInt8
  address : Address
  payload : Bytes
  deriving DecidableEq

def Datagram.new (sessionId : UInt32) (address : Address) (payload : Bytes) : Datagram where
  sessionId := sessionId
  packetId := 0
  fragId := 0
  fragCount := 1
  address := address
  payload := payload

structure Reader where
  buf : Bytes
  pos : ℕ

namespace Reader

def new (buf : Bytes) : Reader := ⟨buf,0⟩

def u8 (rd : Reader) : Result (UInt8 × Reader) :=
  match rd.buf[rd.pos]? with
  | some b => .ok (b, ⟨rd.buf,rd.pos+1⟩)
  | none => .error .unexpectedEof

def varint (rd : Reader) : Result (ℕ × Reader) := do
  let (v,used) ← decodeVarint (rd.buf.drop rd.pos)
  return (v, ⟨rd.buf,rd.pos+used⟩)

def bytes (rd : Reader) : Result (Bytes × Reader) := do
  let (len,rd) ← rd.varint
  if rd.buf.length < rd.pos+len then .error .unexpectedEof
  else .ok ((rd.buf.drop rd.pos).take len, ⟨rd.buf,rd.pos+len⟩)

def between (done todo : Bytes) : Reader := ⟨done++todo,done.length⟩

theorem new_eq (buf : Bytes) : new buf = between [] buf := rfl

theorem u8_between (done todo : Bytes) (b : UInt8) :
    u8 (between done (b::todo)) = .ok (b, between (done++[b]) todo) := by
  simp [u8, between]

theorem varint_between (done todo : Bytes) (v : ℕ) :
    varint (between done (encodeVarint v++todo)) =
      .ok (v%2^62, between (done++encodeVarint v) todo) := by
  simp [varint, between, decode_encode, bind, Except.bind, pure, Except.pure]

theorem bytes_between (done todo b : Bytes) (h : b.length < 2^62) :
    bytes (between done (encodeVarint b.length++(b++todo))) =
      .ok (b, between (done++encodeVarint b.length++b) todo) := by
  rw [bytes, varint_between, Nat.mod_eq_of_lt h]
  simp [between, bind, Except.bind, ← Nat.add_assoc]

end Reader

namespace AuthRequest

def encode (a : AuthRequest) : Bytes :=
  encodeVarint a.version ++ [a.authMethod] ++
  encodeVarint a.clientNonce.length ++ a.clientNonce ++
  encodeVarint a.authProof.length ++ a.authProof ++
  encodeVarint a.ccRx ++ [a.features] ++
  encodeVarint a.padding.length ++ a.padding

def decode (buf : Bytes) : Result (AuthRequest × ℕ) := do
  let (version,rd) ← (Reader.new buf).varint
  let (authMethod,rd) ← rd.u8
  let (clientNonce,rd) ← rd.bytes
  let (authProof,rd) ← rd.bytes
  let (ccRx,rd) ← rd.varint
  let (features,rd) ← rd.u8
  let (padding,rd) ← rd.bytes
  return (⟨version,authMethod,clientNonce,authProof,ccRx,features,padding⟩, rd.pos)

def Encodable (a : AuthRequest) : Prop :=
  a.clientNonce.length < 2^62 ∧ a.authProof.length < 2^62 ∧ a.padding.length < 2^62

def received (a : AuthRequest) : AuthRequest :=
  { a with version := a.version%2^62, ccRx := a.ccRx%2^62 }

theorem decode_encode (a : AuthRequest) (rest : Bytes) (h : a.Encodable) :
    decode (a.encode++rest) = .ok (a.received, a.encode.length) := by
  obtain ⟨hn,hp,hd⟩ := h
  simp only [decode, encode, List.append_assoc, List.cons_append, List.nil_append, Reader.new_eq,
    Reader.varint_between, Reader.u8_between, Reader.bytes_between _ _ _ hn,
    Reader.bytes_between _ _ _ hp, Reader.bytes_between _ _ _ hd, bind, Except.bind, pure,
    Except.pure, received]
  simp [Reader.between]

end AuthRequest

namespace AuthResponse

def encode (a : AuthResponse) : Bytes :=
  [a.status, a.errorCode] ++
  encodeVarint a.message.length ++ a.message ++
  encodeVarint a.serverCcRx ++ [a.serverFeatures] ++
  encodeVarint a.padding.length ++ a.padding

def decode (buf : Bytes) : Result (AuthResponse × ℕ) := do
  let (status,rd) ← (Reader.new buf).u8
  let (errorCode,rd) ← rd.u8
  let (message,rd) ← rd.bytes
  let (serverCcRx,rd) ← rd.varint
  let (serverFeatures,rd) ← rd.u8
  let (padding,rd) ← rd.bytes
  return (⟨status,errorCode,message,serverCcRx,serverFeatures,padding⟩, rd.pos)

def Encodable (a : AuthResponse) : Prop :=
  a.message.length < 2^62 ∧ a.padding.length < 2^62

def received (a : AuthResponse) : AuthResponse :=
  { a with serverCcRx := a.serverCcRx%2^62 }

theorem decode_encode (a : AuthResponse) (rest : Bytes) (h : a.Encodable) :
    decode (a.encode++rest) = .ok (a.received, a.encode.length) := by
  obtain ⟨hm,hd⟩ := h
  simp only [decode, encode, List.append_assoc, List.cons_append, List.nil_append, Reader.new_eq,
    Reader.varint_between, Reader.u8_between, Reader.bytes_between _ _ _ hm,
    Reader.bytes_between _ _ _ hd, bind, Except.bind, pure, Except.pure, received]
  simp [Reader.between]

end AuthResponse

namespace OpenStream

def encode (m : OpenStream) : Bytes := m.address.encode

def decode (buf : Bytes) : Result (OpenStream × ℕ) := do
  let (address,used) ← Address.decode buf
  return (⟨address⟩, used)

end OpenStream

namespace OpenStreamAck

def ok : OpenStreamAck := ⟨statusOk,errNone,[]⟩

def errorWithCode (errorCode : UInt8) (msg : Bytes) : OpenStreamAck := ⟨statusErr,errorCode,msg⟩

def encode (a : OpenStreamAck) : Bytes :=
  [a.status, a.errorCode] ++ encodeVarint a.message.length ++ a.message

def decode (buf : Bytes) : Result (OpenStreamAck × ℕ) := do
  let (status,rd) ← (Reader.new buf).u8
  let (errorCode,rd) ← rd.u8
  let (message,rd) ← rd.bytes
  return (⟨status,errorCode,message⟩, rd.pos)

theorem decode_encode (a : OpenStreamAck) (rest : Bytes) (h : a.message.length < 2^62) :
    decode (a.encode++rest) = .ok (a, a.encode.length) := by
  simp only [decode, encode, List.append_assoc, List.cons_append, List.nil_append, Reader.new_eq,
    Reader.u8_between, Reader.bytes_between _ _ _ h, bind, Except.bind, pure, Except.pure]
  simp [Reader.between]

end OpenStreamAck

namespace Datagram

def encode (d : Datagram) : Bytes :=
  toBytes 4 d.sessionId.toNat ++ toBytes 2 d.packetId.toNat ++ [d.fragId, d.fragCount] ++
  d.address.encode ++ d.payload

def decode (buf : Bytes) : Result (Datagram × ℕ) := do
  if buf.length < 8 then .error .unexpectedEof
  else
    let (address,used) ← Address.decode (buf.drop 8)
    return ({
      sessionId := UInt32.ofNat (ofBytes (buf.take 4))
      packetId := UInt16.ofNat (ofBytes ((buf.drop 4).take 2))
      fragId := buf.getD 6 0
      fragCount := buf.getD 7 0
      address := address
      payload := buf.drop (8+used) }, buf.length)

end Datagram
end Message
end Hydr
