import Mathlib
import Hydr.Message

/-!
# WebSocket frames

The multiplexing header of the WebSocket transport. The limit on the body is
enforced by the decoder only, so a frame survives the wire exactly when its
body is within the limit.
-/

set_option autoImplicit false

namespace Hydr

structure Frame where
  streamId : ℕ
  frameType : UInt8
  body : Bytes
  deriving DecidableEq

namespace Frame
open Varint

def frameOpenStream : UInt8 := 0x01
def frameOpenStreamAck : UInt8 := 0x02
def frameStreamData : UInt8 := 0x03
def frameStreamClose : UInt8 := 0x04
def frameDatagram : UInt8 := 0x05
def framePing : UInt8 := 0x06
def framePong : UInt8 := 0x07
def frameAuthRequest : UInt8 := 0x08
def frameAuthResponse : UInt8 := 0x09
def frameStreamCredit : UInt8 := 0x0b

def controlStream : ℕ := 0

def maxBodyLen : ℕ := 64*1024

def data (streamId : ℕ) (body : Bytes) : Frame := ⟨streamId,frameStreamData,body⟩

def ping : Frame := ⟨controlStream,framePing,[]⟩

def encode (f : Frame) : Bytes :=
  encodeVarint f.streamId ++ [f.frameType] ++ encodeVarint f.body.length ++ f.body

/-- The lengths are below `2 ^ 62`, so the checked addition cannot overflow. -/
def decode (buf : Bytes) : Result (Frame × ℕ) := do
  let (streamId,pos) ← decodeVarint buf
  match buf[pos]? with
  | none => .error .unexpectedEof
  | some frameType =>
    let (bodyLen,used) ← decodeVarint (buf.drop (pos+1))
    let start := pos+1+used
    if maxBodyLen < bodyLen then .error (.invalidData "frame body too large")
    else if buf.length < start+bodyLen then .error .unexpectedEof
    else .ok (⟨streamId,frameType,(buf.drop start).take bodyLen⟩, start+bodyLen)

def received (f : Frame) : Frame := { f with streamId := f.streamId%2^62 }

def layout (f : Frame) (rest : Bytes) : Bytes :=
  encodeVarint f.streamId++f.frameType::(encodeVarint f.body.length++(f.body++rest))

theorem encode_append (f : Frame) (rest : Bytes) : f.encode++rest = layout f rest := by
  simp [encode, layout]

theorem layout_type (f : Frame) (rest : Bytes) :
    (layout f rest)[encodeVarintLen f.streamId]? = some f.frameType := by
  simp [layout, ← encodeVarint_length]

theorem layout_length_field (f : Frame) (rest : Bytes) :
    (layout f rest).drop (encodeVarintLen f.streamId+1) =
      encodeVarint f.body.length++(f.body++rest) := by
  rw [← encodeVarint_length, ← List.drop_drop, layout, List.drop_left]
  rfl

theorem layout_body (f : Frame) (rest : Bytes) :
    (layout f rest).drop (encodeVarintLen f.streamId+1+encodeVarintLen f.body.length) =
      f.body++rest := by
  rw [← List.drop_drop, layout_length_field, ← encodeVarint_length, List.drop_left]

theorem layout_length (f : Frame) (rest : Bytes) :
    (layout f rest).length =
      encodeVarintLen f.streamId+1+encodeVarintLen f.body.length+f.body.length+rest.length := by
  simp [layout]
  omega

theorem decode_encode (f : Frame) (rest : Bytes) (h : f.body.length ≤ maxBodyLen) :
    decode (f.encode++rest) = .ok (f.received, f.encode.length) := by
  have hb : f.body.length < 2^62 := lt_of_le_of_lt h (by decide)
  have hv : decodeVarint (layout f rest) = .ok (f.streamId%2^62, encodeVarintLen f.streamId) :=
    Varint.decode_encode _ _
  have hl : f.encode.length =
      encodeVarintLen f.streamId+1+encodeVarintLen f.body.length+f.body.length := by
    have := layout_length f []
    rwa [← encode_append, List.append_nil] at this
  simp only [encode_append, decode, hv, bind, Except.bind, layout_type, layout_length_field,
    Varint.decode_encode_small _ _ hb, if_neg (not_lt_of_ge h), layout_body, List.take_left]
  rw [if_neg (by rw [layout_length]; omega), hl]
  rfl

theorem decode_large (f : Frame) (rest : Bytes) (h : maxBodyLen < f.body.length)
    (hb : f.body.length < 2^62) :
    decode (f.encode++rest) = .error (.invalidData "frame body too large") := by
  have hv : decodeVarint (layout f rest) = .ok (f.streamId%2^62, encodeVarintLen f.streamId) :=
    Varint.decode_encode _ _
  simp only [encode_append, decode, hv, bind, Except.bind, layout_type, layout_length_field,
    Varint.decode_encode_small _ _ hb, if_pos h]

/-- A frame comes back with its type; its body may be cut, if it is longer than
a length can say, and its id comes back modulo `2 ^ 62`. -/
theorem decode_any (f : Frame) :
    (∃ err, decode f.encode = .error err) ∨ ∃ n, decode f.encode =
      .ok (⟨f.streamId%2^62,f.frameType,f.body.take (f.body.length%2^62)⟩,n) := by
  have he := encode_append f []
  rw [List.append_nil] at he
  have hv : decodeVarint (layout f []) =
      .ok (f.streamId%2^62,encodeVarintLen f.streamId) := Varint.decode_encode _ _
  simp only [he, decode, hv, bind, Except.bind, layout_type, layout_length_field,
    Varint.decode_encode, layout_body, List.append_nil]
  split_ifs with h1 h2
  · exact Or.inl ⟨_,rfl⟩
  · exact Or.inl ⟨_,rfl⟩
  · exact Or.inr ⟨_,rfl⟩

end Frame
end Hydr
