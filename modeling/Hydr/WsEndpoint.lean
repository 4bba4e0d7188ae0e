import Mathlib
import Hydr.Frame
import Hydr.Obfuscation
import Hydr.StreamFlow

/-!
# One end of a WebSocket connection

The state of a run loop with everything around it: the two bounded queues, the
tables, the writer task, the tasks of every stream, the callers that wait for
room in the command channel, and the events on their way to the application.
What the loop does with a frame is a function of this state; where the source
awaits, the loop is left in a state of its own.
-/

set_option autoImplicit false

namespace Hydr.Ws
open Message Varint Hydr.Stream

inductive Kind where
  | openStream
  | openStreamAck
  | streamData
  | streamClose
  | datagram
  | ping
  | authRequest
  | authResponse
  | streamCredit
  | other
  deriving DecidableEq

def kind (t : UInt8) : Kind :=
  if t = Frame.frameAuthRequest then .authRequest
  else if t = Frame.frameAuthResponse then .authResponse
  else if t = Frame.frameOpenStream then .openStream
  else if t = Frame.frameOpenStreamAck then .openStreamAck
  else if t = Frame.frameStreamData then .streamData
  else if t = Frame.frameStreamCredit then .streamCredit
  else if t = Frame.frameStreamClose then .streamClose
  else if t = Frame.frameDatagram then .datagram
  else if t = Frame.framePing then .ping
  else .other

inductive WsEvent where
  | incomingOpen (streamId : ℕ) (address : Address)
  | datagram (dg : Datagram)
  deriving DecidableEq

inductive Cmd where
  | sendFrame (f : Frame)
  | openStream (id : ℕ) (address : Address)
  | replyOpen (id : ℕ) (ack : OpenStreamAck)
  | close
  deriving DecidableEq

inductive OutMsg where
  | frame (f : Frame)
  | wsPong (payload : Bytes)

inductive WsMessage where
  | binary (bytes : Bytes)
  | ping (payload : Bytes)
  | other

inductive Inbound where
  | frame (bytes : Bytes)
  | drop
  | close

inductive Oneshot (α : Type) where
  | absent
  | armed
  | sent (value : α)

def Oneshot.send {α : Type} (o : Oneshot α) (value : α) : Oneshot α :=
  match o with
  | .armed => .sent value
  | o => o

def Oneshot.dropped {α : Type} : Oneshot α → Oneshot α
  | .armed => .absent
  | o => o

inductive After where
  | nothing
  | pend (id : ℕ)
  | register (id : ℕ)
  deriving DecidableEq

/-- Where the run loop is: at the `select!`, waiting to send a frame or just
after it, waiting to send an event, between the two halves of `grant`, gone. -/
inductive Control where
  | select
  | sending (f : Frame) (after : After)
  | finishing (after : After)
  | eventing (event : WsEvent)
  | granting (id : ℕ)
  | ended

structure Queues where
  cmds : ℕ
  frames : ℕ
  events : ℕ

/-- `OUTBOUND_QUEUE` for commands and frames, and the literal for events. -/
def Queues.source : Queues := ⟨256,256,1024⟩

structure Endpoint where
  control : Control
  cmds : List Cmd
  frames : List OutMsg
  hand : Option OutMsg
  writing : Bool
  half : ℕ → Half Bytes
  pending : Finset ℕ
  nextStreamId : ℕ
  /-- The commands of callers that wait for room. -/
  callers : List Cmd
  obfuscation : Option Obfuscator
  auth : Bool
  sessions : Option (Finset ℕ)
  authResponse : Oneshot (Result AuthResponse)
  serverAuthDone : Oneshot AuthRequest
  pendingAuth : Option (Finset ℕ)
  events : List WsEvent
  /-- The incoming streams that the application has not answered. -/
  offers : List ℕ
  /-- What the callers of `open_stream` and of `authenticate` were told. -/
  opened : ℕ → List (Result Unit)
  authenticated : ℕ → List (Result AuthResponse)
  /-- The validator's answers and the events taken, in order. -/
  verdicts : List (ℕ × Result AuthResponse)
  yielded : List WsEvent

def WsEvent.offer : WsEvent → List ℕ
  | .incomingOpen id _ => [id]
  | .datagram _ => []

def outbound (b3 : Blake3) (salt : Obfuscator.Salt) (f : Frame) (ob : Option Obfuscator) :
    Bytes × Option Obfuscator :=
  match ob with
  | some ob => ((ob.encrypt b3 salt f.encode).1,some (ob.encrypt b3 salt f.encode).2)
  | none => (f.encode,none)

def inbound (b3 : Blake3) (bytes : Bytes) (ob : Option Obfuscator) : Inbound × Option Obfuscator :=
  match ob with
  | some ob =>
    match ob.decryptOutcome b3 bytes with
    | (.ok payload,ob) => (.frame payload,some ob)
    | (.replay,ob) => (.drop,some ob)
    | (.invalid,ob) => (.close,some ob)
  | none => (.frame bytes,none)

namespace Endpoint

def server (mux : Bool) (obfuscation : Option Obfuscator) : Endpoint where
  control := .select
  cmds := []
  frames := []
  hand := none
  writing := true
  half _ := .absent
  pending := ∅
  nextStreamId := 0
  callers := []
  obfuscation := obfuscation
  auth := true
  sessions := if mux then some ∅ else none
  authResponse := .absent
  serverAuthDone := .armed
  pendingAuth := none
  events := []
  offers := []
  opened _ := []
  authenticated _ := []
  verdicts := []
  yielded := []

def client (auth : AuthRequest) (obfuscation : Option Obfuscator) : Endpoint where
  control := .select
  cmds := []
  frames := []
  hand := none
  writing := true
  half _ := .absent
  pending := ∅
  nextStreamId := 0
  callers := [.sendFrame ⟨0,Frame.frameAuthRequest,auth.encode⟩]
  obfuscation := obfuscation
  auth := false
  sessions := none
  authResponse := .armed
  serverAuthDone := .absent
  pendingAuth := some ∅
  events := []
  offers := []
  opened _ := []
  authenticated _ := []
  verdicts := []
  yielded := []

def alive (e : Endpoint) : Bool :=
  match e.control with
  | .ended => false
  | _ => true

def handedOver (e : Endpoint) : Bool :=
  match e.auth, e.serverAuthDone, e.authResponse with
  | true, .sent _, _ => true
  | false, _, .sent (.ok resp) => resp.status == statusOk
  | _, _, _ => false

@[simps] def setHalf (e : Endpoint) (id : ℕ) (h : Half Bytes) : Endpoint :=
  { e with half := Function.update e.half id h }

@[simps] def setControl (e : Endpoint) (c : Control) : Endpoint := { e with control := c }

@[simps] def endLoop (e : Endpoint) : Endpoint :=
  { e with
    control := .ended
    cmds := []
    half := fun id => (e.half id).orphan
    pending := ∅
    opened := fun id =>
      if id ∈ e.pending then e.opened id++[.error .streamClosed] else e.opened id
    authResponse := e.authResponse.send (.error .streamClosed)
    serverAuthDone := e.serverAuthDone.dropped }

def respond (e : Endpoint) (f : Frame) : Endpoint := e.setControl (.sending f .nothing)

@[simps] def told (e : Endpoint) (id : ℕ) (r : Result Unit) : Endpoint :=
  { e with opened := Function.update e.opened id (e.opened id++[r]) }

def unauthenticated (e : Endpoint) (id : ℕ) : Bool :=
  match e.sessions with
  | some sessions => id ≠ 0 ∧ id ∉ sessions
  | none => false

def answer : Result AuthResponse → AuthResponse
  | .ok resp => resp
  | .error err => .error err.text

/-- What a verdict changes: the handshake is delivered whatever it is, a
session is added only on success. -/
def judged (e : Endpoint) (id : ℕ) (req : AuthRequest) (resp : Result AuthResponse) : Endpoint :=
  let e := { e with verdicts := e.verdicts++[(id,resp)] }
  if id = 0 then { e with serverAuthDone := e.serverAuthDone.send req }
  else
    match e.sessions, resp with
    | some sessions, .ok r =>
      if r.status = statusOk then { e with sessions := some (insert id sessions) } else e
    | _, _ => e

def handleAuthRequest (e : Endpoint) (validate : AuthRequest → Result AuthResponse) (f : Frame) :
    Endpoint :=
  if e.auth then
    match AuthRequest.decode f.body with
    | .ok (req,_) =>
      (e.judged f.streamId req (validate req)).respond
        ⟨f.streamId,Frame.frameAuthResponse,(answer (validate req)).encode⟩
    | .error _ =>
      e.respond ⟨f.streamId,Frame.frameAuthResponse,(AuthResponse.error (ascii "bad request")).encode⟩
  else e

def handleAuthResponse (e : Endpoint) (f : Frame) : Endpoint :=
  let resp := (AuthResponse.decode f.body).map Prod.fst
  match f.streamId == 0, e.authResponse with
  | true, .armed => { e with authResponse := .sent resp }
  | _, _ =>
    match e.pendingAuth with
    | some ids =>
      if f.streamId ∈ ids then
        { e with
          pendingAuth := some (ids.erase f.streamId)
          authenticated := Function.update e.authenticated f.streamId
            (e.authenticated f.streamId++[resp]) }
      else e
    | none => e

def refusal : OpenStreamAck :=
  .errorWithCode errProtocol (ascii "session not authenticated")

def handleOpenStream (e : Endpoint) (f : Frame) : Endpoint :=
  if e.unauthenticated f.streamId then
    e.respond ⟨f.streamId,Frame.frameOpenStreamAck,refusal.encode⟩
  else
    match OpenStream.decode f.body with
    | .ok (req,_) => e.setControl (.eventing (.incomingOpen f.streamId req.address))
    | .error _ => e

def handleOpenStreamAck (e : Endpoint) (f : Frame) : Endpoint :=
  if f.streamId ∈ e.pending then
    let e := { e with pending := e.pending.erase f.streamId }
    match OpenStreamAck.decode f.body with
    | .ok (ack,_) =>
      if ack.status = statusOk then (e.setHalf f.streamId .register).told f.streamId (.ok ())
      else e.told f.streamId (.error (.message (Address.fromUtf8Lossy ack.message)))
    | .error err => e.told f.streamId (.error err)
  else e

def handleStreamCredit (e : Endpoint) (f : Frame) : Endpoint :=
  if f.streamId ≠ 0 then
    match decodeVarint f.body with
    | .ok (amt,_) =>
      let e' := e.setHalf f.streamId ((e.half f.streamId).credit amt)
      if (e.half f.streamId).credits then e'.setControl (.granting f.streamId) else e'
    | .error _ => e
  else e

def handleDatagram (e : Endpoint) (f : Frame) : Endpoint :=
  if e.unauthenticated f.streamId then e
  else
    match Datagram.decode f.body with
    | .ok (dg,_) => e.setControl (.eventing (.datagram dg))
    | .error _ => e

def handleFrame (e : Endpoint) (validate : AuthRequest → Result AuthResponse) (f : Frame) :
    Endpoint :=
  match kind f.frameType with
  | .authRequest => e.handleAuthRequest validate f
  | .authResponse => e.handleAuthResponse f
  | .openStream => e.handleOpenStream f
  | .openStreamAck => e.handleOpenStreamAck f
  | .streamData => e.setHalf f.streamId ((e.half f.streamId).deliver f.body)
  | .streamCredit => e.handleStreamCredit f
  | .streamClose => e.setHalf f.streamId (e.half f.streamId).close
  | .datagram => e.handleDatagram f
  | .ping => e.respond ⟨0,Frame.framePong,f.body⟩
  | .other => e

def receive (b3 : Blake3) (q : Queues) (e : Endpoint)
    (validate : AuthRequest → Result AuthResponse) : WsMessage → Endpoint
  | .binary bytes =>
    let (inb,ob) := inbound b3 bytes e.obfuscation
    let e := { e with obfuscation := ob }
    match inb with
    | .frame bytes =>
      match Frame.decode bytes with
      | .ok (f,_) => e.handleFrame validate f
      | .error _ => e.endLoop
    | .drop => e
    | .close => e.endLoop
  | .ping payload =>
    if e.writing ∧ e.frames.length < q.frames then
      { e with frames := e.frames++[.wsPong payload] }
    else e
  | .other => e

structure Keeps (e t : Endpoint) : Prop where
  cmds : t.cmds = e.cmds
  frames : t.frames = e.frames
  hand : t.hand = e.hand
  writing : t.writing = e.writing
  nextStreamId : t.nextStreamId = e.nextStreamId
  callers : t.callers = e.callers
  obfuscation : t.obfuscation = e.obfuscation
  auth : t.auth = e.auth
  events : t.events = e.events
  offers : t.offers = e.offers
  yielded : t.yielded = e.yielded

theorem Keeps.refl (e : Endpoint) : e.Keeps e := by constructor <;> rfl

theorem judged_keeps (e : Endpoint) (id : ℕ) (req : AuthRequest) (resp : Result AuthResponse) :
    e.Keeps (e.judged id req resp) := by
  unfold judged
  dsimp only
  split
  · constructor <;> rfl
  · split
    · split <;> constructor <;> rfl
    · constructor <;> rfl

theorem respond_keeps {e t : Endpoint} (h : e.Keeps t) (f : Frame) : e.Keeps (t.respond f) :=
  ⟨h.cmds,h.frames,h.hand,h.writing,h.nextStreamId,h.callers,h.obfuscation,h.auth,h.events,
    h.offers,h.yielded⟩

section
variable (e : Endpoint) (validate : AuthRequest → Result AuthResponse) (f : Frame)

theorem handleAuthRequest_keeps : e.Keeps (e.handleAuthRequest validate f) := by
  unfold handleAuthRequest
  split
  · split
    · exact respond_keeps (judged_keeps ..) _
    · exact respond_keeps (.refl e) _
  · exact .refl e

theorem handleAuthResponse_keeps : e.Keeps (e.handleAuthResponse f) := by
  unfold handleAuthResponse
  dsimp only
  split
  · constructor <;> rfl
  · split
    · split <;> constructor <;> rfl
    · exact .refl e

theorem handleOpenStream_keeps : e.Keeps (e.handleOpenStream f) := by
  unfold handleOpenStream
  split
  · exact respond_keeps (.refl e) _
  · split <;> constructor <;> rfl

theorem handleOpenStreamAck_keeps : e.Keeps (e.handleOpenStreamAck f) := by
  unfold handleOpenStreamAck
  split
  · dsimp only
    split
    · split <;> constructor <;> rfl
    · constructor <;> rfl
  · exact .refl e

theorem handleStreamCredit_keeps : e.Keeps (e.handleStreamCredit f) := by
  unfold handleStreamCredit
  split
  · split
    · dsimp only
      split <;> constructor <;> rfl
    · exact .refl e
  · exact .refl e

theorem handleDatagram_keeps : e.Keeps (e.handleDatagram f) := by
  unfold handleDatagram
  split
  · exact .refl e
  · split <;> constructor <;> rfl

theorem handleFrame_keeps : e.Keeps (e.handleFrame validate f) := by
  unfold handleFrame
  split
  · exact handleAuthRequest_keeps e validate f
  · exact handleAuthResponse_keeps e f
  · exact handleOpenStream_keeps e f
  · exact handleOpenStreamAck_keeps e f
  · constructor <;> rfl
  · exact handleStreamCredit_keeps e f
  · constructor <;> rfl
  · exact handleDatagram_keeps e f
  · exact respond_keeps (.refl e) _
  · exact .refl e

end

end Endpoint
end Hydr.Ws
