import Mathlib
import Hydr.QuicHandshake
import Hydr.WsGate

/-!
# What the client takes for success

The server's answers to the handshake and to a request for a stream are read
over QUIC and over WebSocket by code of their own. Over QUIC everything but the
error status is a success, over WebSocket nothing but the OK status is, so that
the transports part on a status that the protocol does not know.
-/

set_option autoImplicit false

namespace Hydr
open Message

namespace Quic

def awaitAck (recv : Bytes) : Result Bytes := do
  let (ack,recv) ← readMessage OpenStreamAck.decode recv
  if ack.status = statusErr then
    .error (.message (ascii ("[code "++toString ack.errorCode.toNat++"] ")++
      Address.fromUtf8Lossy ack.message))
  else .ok recv

def QuicTunnel.openStream (address : Address) (recv : Bytes) : Bytes × Result Bytes :=
  (writeLenPrefixed (OpenStream.mk address).encode,awaitAck recv)

def TunnelHandle.openStream (address : Address) (recv : Bytes) : Bytes × Result Bytes :=
  (writeLenPrefixed (OpenStream.mk address).encode,awaitAck recv)

theorem readMessage_body {T : Type} (decode : Bytes → Result (T × ℕ)) (body rest : Bytes)
    (hl : body.length < 2^62) : readMessage decode (writeLenPrefixed body++rest) =
      (decode body).map fun p => (p.1,rest) := by
  cases hd : decode body with
  | ok p => exact readMessage_write decode body rest p.1 p.2 hl hd
  | error e =>
    simp only [readMessage, writeLenPrefixed, List.append_assoc, readVarint_write,
      Nat.mod_eq_of_lt hl, readExact_append, hd, bind, Except.bind]
    rfl

theorem clientHandshake_body (body rest : Bytes) (hl : body.length < 2^62) :
    (clientHandshake (writeLenPrefixed body++rest)).isOk = true ↔
      ∃ resp n, AuthResponse.decode body = .ok (resp,n) ∧ resp.status ≠ statusErr := by
  rw [clientHandshake, readMessage_body _ body rest hl]
  cases hd : AuthResponse.decode body with
  | error e => simp [Except.map, bind, Except.bind, Except.isOk, Except.toBool]
  | ok p =>
    obtain ⟨resp,n⟩ := p
    by_cases hs : resp.status = statusErr <;>
      simp [Except.map, bind, Except.bind, hs, Except.isOk, Except.toBool]

theorem awaitAck_body (body rest : Bytes) (hl : body.length < 2^62) :
    (awaitAck (writeLenPrefixed body++rest)).isOk = true ↔
      ∃ ack n, OpenStreamAck.decode body = .ok (ack,n) ∧ ack.status ≠ statusErr := by
  rw [awaitAck, readMessage_body _ body rest hl]
  cases hd : OpenStreamAck.decode body with
  | error e => simp [Except.map, bind, Except.bind, Except.isOk, Except.toBool]
  | ok p =>
    obtain ⟨ack,n⟩ := p
    by_cases hs : ack.status = statusErr <;>
      simp [Except.map, bind, Except.bind, hs, Except.isOk, Except.toBool]

end Quic

namespace Ws

def connectWithTls (e : Endpoint) : Option (Result Unit) :=
  match e.authResponse with
  | .armed => none
  | .absent => some (.error .streamClosed)
  | .sent resp => some (do
    let resp ← resp
    if resp.status ≠ statusOk then .error (.message (Address.fromUtf8Lossy resp.message)) else .ok ())

section
variable (b3 : Blake3) (q : Queues) (e : Endpoint) (validate : AuthRequest → Result AuthResponse)
  (msg : WsMessage) (body : Bytes)

theorem receive_heard (f : Frame) (hh : hears b3 e.obfuscation msg = some f) :
    ∃ ob, e.receive b3 q validate msg = { e with obfuscation := ob }.handleFrame validate f := by
  rcases Endpoint.receive_cases b3 q e validate msg with ⟨g,ob,hg,hr⟩ | ⟨hn,-⟩
  · obtain rfl := Option.some.inj (hg.symm.trans hh)
    exact ⟨ob,hr⟩
  · rw [hn] at hh
    cases hh

theorem connect_body (ha : e.authResponse = .armed)
    (hh : hears b3 e.obfuscation msg = some ⟨0,Frame.frameAuthResponse,body⟩) :
    ∃ r, connectWithTls (e.receive b3 q validate msg) = some r ∧ (r.isOk = true ↔
      ∃ resp n, AuthResponse.decode body = .ok (resp,n) ∧ resp.status = statusOk) := by
  obtain ⟨ob,hr⟩ := receive_heard b3 q e validate msg _ hh
  have hk : kind Frame.frameAuthResponse = .authResponse := by decide
  simp only [hr, Endpoint.handleFrame, hk, Endpoint.handleAuthResponse, ha, connectWithTls,
    beq_self_eq_true]
  refine ⟨_,rfl,?_⟩
  cases hd : AuthResponse.decode body with
  | error e => simp [Except.map, bind, Except.bind, Except.isOk, Except.toBool]
  | ok p =>
    obtain ⟨resp,n⟩ := p
    by_cases hs : resp.status = statusOk <;>
      simp [Except.map, bind, Except.bind, hs, Except.isOk, Except.toBool]

theorem told_body (id : ℕ) (hp : id ∈ e.pending)
    (hh : hears b3 e.obfuscation msg = some ⟨id,Frame.frameOpenStreamAck,body⟩) :
    ∃ r, (e.receive b3 q validate msg).opened id = e.opened id++[r] ∧ (r.isOk = true ↔
      ∃ ack n, OpenStreamAck.decode body = .ok (ack,n) ∧ ack.status = statusOk) := by
  obtain ⟨ob,hr⟩ := receive_heard b3 q e validate msg _ hh
  have hk : kind Frame.frameOpenStreamAck = .openStreamAck := by decide
  simp only [hr, Endpoint.handleFrame, hk, Endpoint.handleOpenStreamAck, hp, if_true]
  cases hd : OpenStreamAck.decode body with
  | error err => exact ⟨.error err,by simp,by simp [Except.isOk, Except.toBool]⟩
  | ok p =>
    obtain ⟨ack,n⟩ := p
    by_cases hs : ack.status = statusOk
    · exact ⟨.ok (),by simp [hs],by simp [hs, Except.isOk, Except.toBool]⟩
    · exact ⟨.error (.message (Address.fromUtf8Lossy ack.message)),by simp [hs],
        by simp [hs, Except.isOk, Except.toBool]⟩

end

end Ws

section
variable (body : Bytes)

def HandshakesAgree : Prop :=
  ∀ (rest : Bytes) (b3 : Blake3) (q : Ws.Queues) (e : Ws.Endpoint)
    (validate : AuthRequest → Result AuthResponse) (msg : Ws.WsMessage),
    e.control = .select → e.authResponse = .armed →
    Ws.hears b3 e.obfuscation msg = some ⟨0,Frame.frameAuthResponse,body⟩ →
      ∃ r, Ws.connectWithTls (e.receive b3 q validate msg) = some r ∧
        (r.isOk = true ↔ (Quic.clientHandshake (Quic.writeLenPrefixed body++rest)).isOk = true)

def OpensAgree : Prop :=
  ∀ (address : Address) (rest : Bytes) (b3 : Blake3) (q : Ws.Queues) (e : Ws.Endpoint)
    (validate : AuthRequest → Result AuthResponse) (msg : Ws.WsMessage) (id : ℕ),
    e.control = .select → id ∈ e.pending →
    Ws.hears b3 e.obfuscation msg = some ⟨id,Frame.frameOpenStreamAck,body⟩ →
      ∃ r, (e.receive b3 q validate msg).opened id = e.opened id++[r] ∧
        (r.isOk = true ↔
          (Quic.QuicTunnel.openStream address (Quic.writeLenPrefixed body++rest)).2.isOk = true) ∧
        (r.isOk = true ↔
          (Quic.TunnelHandle.openStream address (Quic.writeLenPrefixed body++rest)).2.isOk = true)

def Known (status : UInt8) : Prop := status = statusOk ∨ status = statusErr

variable {T : Type} (decode : Bytes → Result (T × ℕ)) (status : T → UInt8)

/-- The two tests of a status accept the same bodies exactly when it is a known one. -/
theorem tests_agree_iff : ((∃ m n, decode body = .ok (m,n) ∧ status m = statusOk) ↔
      ∃ m n, decode body = .ok (m,n) ∧ status m ≠ statusErr) ↔
    ∀ m n, decode body = .ok (m,n) → Known (status m) := by
  cases hd : decode body with
  | error e => simp
  | ok p =>
    obtain ⟨m,n⟩ := p
    have hne : statusOk ≠ statusErr := by decide
    by_cases ho : status m = statusOk <;> by_cases he : status m = statusErr <;>
      simp_all [Known]

end

theorem hears_plain (b3 : Blake3) (f : Frame) (hi : f.streamId < 2^62)
    (hb : f.body.length ≤ Frame.maxBodyLen) :
    Ws.hears b3 none (.binary f.encode) = some f := by
  have hd := f.decode_encode [] hb
  rw [List.append_nil, Frame.received, Nat.mod_eq_of_lt hi] at hd
  simp [Ws.hears, Ws.inbound, hd, Except.toOption]

def freshClient : Ws.Endpoint := .client (.newPassword copyHash [] 0 0 []) none

def waitingClient : Ws.Endpoint := { freshClient with pending := {1} }

theorem handshakesAgree_iff (body : Bytes) (hb : body.length ≤ Frame.maxBodyLen) :
    HandshakesAgree body ↔ ∀ resp n, AuthResponse.decode body = .ok (resp,n) →
      Known resp.status := by
  have hl : body.length < 2^62 := lt_of_le_of_lt hb (by decide)
  rw [← tests_agree_iff body AuthResponse.decode AuthResponse.status]
  constructor
  · intro h
    have hh := hears_plain copyHash ⟨0,Frame.frameAuthResponse,body⟩ (by norm_num) hb
    obtain ⟨r,hr,hq⟩ := h [] copyHash .source freshClient (fun _ => .error .io) _ rfl rfl hh
    obtain ⟨r',hr',hw⟩ := Ws.connect_body copyHash .source freshClient (fun _ => .error .io) _
      body rfl hh
    obtain rfl := Option.some.inj (hr.symm.trans hr')
    exact hw.symm.trans (hq.trans (Quic.clientHandshake_body body [] hl))
  · intro h rest b3 q e validate msg _ ha hh
    obtain ⟨r,hr,hw⟩ := Ws.connect_body b3 q e validate msg body ha hh
    exact ⟨r,hr,hw.trans (h.trans (Quic.clientHandshake_body body rest hl).symm)⟩

theorem opensAgree_iff (body : Bytes) (hb : body.length ≤ Frame.maxBodyLen) :
    OpensAgree body ↔ ∀ ack n, OpenStreamAck.decode body = .ok (ack,n) → Known ack.status := by
  have hl : body.length < 2^62 := lt_of_le_of_lt hb (by decide)
  rw [← tests_agree_iff body OpenStreamAck.decode OpenStreamAck.status]
  constructor
  · intro h
    have hh := hears_plain copyHash ⟨1,Frame.frameOpenStreamAck,body⟩ (by norm_num) hb
    have hp : 1 ∈ waitingClient.pending := Finset.mem_singleton_self 1
    obtain ⟨r,hr,hq,-⟩ := h (.domain [] 0) [] copyHash .source waitingClient
      (fun _ => .error .io) _ 1 rfl hp hh
    obtain ⟨r',hr',hw⟩ := Ws.told_body copyHash .source waitingClient (fun _ => .error .io) _
      body 1 hp hh
    obtain rfl := List.singleton_inj.mp (List.append_cancel_left (hr.symm.trans hr'))
    exact hw.symm.trans (hq.trans (Quic.awaitAck_body body [] hl))
  · intro h address rest b3 q e validate msg id _ hp hh
    obtain ⟨r,hr,hw⟩ := Ws.told_body b3 q e validate msg body id hp hh
    have hq := hw.trans (h.trans (Quic.awaitAck_body body rest hl).symm)
    exact ⟨r,hr,hq,hq⟩

/-- The transports take an answer for the same exactly when its status is a known
one, or it cannot be read at all. -/
theorem acceptance_iff (body : Bytes) (hb : body.length ≤ Frame.maxBodyLen) :
    (HandshakesAgree body ↔
      ∀ resp n, AuthResponse.decode body = .ok (resp,n) → Known resp.status) ∧
    (OpensAgree body ↔ ∀ ack n, OpenStreamAck.decode body = .ok (ack,n) → Known ack.status) :=
  ⟨handshakesAgree_iff body hb,opensAgree_iff body hb⟩

theorem refusal_acceptance : HandshakesAgree (AuthResponse.error []).encode ∧
    OpensAgree (OpenStreamAck.errorWithCode errConnectFailed []).encode :=
  ⟨(acceptance_iff (AuthResponse.error []).encode (by decide)).1.mpr (by
      intro resp n h
      cases h
      exact Or.inr rfl),
    (acceptance_iff (OpenStreamAck.errorWithCode errConnectFailed []).encode (by decide)).2.mpr (by
      intro ack n h
      cases h
      exact Or.inr rfl)⟩

/-- An answer with the status 2 makes a connection over QUIC only. -/
theorem unknown_status_divides :
    ¬∀ body : Bytes, body.length ≤ Frame.maxBodyLen → HandshakesAgree body ∧ OpensAgree body := by
  intro h
  have hk := (handshakesAgree_iff [2,0,0,0,0,0] (by decide)).mp (h [2,0,0,0,0,0] (by decide)).1
    ⟨2,0,[],0,0,[]⟩ 6 rfl
  exact absurd hk (by unfold Known; decide)

end Hydr
