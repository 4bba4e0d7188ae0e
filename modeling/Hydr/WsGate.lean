import Mathlib
import Hydr.WsLoop
import Hydr.Library.Transition

/-!
# The authentication gate

Which requests reach the validator, and what its answers change: the handshake
of the control stream, the set of sessions, the record of verdicts. Every other
step leaves the gate as it is, but for the end of the loop, which drops the
handshake.
-/

set_option autoImplicit false

namespace Hydr.Ws
open Message Varint Hydr.Stream Transition

def hears (b3 : Blake3) (ob : Option Obfuscator) : WsMessage → Option Frame
  | .binary bytes =>
    match (inbound b3 bytes ob).1 with
    | .frame bytes => (Frame.decode bytes).toOption.map Prod.fst
    | _ => none
  | _ => none

def Accepted (resp : Result AuthResponse) : Prop := ∃ r, resp = .ok r ∧ r.status = statusOk

instance (resp : Result AuthResponse) : Decidable (Accepted resp) :=
  match resp with
  | .ok r => decidable_of_iff (r.status = statusOk) (by simp [Accepted])
  | .error _ => isFalse (by rintro ⟨_,h,-⟩; cases h)

namespace Endpoint

structure Gate where
  auth : Bool
  sessions : Option (Finset ℕ)
  serverAuthDone : Oneshot AuthRequest
  verdicts : List (ℕ × Result AuthResponse)

def gate (e : Endpoint) : Gate := ⟨e.auth,e.sessions,e.serverAuthDone,e.verdicts⟩

@[simp] theorem setHalf_gate (e : Endpoint) (id : ℕ) (h : Half Bytes) :
    (e.setHalf id h).gate = e.gate := rfl

@[simp] theorem setControl_gate (e : Endpoint) (c : Control) :
    (e.setControl c).gate = e.gate := rfl

@[simp] theorem respond_gate (e : Endpoint) (f : Frame) : (e.respond f).gate = e.gate := rfl

@[simp] theorem told_gate (e : Endpoint) (id : ℕ) (r : Result Unit) :
    (e.told id r).gate = e.gate := rfl

@[simp] theorem wait_gate (e : Endpoint) (c : Cmd) : (e.wait c).gate = e.gate := rfl

@[simp] theorem queue_gate (e : Endpoint) (c : Cmd) : (e.queue c).gate = e.gate := rfl

@[simp] theorem queueTask_gate (e : Endpoint) (id : ℕ) (f : Option (StreamFrame Bytes)) :
    (e.queueTask id f).gate = e.gate := by cases f <;> rfl

@[simp] theorem after_gate (e : Endpoint) (a : After) : (e.after a).gate = e.gate := by
  cases a <;> rfl

def asked (b3 : Blake3) (e : Endpoint) : Act → Option (ℕ × AuthRequest × Result AuthResponse)
  | .receive validate msg =>
    match hears b3 e.obfuscation msg with
    | some f =>
      if e.auth ∧ kind f.frameType = .authRequest then
        (AuthRequest.decode f.body).toOption.map fun p => (f.streamId,p.1,validate p.1)
      else none
    | none => none
  | _ => none

/-- What a message does: its frame is handled, or the loop ends, or at most a
pong is queued. -/
theorem receive_cases (b3 : Blake3) (q : Queues) (e : Endpoint)
    (validate : AuthRequest → Result AuthResponse) (msg : WsMessage) :
    (∃ f ob, hears b3 e.obfuscation msg = some f ∧
      e.receive b3 q validate msg = { e with obfuscation := ob }.handleFrame validate f) ∨
    (hears b3 e.obfuscation msg = none ∧
      ((∃ ob, e.receive b3 q validate msg = { e with obfuscation := ob }.endLoop) ∨
       ∃ ob frames, e.receive b3 q validate msg =
        { e with obfuscation := ob, frames := e.frames++frames })) := by
  cases msg with
  | binary bytes =>
    simp only [hears, receive]
    rcases inbound b3 bytes e.obfuscation with ⟨_ | _ | _,ob⟩
    · rename_i bytes
      cases hd : Frame.decode bytes with
      | ok p => exact Or.inl ⟨p.1,ob,by simp [Except.toOption, hd],by simp [hd]⟩
      | error _ => exact Or.inr ⟨by simp [Except.toOption, hd],Or.inl ⟨ob,by simp [hd]⟩⟩
    · exact Or.inr ⟨rfl,Or.inr ⟨ob,[],by simp⟩⟩
    · exact Or.inr ⟨rfl,Or.inl ⟨ob,rfl⟩⟩
  | ping payload =>
    refine Or.inr ⟨rfl,Or.inr ⟨e.obfuscation,?_⟩⟩
    simp only [receive]
    split_ifs
    · exact ⟨_,rfl⟩
    · exact ⟨[],by simp⟩
  | other => exact Or.inr ⟨rfl,Or.inr ⟨e.obfuscation,[],by simp [receive]⟩⟩

theorem handleFrame_gate (e : Endpoint) (validate : AuthRequest → Result AuthResponse) (f : Frame)
    (hk : kind f.frameType ≠ .authRequest) : (e.handleFrame validate f).gate = e.gate := by
  cases hf : kind f.frameType with
  | authRequest => exact absurd hf hk
  | authResponse =>
    simp only [handleFrame, hf, handleAuthResponse]
    split
    · rfl
    · split
      · split_ifs <;> rfl
      · rfl
  | openStream =>
    simp only [handleFrame, hf, handleOpenStream]
    split_ifs
    · rfl
    · split <;> rfl
  | openStreamAck =>
    simp only [handleFrame, hf, handleOpenStreamAck]
    split_ifs
    · split
      · split_ifs <;> rfl
      · rfl
    · rfl
  | streamCredit =>
    simp only [handleFrame, hf, handleStreamCredit]
    split
    · split
      · split <;> rfl
      · rfl
    · rfl
  | datagram =>
    simp only [handleFrame, hf, handleDatagram]
    split_ifs
    · rfl
    · split <;> rfl
  | streamData | streamClose | ping | other =>
    simp only [handleFrame, hf, setHalf_gate, respond_gate]

def Gate.judged (g : Gate) (id : ℕ) (req : AuthRequest) (resp : Result AuthResponse) : Gate :=
  { g with
    verdicts := g.verdicts++[(id,resp)]
    serverAuthDone := if id = 0 then g.serverAuthDone.send req else g.serverAuthDone
    sessions :=
      if id ≠ 0 ∧ Accepted resp then g.sessions.map (insert id) else g.sessions }

theorem judged_gate (e : Endpoint) (id : ℕ) (req : AuthRequest) (resp : Result AuthResponse) :
    (e.judged id req resp).gate = e.gate.judged id req resp := by
  unfold judged
  by_cases h0 : id = 0
  · simp [Gate.judged, gate, h0]
  · simp only [h0, if_false]
    cases hs : e.sessions with
    | none => simp [Gate.judged, gate, h0, hs]
    | some sessions =>
      cases resp with
      | error _ => simp [Gate.judged, gate, h0, hs, Accepted]
      | ok r => by_cases hr : r.status = statusOk <;>
          simp [Gate.judged, gate, h0, hs, hr, Accepted]

theorem handleAuthRequest_gate (e : Endpoint) (validate : AuthRequest → Result AuthResponse)
    (f : Frame) :
    (e.handleAuthRequest validate f).gate =
      match e.auth, AuthRequest.decode f.body with
      | true, .ok (req,_) => e.gate.judged f.streamId req (validate req)
      | _, _ => e.gate := by
  unfold handleAuthRequest
  cases ha : e.auth
  · rfl
  · cases hd : AuthRequest.decode f.body with
    | ok p => exact judged_gate ..
    | error _ => rfl

/-- The gate changes by a verdict, or by the end of the loop, or not at all. -/
theorem step_gate (b3 : Blake3) (q : Queues) (e t : Endpoint) (a : Act)
    (h : e.step b3 q a = some t) :
    (∃ id req resp, asked b3 e a = some (id,req,resp) ∧ t.gate = e.gate.judged id req resp) ∨
    (asked b3 e a = none ∧ (t.gate = e.gate ∨
      t.gate = { e.gate with serverAuthDone := e.serverAuthDone.dropped })) := by
  cases moves_of_step b3 q e t a h with
  | receive validate msg =>
    rcases receive_cases b3 q e validate msg with ⟨f,ob,hf,ht⟩ | ⟨hf,⟨ob,ht⟩ | ⟨ob,frames,ht⟩⟩
    · rw [ht]
      by_cases hk : kind f.frameType = .authRequest
      · have hg : ({ e with obfuscation := ob } : Endpoint).gate = e.gate := rfl
        simp only [handleFrame, hk, handleAuthRequest_gate, hg]
        cases ha : e.auth
        · exact Or.inr ⟨by simp [asked, hf, ha],Or.inl rfl⟩
        · cases hd : AuthRequest.decode f.body with
          | ok p =>
            exact Or.inl ⟨f.streamId,p.1,validate p.1,
              by simp [asked, hf, ha, hk, hd, Except.toOption],rfl⟩
          | error _ =>
            exact Or.inr ⟨by simp [asked, hf, ha, hk, hd, Except.toOption],Or.inl rfl⟩
      · exact Or.inr ⟨by simp [asked, hf, hk],Or.inl (handleFrame_gate _ validate f hk)⟩
    · rw [ht]
      exact Or.inr ⟨by simp [asked, hf],Or.inr rfl⟩
    · rw [ht]
      exact Or.inr ⟨by simp [asked, hf],Or.inl rfl⟩
  | take c cmds hc hq =>
    cases c with
    | close => exact Or.inr ⟨rfl,Or.inr rfl⟩
    | sendFrame _ | openStream _ _ | replyOpen _ _ => exact Or.inr ⟨rfl,Or.inl rfl⟩
  | pushFail | stop => exact Or.inr ⟨rfl,Or.inr rfl⟩
  | finish after hc => exact Or.inr ⟨rfl,Or.inl (by simp)⟩
  | send id a out f => exact Or.inr ⟨rfl,Or.inl (by simp)⟩
  | recv id a inn f => exact Or.inr ⟨rfl,Or.inl (by simp)⟩
  | openStream | openStreamAs | authenticate | replyOpen | closeTunnel | enter | sendDatagram
  | closeHandle | nextEvent | push | lose | emit | notify | tick | writerTake | write
  | writePong | writerFail => exact Or.inr ⟨rfl,Or.inl rfl⟩

/-- An event is taken from a tunnel that was handed over. -/
theorem step_yielded (b3 : Blake3) (q : Queues) (e t : Endpoint) (a : Act)
    (h : e.step b3 q a = some t) : t.yielded = e.yielded ∨ e.handedOver = true := by
  cases moves_of_step b3 q e t a h with
  | nextEvent event events he hh => exact Or.inr hh
  | receive validate msg =>
    left
    rcases receive_cases b3 q e validate msg with ⟨f,ob,-,ht⟩ | ⟨-,⟨ob,ht⟩ | ⟨ob,frames,ht⟩⟩
    · rw [ht, (handleFrame_keeps ..).yielded]
    · rw [ht]; rfl
    · rw [ht]
  | take c => cases c <;> exact Or.inl rfl
  | finish after => cases after <;> exact Or.inl rfl
  | send id a out f => cases f <;> exact Or.inl rfl
  | recv id a inn f => cases f <;> exact Or.inl rfl
  | openStream | openStreamAs | authenticate | replyOpen | closeTunnel | enter | sendDatagram
  | closeHandle | pushFail | push | lose | emit | notify | tick | stop | writerTake | write
  | writePong | writerFail => exact Or.inl rfl

def Vouched (e : Endpoint) (id : ℕ) : Prop := ∃ resp, (id,resp) ∈ e.verdicts ∧ Accepted resp

theorem handedOver_server (e : Endpoint) (ha : e.auth = true) :
    e.handedOver = true ↔ ∃ req, e.serverAuthDone = .sent req := by
  unfold handedOver
  rw [ha]
  cases e.serverAuthDone <;> simp

theorem step_auth (b3 : Blake3) (q : Queues) (e t : Endpoint) (a : Act)
    (h : e.step b3 q a = some t) : t.auth = e.auth := by
  rcases step_gate b3 q e t a h with ⟨id,req,resp,-,hg⟩ | ⟨-,hg | hg⟩ <;>
    exact congrArg Gate.auth hg

theorem step_verdicts (b3 : Blake3) (q : Queues) (e t : Endpoint) (a : Act)
    (h : e.step b3 q a = some t) :
    t.verdicts = e.verdicts++((asked b3 e a).map fun v => (v.1,v.2.2)).toList := by
  have ht : t.gate.verdicts = t.verdicts := rfl
  have he : e.gate.verdicts = e.verdicts := rfl
  rcases step_gate b3 q e t a h with ⟨id,req,resp,ha,hg⟩ | ⟨ha,hg | hg⟩ <;>
    simp [← ht, ← he, ha, hg, Gate.judged]

theorem vouched_mono (b3 : Blake3) (q : Queues) (e t : Endpoint) (a : Act)
    (h : e.step b3 q a = some t) (id : ℕ) (hv : e.Vouched id) : t.Vouched id := by
  obtain ⟨resp,hm,hr⟩ := hv
  refine ⟨resp,?_,hr⟩
  rw [step_verdicts b3 q e t a h]
  exact List.mem_append_left _ hm

/-- A handed-over end stays so. -/
theorem step_handedOver (b3 : Blake3) (q : Queues) (e t : Endpoint) (a : Act)
    (h : e.step b3 q a = some t) (ha : e.auth = true) (hh : e.handedOver = true) :
    t.handedOver = true := by
  obtain ⟨req,hs⟩ := (handedOver_server e ha).mp hh
  refine (handedOver_server t ((step_auth b3 q e t a h).trans ha)).mpr ⟨req,?_⟩
  have hd : e.gate.serverAuthDone = .sent req := hs
  rcases step_gate b3 q e t a h with ⟨id,req',resp,-,hg⟩ | ⟨-,hg | hg⟩
  · have := congrArg Gate.serverAuthDone hg
    simp only [Gate.judged, hd, Oneshot.send, ite_self] at this
    exact this
  · exact (congrArg Gate.serverAuthDone hg).trans hd
  · have := congrArg Gate.serverAuthDone hg
    simp only [hs, Oneshot.dropped] at this
    exact this

/-- The tunnel goes out at the first request on stream 0, whatever the answer. -/
theorem handed_asked (b3 : Blake3) (q : Queues) (e t : Endpoint) (a : Act)
    (h : e.step b3 q a = some t) (ha : e.auth = true) (hh : e.handedOver = false)
    (ht : t.handedOver = true) :
    ∃ req resp, asked b3 e a = some (0,req,resp) ∧ e.serverAuthDone = .armed := by
  have hn : ∀ req, e.serverAuthDone ≠ .sent req := fun req hs => by
    rw [(handedOver_server e ha).mpr ⟨req,hs⟩] at hh
    cases hh
  obtain ⟨req,hs⟩ := (handedOver_server t ((step_auth b3 q e t a h).trans ha)).mp ht
  have hd : t.gate.serverAuthDone = .sent req := hs
  rcases step_gate b3 q e t a h with ⟨id,req',resp,hq,hg⟩ | ⟨-,hg | hg⟩
  · rw [hg] at hd
    by_cases h0 : id = 0
    · subst h0
      refine ⟨req',resp,hq,?_⟩
      cases hc : e.serverAuthDone with
      | armed => rfl
      | sent r => exact absurd hc (hn r)
      | absent => simp [Gate.judged, gate, hc, Oneshot.send] at hd
    · simp only [Gate.judged, h0, if_false] at hd
      exact absurd hd (hn req)
  · rw [hg] at hd
    exact absurd hd (hn req)
  · rw [hg] at hd
    cases hc : e.serverAuthDone with
    | sent r => exact absurd hc (hn r)
    | armed | absent => simp [hc, Oneshot.dropped] at hd

end Endpoint
end Hydr.Ws
