import Mathlib
import Hydr.WsAuthentication
import Hydr.WsClose
import Hydr.WsIntegrity

/-!
# What the client is told is what the validator said

The answer to a request travels back as a frame through the loop, the frame channel,
the writer and the wire. Whatever happens on the way, no other frame answers a
request, so a client that hears of a success has a session at the server.
-/

set_option autoImplicit false

namespace Hydr.Ws
open Message Varint Hydr.Stream Transition

def badRequest : AuthResponse := .error (ascii "bad request")

/-- What comes back of an answer; one that no length can describe may be cut. -/
def Reads (sent heard : AuthResponse) : Prop :=
  heard.status = sent.status ∧ (sent.encode.length < 2^62 → heard = sent.received)

theorem decode_status (b : UInt8) (body : Bytes) (resp : AuthResponse) (n : ℕ)
    (h : AuthResponse.decode (b::body) = .ok (resp,n)) : resp.status = b := by
  obtain ⟨⟨status,rd⟩,hs,h⟩ := ok_of_bind h
  obtain ⟨p,-,h⟩ := ok_of_bind h
  obtain ⟨p,-,h⟩ := ok_of_bind h
  obtain ⟨p,-,h⟩ := ok_of_bind h
  obtain ⟨p,-,h⟩ := ok_of_bind h
  obtain ⟨p,-,h⟩ := ok_of_bind h
  cases h
  cases hs
  rfl

theorem decode_cut (sent heard : AuthResponse) (n : ℕ)
    (h : AuthResponse.decode (sent.encode.take (sent.encode.length%2^62)) = .ok (heard,n)) :
    Reads sent heard := by
  by_cases hl : sent.encode.length < 2^62
  · have he : sent.Encodable := by
      simp only [AuthResponse.encode, List.length_append] at hl
      exact ⟨by omega,by omega⟩
    have hd := sent.decode_encode [] he
    rw [Nat.mod_eq_of_lt hl, List.take_length] at h
    rw [List.append_nil, h] at hd
    cases hd
    exact ⟨rfl,fun _ => rfl⟩
  · refine ⟨?_,fun hn => absurd hn hl⟩
    generalize sent.encode.length%2^62 = k at h
    cases k with
    | zero => cases h
    | succ k => exact decode_status _ _ _ _ h

namespace Endpoint

def Carries (e : Endpoint) (f : Frame) : Prop :=
  f ∈ e.unsent ∨ f ∈ e.control.held ∨ .sendFrame f ∈ e.cmds ∨ .sendFrame f ∈ e.callers

/-- An answer of this end to a request of the stream, given the streams on which it
has heard one that it could not decode. -/
def Says (e : Endpoint) (misheard : ℕ → Prop) (id : ℕ) (sent : AuthResponse) : Prop :=
  misheard id ∧ sent = badRequest ∨ ∃ resp, (id,resp) ∈ e.verdicts ∧ sent = answer resp

def Answers (e : Endpoint) (misheard : ℕ → Prop) (id : ℕ) (body : Bytes) : Prop :=
  ∃ sent, e.Says misheard id sent ∧ body = sent.encode

def Truthful (e : Endpoint) (misheard : ℕ → Prop) (f : Frame) : Prop :=
  kind f.frameType = .authResponse → f.streamId < 2^62 ∧ e.Answers misheard f.streamId f.body

def Undecodable (f : Frame) : Prop :=
  kind f.frameType = .authRequest ∧ ∃ err, AuthRequest.decode f.body = .error err

theorem Carries.of_held {e t : Endpoint} {f : Frame} (h : t.Carries f) (hk : e.Keeps t)
    (hh : f ∈ t.control.held → f ∈ e.control.held) : e.Carries f := by
  rw [Carries, unsent, hk.hand, hk.frames, hk.cmds, hk.callers] at h
  exact h.imp id (Or.imp hh id)

theorem held_respond (e : Endpoint) (f g : Frame) (h : f ∈ (e.respond g).control.held) : f = g :=
  List.mem_singleton.mp h

theorem handleFrame_other (e : Endpoint) (validate : AuthRequest → Result AuthResponse) (g : Frame)
    (hk : kind g.frameType ≠ .authRequest) (f : Frame) (hn : f ∉ e.control.held)
    (hf : f ∈ (e.handleFrame validate g).control.held) : kind f.frameType ≠ .authResponse := by
  unfold handleFrame at hf
  split at hf
  · contradiction
  · unfold handleAuthResponse at hf
    dsimp only at hf
    split at hf
    · exact absurd hf hn
    · split at hf
      · split at hf <;> exact absurd hf hn
      · exact absurd hf hn
  · unfold handleOpenStream at hf
    split at hf
    · obtain rfl := held_respond _ _ _ hf
      simp
    · split at hf
      · cases hf
      · exact absurd hf hn
  · unfold handleOpenStreamAck at hf
    split at hf
    · dsimp only at hf
      split at hf
      · split at hf <;> exact absurd hf hn
      · exact absurd hf hn
    · exact absurd hf hn
  · exact absurd hf hn
  · unfold handleStreamCredit at hf
    split at hf
    · split at hf
      · dsimp only at hf
        split at hf
        · cases hf
        · exact absurd hf hn
      · exact absurd hf hn
    · exact absurd hf hn
  · exact absurd hf hn
  · unfold handleDatagram at hf
    split at hf
    · exact absurd hf hn
    · split at hf
      · cases hf
      · exact absurd hf hn
  · obtain rfl := held_respond _ _ _ hf
    simp
  · exact absurd hf hn

theorem judged_verdicts (e : Endpoint) (id : ℕ) (req : AuthRequest) (resp : Result AuthResponse) :
    (e.judged id req resp).verdicts = e.verdicts++[(id,resp)] :=
  congrArg Gate.verdicts (judged_gate e id req resp)

/-- A request is answered on its own stream, with what the validator says. -/
theorem handleAuthRequest_held (e : Endpoint) (misheard : ℕ → Prop)
    (validate : AuthRequest → Result AuthResponse) (g f : Frame)
    (hm : (∃ err, AuthRequest.decode g.body = .error err) → misheard g.streamId)
    (hn : f ∉ e.control.held) (hf : f ∈ (e.handleAuthRequest validate g).control.held) :
    f.streamId = g.streamId ∧ (e.handleAuthRequest validate g).Answers misheard f.streamId f.body := by
  unfold handleAuthRequest at hf ⊢
  split_ifs at hf ⊢
  · cases hd : AuthRequest.decode g.body with
    | error err =>
      rw [hd] at hf
      obtain rfl := held_respond _ _ _ hf
      exact ⟨rfl,badRequest,Or.inl ⟨hm ⟨err,hd⟩,rfl⟩,rfl⟩
    | ok p =>
      rw [hd] at hf
      obtain rfl := held_respond _ _ _ hf
      refine ⟨rfl,answer (validate p.1),Or.inr ⟨validate p.1,?_,rfl⟩,rfl⟩
      show _ ∈ (e.judged g.streamId p.1 (validate p.1)).verdicts
      rw [judged_verdicts]
      exact List.mem_append_right _ (List.mem_singleton.mpr rfl)
  · exact absurd hf hn

theorem handleFrame_carries (e : Endpoint) (misheard : ℕ → Prop)
    (validate : AuthRequest → Result AuthResponse) (g : Frame)
    (hm : Undecodable g → misheard g.streamId) (hc : e.control = .select) (f : Frame)
    (hf : (e.handleFrame validate g).Carries f) :
    e.Carries f ∨ kind f.frameType ≠ .authResponse ∨
      f.streamId = g.streamId ∧ (e.handleFrame validate g).Answers misheard f.streamId f.body := by
  have hn : f ∉ e.control.held := by simp [hc, Control.held]
  by_cases hh : f ∈ (e.handleFrame validate g).control.held
  · right
    by_cases hk : kind g.frameType = .authRequest
    · simp only [handleFrame, hk] at hh ⊢
      exact Or.inr (handleAuthRequest_held e misheard validate g f (fun hd => hm ⟨hk,hd⟩) hn hh)
    · exact Or.inl (handleFrame_other e validate g hk f hn hh)
  · exact Or.inl (hf.of_held (handleFrame_keeps e validate g) fun h => absurd h hh)

theorem kind_task (id : ℕ) (g : StreamFrame Bytes) :
    kind (taskFrame id g).frameType ≠ .authResponse := by
  cases g <;> simp [taskFrame, Frame.data]

theorem queueTask_carries (e : Endpoint) (id : ℕ) (g : Option (StreamFrame Bytes)) (f : Frame)
    (hf : (e.queueTask id g).Carries f) : e.Carries f ∨ kind f.frameType ≠ .authResponse := by
  cases g with
  | none => exact Or.inl hf
  | some g =>
    rcases hf with hf | hf | hf | hf
    · exact Or.inl (Or.inl hf)
    · exact Or.inl (Or.inr (Or.inl hf))
    · rcases List.mem_append.mp hf with hf | hf
      · exact Or.inl (Or.inr (Or.inr (Or.inl hf)))
      · cases List.mem_singleton.mp hf
        exact Or.inr (kind_task id g)
    · exact Or.inl (Or.inr (Or.inr (Or.inr hf)))

theorem wait_carries (e : Endpoint) (c : Cmd) (f : Frame) (hf : (e.wait c).Carries f) :
    e.Carries f ∨ c = .sendFrame f := by
  rcases hf with hf | hf | hf | hf
  · exact Or.inl (Or.inl hf)
  · exact Or.inl (Or.inr (Or.inl hf))
  · exact Or.inl (Or.inr (Or.inr (Or.inl hf)))
  · rcases List.mem_append.mp hf with hf | hf
    · exact Or.inl (Or.inr (Or.inr (Or.inr hf)))
    · exact Or.inr (List.mem_singleton.mp hf).symm

theorem queue_carries (e : Endpoint) (c : Cmd) (f : Frame) (hf : (e.queue c).Carries f) :
    e.Carries f ∨ c = .sendFrame f := by
  rcases hf with hf | hf | hf | hf
  · exact Or.inl (Or.inl hf)
  · exact Or.inl (Or.inr (Or.inl hf))
  · rcases List.mem_append.mp hf with hf | hf
    · exact Or.inl (Or.inr (Or.inr (Or.inl hf)))
    · exact Or.inr (List.mem_singleton.mp hf).symm
  · exact Or.inl (Or.inr (Or.inr (Or.inr hf)))

theorem setControl_carries (e : Endpoint) (c : Control) (f : Frame) (hf : (e.setControl c).Carries f) :
    e.Carries f ∨ f ∈ c.held := by
  rcases hf with hf | hf | hf | hf
  · exact Or.inl (Or.inl hf)
  · exact Or.inr hf
  · exact Or.inl (Or.inr (Or.inr (Or.inl hf)))
  · exact Or.inl (Or.inr (Or.inr (Or.inr hf)))

theorem endLoop_carries (e : Endpoint) (f : Frame) (hf : e.endLoop.Carries f) : e.Carries f := by
  rcases hf with hf | hf | hf | hf
  · exact Or.inl hf
  · cases hf
  · cases hf
  · exact Or.inr (Or.inr (Or.inr hf))

theorem command_carries (e : Endpoint) (c : Cmd) (f : Frame) (hf : (e.command c).Carries f) :
    e.Carries f ∨ c = .sendFrame f ∨ kind f.frameType ≠ .authResponse := by
  cases c with
  | close => exact Or.inl (endLoop_carries e f hf)
  | sendFrame g =>
    rcases setControl_carries _ _ _ hf with hf | hf
    · exact Or.inl hf
    · cases List.mem_singleton.mp hf
      exact Or.inr (Or.inl rfl)
  | openStream | replyOpen =>
    rcases setControl_carries _ _ _ hf with hf | hf
    · exact Or.inl hf
    · cases List.mem_singleton.mp hf
      exact Or.inr (Or.inr (by simp))

theorem receive_unsent (b3 : Blake3) (q : Queues) (e : Endpoint)
    (validate : AuthRequest → Result AuthResponse) (msg : WsMessage) :
    (e.receive b3 q validate msg).unsent = e.unsent := by
  cases msg with
  | binary bytes =>
    simp only [receive]
    split
    · split
      · rename_i f n hd
        have hk := handleFrame_keeps
          { e with obfuscation := (inbound b3 bytes e.obfuscation).2 } validate f
        rw [unsent, hk.hand, hk.frames]
        rfl
      · rfl
    · rfl
    · rfl
  | ping payload =>
    simp only [receive]
    split_ifs
    · simp [unsent, OutMsg.sent, List.filterMap_append, ← List.append_assoc]
    · rfl
  | other => rfl

/-- An end makes no answer but to a request that it hears. -/
theorem step_carries (b3 : Blake3) (q : Queues) (e t : Endpoint) (a : Act) (misheard : ℕ → Prop)
    (h : e.step b3 q a = some t)
    (hm : ∀ g, heard b3 e a = some g → Undecodable g → misheard g.streamId) (f : Frame)
    (hf : t.Carries f) :
    e.Carries f ∨ kind f.frameType ≠ .authResponse ∨
      ∃ g, heard b3 e a = some g ∧ f.streamId = g.streamId ∧
        t.Answers misheard f.streamId f.body := by
  cases moves_of_step b3 q e t a h with
  | openStream | openStreamAs | replyOpen =>
    rcases wait_carries _ _ _ hf with hf | hf
    · exact Or.inl hf
    · cases hf
  | authenticate | closeTunnel =>
    rcases wait_carries _ _ _ hf with hf | hf
    · exact Or.inl hf
    · cases hf
      exact Or.inr (Or.inl (by simp))
  | enter c hc =>
    rcases queue_carries _ _ _ hf with hf | rfl
    · exact Or.inl (hf.imp id (Or.imp id (Or.imp id List.mem_of_mem_erase)))
    · exact Or.inl (Or.inr (Or.inr (Or.inr hc)))
  | sendDatagram =>
    rcases queue_carries _ _ _ hf with hf | hf
    · exact Or.inl hf
    · cases hf
      exact Or.inr (Or.inl (by simp))
  | closeHandle =>
    rcases queue_carries _ _ _ hf with hf | hf
    · exact Or.inl hf
    · cases hf
  | nextEvent => exact Or.inl hf
  | take c cmds hc hq =>
    rcases command_carries _ _ _ hf with hf | rfl | hk
    · left
      rw [Carries, hq]
      exact hf.imp id (Or.imp id (Or.imp (List.mem_cons_of_mem _) id))
    · left
      rw [Carries, hq]
      exact Or.inr (Or.inr (Or.inl (List.mem_cons_self ..)))
    · exact Or.inr (Or.inl hk)
  | pushFail | stop => exact Or.inl (endLoop_carries e f hf)
  | push g after hc =>
    left
    rcases hf with hf | hf | hf | hf
    · have hf : f ∈ (e.hand.toList++(e.frames++[OutMsg.frame g])).filterMap OutMsg.sent := hf
      rw [← List.append_assoc, List.filterMap_append, List.mem_append] at hf
      rcases hf with hf | hf
      · exact Or.inl hf
      · obtain rfl : f = g := by simpa [OutMsg.sent] using hf
        exact Or.inr (Or.inl (by simp [hc, Control.held]))
    · cases hf
    · exact Or.inr (Or.inr (Or.inl hf))
    · exact Or.inr (Or.inr (Or.inr hf))
  | finish after hc =>
    left
    rcases setControl_carries _ _ _ hf with hf | hf
    · cases after <;> exact hf
    · cases hf
  | receive validate msg hc =>
    rcases receive_cases b3 q e validate msg with ⟨g,ob,hg,ht⟩ | ⟨-,⟨ob,ht⟩ | ⟨ob,frames,ht⟩⟩
    · rw [ht] at hf ⊢
      rcases handleFrame_carries { e with obfuscation := ob } misheard validate g (hm g hg) hc f hf
        with hf | hk | ha
      · exact Or.inl hf
      · exact Or.inr (Or.inl hk)
      · exact Or.inr (Or.inr ⟨g,hg,ha⟩)
    · rw [ht] at hf
      exact Or.inl (endLoop_carries _ f hf)
    · left
      have hu := receive_unsent b3 q e validate msg
      rw [Carries, hu, ht] at hf
      exact hf
  | lose _ hc | emit _ hc =>
    left
    rcases setControl_carries _ _ _ hf with hf | hf
    · exact hf
    · cases hf
  | notify id hc =>
    left
    rcases setControl_carries _ _ _ hf with hf | hf
    · exact hf
    · cases hf
  | tick hc =>
    rcases setControl_carries _ _ _ hf with hf | hf
    · exact Or.inl hf
    · cases List.mem_singleton.mp hf
      exact Or.inr (Or.inl (by decide))
  | writerTake m frames hh hq =>
    left
    have hu : ({ e with hand := some m, frames := frames } : Endpoint).unsent = e.unsent := by
      simp [unsent, hh, hq]
    rw [Carries, hu] at hf
    exact hf
  | write _ _ hh | writePong _ _ hh =>
    left
    refine hf.imp (fun hf => ?_) id
    rw [unsent, hh, Option.toList_some, List.filterMap_append]
    exact List.mem_append_right _ hf
  | writerFail =>
    left
    rcases hf with hf | hf
    · cases hf
    · exact Or.inr hf
  | send id a out g =>
    rcases queueTask_carries _ _ _ _ hf with hf | hk
    · exact Or.inl hf
    · exact Or.inr (Or.inl hk)
  | recv id a inn g =>
    rcases queueTask_carries _ _ _ _ hf with hf | hk
    · exact Or.inl hf
    · exact Or.inr (Or.inl hk)

def Learnt (e : Endpoint) (id : ℕ) (r : Result AuthResponse) : Prop :=
  r ∈ e.authenticated id ∨ id = 0 ∧ e.authResponse = .sent r

def Brought (f : Frame) (id : ℕ) (r : Result AuthResponse) : Prop :=
  kind f.frameType = .authResponse ∧ f.streamId = id ∧ r = (AuthResponse.decode f.body).map Prod.fst

theorem handleAuthResponse_learnt (e : Endpoint) (f : Frame) (hk : kind f.frameType = .authResponse)
    (id : ℕ) (r : Result AuthResponse) (h : (e.handleAuthResponse f).Learnt id r) :
    e.Learnt id r ∨ Brought f id r := by
  unfold handleAuthResponse at h
  dsimp only at h
  split at h
  · rename_i h0 harm
    rcases h with h | ⟨rfl,h⟩
    · exact Or.inl (Or.inl h)
    · exact Or.inr ⟨hk,by simpa using h0,(Oneshot.sent.inj h).symm⟩
  · split at h
    · split_ifs at h with hid
      · rcases h with h | h
        · rcases eq_or_ne id f.streamId with rfl | hne
          · simp only [Function.update_self] at h
            rcases List.mem_append.mp h with h | h
            · exact Or.inl (Or.inl h)
            · exact Or.inr ⟨hk,rfl,List.mem_singleton.mp h⟩
          · simp only [Function.update_of_ne hne] at h
            exact Or.inl (Or.inl h)
        · exact Or.inl (Or.inr h)
      · exact Or.inl h
    · exact Or.inl h

def Untold (e t : Endpoint) : Prop :=
  t.authenticated = e.authenticated ∧ t.authResponse = e.authResponse

theorem judged_untold (e : Endpoint) (id : ℕ) (req : AuthRequest) (resp : Result AuthResponse) :
    e.Untold (e.judged id req resp) := by
  unfold judged
  dsimp only
  split
  · exact ⟨rfl,rfl⟩
  · split
    · split <;> exact ⟨rfl,rfl⟩
    · exact ⟨rfl,rfl⟩

theorem handleFrame_untold (e : Endpoint) (validate : AuthRequest → Result AuthResponse) (f : Frame)
    (hk : kind f.frameType ≠ .authResponse) : e.Untold (e.handleFrame validate f) := by
  unfold handleFrame
  split
  · unfold handleAuthRequest
    split
    · split
      · exact judged_untold ..
      · exact ⟨rfl,rfl⟩
    · exact ⟨rfl,rfl⟩
  · contradiction
  · unfold handleOpenStream
    split
    · exact ⟨rfl,rfl⟩
    · split <;> exact ⟨rfl,rfl⟩
  · unfold handleOpenStreamAck
    split
    · dsimp only
      split
      · split <;> exact ⟨rfl,rfl⟩
      · exact ⟨rfl,rfl⟩
    · exact ⟨rfl,rfl⟩
  · exact ⟨rfl,rfl⟩
  · unfold handleStreamCredit
    split
    · split
      · dsimp only
        split <;> exact ⟨rfl,rfl⟩
      · exact ⟨rfl,rfl⟩
    · exact ⟨rfl,rfl⟩
  · exact ⟨rfl,rfl⟩
  · unfold handleDatagram
    split
    · exact ⟨rfl,rfl⟩
    · split <;> exact ⟨rfl,rfl⟩
  · exact ⟨rfl,rfl⟩
  · exact ⟨rfl,rfl⟩

theorem Untold.learnt {e t : Endpoint} (h : e.Untold t) (id : ℕ) (r : Result AuthResponse)
    (hl : t.Learnt id r) : e.Learnt id r := by
  rwa [Learnt, h.1, h.2] at hl

theorem endLoop_learnt (e : Endpoint) (id : ℕ) (r : Result AuthResponse) (h : e.endLoop.Learnt id r) :
    e.Learnt id r ∨ r = .error .streamClosed := by
  rcases h with h | ⟨rfl,h⟩
  · exact Or.inl (Or.inl h)
  · rw [endLoop_authResponse] at h
    cases hc : e.authResponse with
    | absent => rw [hc] at h; cases h
    | armed =>
      rw [hc] at h
      exact Or.inr (Oneshot.sent.inj h).symm
    | sent r' =>
      rw [hc] at h
      exact Or.inl (Or.inr ⟨rfl,hc.trans h⟩)

/-- The callers learn what an answer that the end hears says, or that the loop is gone. -/
theorem step_learnt (b3 : Blake3) (q : Queues) (e t : Endpoint) (a : Act)
    (h : e.step b3 q a = some t) (id : ℕ) (r : Result AuthResponse) (hl : t.Learnt id r) :
    e.Learnt id r ∨ r = .error .streamClosed ∨ ∃ f, heard b3 e a = some f ∧ Brought f id r := by
  cases moves_of_step b3 q e t a h with
  | receive validate msg hc =>
    rcases receive_cases b3 q e validate msg with ⟨f,ob,hf,ht⟩ | ⟨-,⟨ob,ht⟩ | ⟨ob,frames,ht⟩⟩
    · rw [ht] at hl
      by_cases hk : kind f.frameType = .authResponse
      · simp only [handleFrame, hk] at hl
        rcases handleAuthResponse_learnt { e with obfuscation := ob } f hk id r hl with hl | hb
        · exact Or.inl hl
        · exact Or.inr (Or.inr ⟨f,hf,hb⟩)
      · exact Or.inl ((handleFrame_untold { e with obfuscation := ob } validate f hk).learnt id r hl)
    · rw [ht] at hl
      exact (endLoop_learnt _ id r hl).imp_right Or.inl
    · rw [ht] at hl
      exact Or.inl hl
  | take c =>
    cases c with
    | close => exact (endLoop_learnt _ id r hl).imp_right Or.inl
    | sendFrame | openStream | replyOpen => exact Or.inl hl
  | pushFail | stop => exact (endLoop_learnt _ id r hl).imp_right Or.inl
  | finish after => exact Or.inl (by cases after <;> exact hl)
  | send i b out f => exact Or.inl (by cases f <;> exact hl)
  | recv i b inn f => exact Or.inl (by cases f <;> exact hl)
  | openStream | openStreamAs | authenticate | replyOpen | closeTunnel | enter | sendDatagram
  | closeHandle | nextEvent | push | lose | emit | notify | tick | writerTake | write
  | writePong | writerFail => exact Or.inl hl

structure Registered (e : Endpoint) : Prop where
  auth : e.auth = true
  sessions : ∀ sessions, e.sessions = some sessions → ∀ id, id ≠ 0 → e.Vouched id → id ∈ sessions
  armed : e.alive = true → e.serverAuthDone ≠ .absent
  handed : ∀ resp, (0,resp) ∈ e.verdicts → e.handedOver = true

theorem server_registered (mux : Bool) (ob : Option Obfuscator) : (server mux ob).Registered where
  auth := rfl
  sessions _ _ _ _ h := by
    obtain ⟨resp,hm,-⟩ := h
    cases hm
  armed _ := by simp [server]
  handed _ h := by cases h

theorem asked_select (b3 : Blake3) (q : Queues) (e t : Endpoint) (a : Act)
    (h : e.step b3 q a = some t) (v : ℕ × AuthRequest × Result AuthResponse)
    (ha : asked b3 e a = some v) : e.alive = true := by
  cases moves_of_step b3 q e t a h with
  | receive validate msg hc => exact alive_of_select e hc
  | _ => cases ha

/-- The handshake is dropped only with the loop. -/
theorem step_absent (b3 : Blake3) (q : Queues) (e t : Endpoint) (a : Act)
    (h : e.step b3 q a = some t) (ht : t.serverAuthDone = .absent) :
    e.serverAuthDone = .absent ∨ t.alive = false := by
  cases moves_of_step b3 q e t a h with
  | receive validate msg hc =>
    rcases receive_cases b3 q e validate msg with ⟨f,ob,-,he⟩ | ⟨-,⟨ob,he⟩ | ⟨ob,frames,he⟩⟩
    · left
      rw [he] at ht
      by_cases hk : kind f.frameType = .authRequest
      · simp only [handleFrame, hk] at ht
        have hg := handleAuthRequest_gate { e with obfuscation := ob } validate f
        split at hg
        · have hd := (congrArg Gate.serverAuthDone hg).symm.trans ht
          simp only [Gate.judged, gate] at hd
          split_ifs at hd
          · cases hs : e.serverAuthDone with
            | absent => rfl
            | armed | sent => simp [hs, Oneshot.send] at hd
          · exact hd
        · exact (congrArg Gate.serverAuthDone hg).symm.trans ht
      · exact (congrArg Gate.serverAuthDone
          (handleFrame_gate { e with obfuscation := ob } validate f hk)).symm.trans ht
    · rw [he]
      exact Or.inr rfl
    · rw [he] at ht
      exact Or.inl ht
  | take c =>
    cases c with
    | close => exact Or.inr rfl
    | sendFrame | openStream | replyOpen => exact Or.inl ht
  | pushFail | stop => exact Or.inr rfl
  | finish after => exact Or.inl (by cases after <;> exact ht)
  | send i b out f => exact Or.inl (by cases f <;> exact ht)
  | recv i b inn f => exact Or.inl (by cases f <;> exact ht)
  | openStream | openStreamAs | authenticate | replyOpen | closeTunnel | enter | sendDatagram
  | closeHandle | nextEvent | push | lose | emit | notify | tick | writerTake | write
  | writePong | writerFail => exact Or.inl ht

theorem step_registered (b3 : Blake3) (q : Queues) (e t : Endpoint) (a : Act) (hi : e.Registered)
    (h : e.step b3 q a = some t) : t.Registered := by
  have hauth := (step_auth b3 q e t a h).trans hi.auth
  have hverdicts := step_verdicts b3 q e t a h
  refine ⟨hauth,fun sessions hs id h0 hv => ?_,fun ht => ?_,fun resp hr => ?_⟩
  · have hs : t.gate.sessions = some sessions := hs
    obtain ⟨r,hm,hacc⟩ := hv
    rw [hverdicts] at hm
    rcases step_gate b3 q e t a h with ⟨i,req,resp,hq,hg⟩ | ⟨hq,hg⟩
    · rw [hg] at hs
      simp only [hq, Option.map_some, Option.toList_some, List.mem_append, List.mem_singleton,
        Prod.mk.injEq] at hm
      simp only [Gate.judged] at hs
      split_ifs at hs with hc
      · obtain ⟨old,ho,rfl⟩ := Option.map_eq_some_iff.mp hs
        rcases hm with hm | ⟨rfl,-⟩
        · exact Finset.mem_insert_of_mem (hi.sessions old ho id h0 ⟨r,hm,hacc⟩)
        · exact Finset.mem_insert_self _ _
      · rcases hm with hm | ⟨rfl,rfl⟩
        · exact hi.sessions sessions hs id h0 ⟨r,hm,hacc⟩
        · exact absurd ⟨h0,hacc⟩ hc
    · have he : e.sessions = some sessions := by
        rcases hg with hg | hg <;> exact (congrArg Gate.sessions hg).symm.trans hs
      refine hi.sessions sessions he id h0 ⟨r,?_,hacc⟩
      simpa [hq] using hm
  · have he : e.alive = true := by
      by_contra hn
      have hd := stays_dead b3 q e t a h (Bool.eq_false_iff.mpr hn)
      rw [hd] at ht
      cases ht
    intro hd
    rcases step_absent b3 q e t a h hd with hd | hd
    · exact hi.armed he hd
    · rw [hd] at ht
      cases ht
  · rw [hverdicts] at hr
    rcases List.mem_append.mp hr with hr | hr
    · exact step_handedOver b3 q e t a h hi.auth (hi.handed resp hr)
    · rcases step_gate b3 q e t a h with ⟨i,req,v,hq,hg⟩ | ⟨hq,-⟩
      · obtain ⟨rfl,rfl⟩ : 0 = i ∧ resp = v := by simpa [hq] using hr
        refine (handedOver_server t hauth).mpr ?_
        have hs : t.serverAuthDone = e.serverAuthDone.send req := by
          simpa [Gate.judged, gate] using congrArg Gate.serverAuthDone hg
        cases hd : e.serverAuthDone with
        | absent => exact absurd hd (hi.armed (asked_select b3 q e t a h _ hq))
        | armed => exact ⟨req,by rw [hs, hd]; rfl⟩
        | sent r => exact ⟨r,by rw [hs, hd]; rfl⟩
      · simp [hq] at hr

end Endpoint

namespace Link

def Hears (b3 : Blake3) (l : Link) (a : LinkAct) (x : Bool) (f : Frame) : Prop :=
  ∃ msg rest, (∃ validate, a = .deliver x validate) ∧ l.wire (!x) = msg::rest ∧
    hears b3 (l.ends x).obfuscation msg = some f

section
variable {b3 : Blake3} {q : Queues} {key : Option Obfuscator} {n : Bool → ℕ} {fs : Bool → List Frame}
  {l : Link} (h : Wired b3 key n fs l) (x : Bool) (e : Endpoint)
include h

theorem deliver_wired (validate : AuthRequest → Result AuthResponse) (msg : WsMessage)
    (rest : List WsMessage) (hw : l.wire (!x) = msg::rest)
    (hst : (l.ends x).step b3 q (.receive validate msg) = some e) :
    ∃ m gs, Wired b3 key m gs ((l.setEnd x e).setWire (!x) rest) ∧ ∀ y, gs y ⊆ fs y := by
  have hcoded := (h (!x)).coded
  have hopens := (h (!x)).opens
  rw [hw] at hcoded
  rw [Bool.not_not] at hopens
  cases Endpoint.moves_of_step b3 q _ e _ hst with
  | receive _ _ hc =>
  cases msg with
  | ping payload => exact hcoded.elim
  | other => exact ⟨n,fs,skipped_wired h x _ rest hw rfl,fun y => List.Subset.refl _⟩
  | binary bytes =>
    cases hfs : fs (!x) with
    | nil =>
      rw [hfs] at hcoded
      exact hcoded.elim
    | cons f gs =>
      rw [hfs] at hcoded
      have hsub : ∀ y, Function.update fs (!x) gs y ⊆ fs y := by
        intro y
        rcases eq_or_ne y (!x) with rfl | hne
        · rw [Function.update_self, hfs]
          exact List.subset_cons_self f gs
        · rw [Function.update_of_ne hne]
          exact List.Subset.refl _
      have hob : ∃ ob, ((l.ends x).receive b3 q validate (.binary bytes)).obfuscation = ob ∧
          Opens key (n (!x)+1) ob ∧ ∀ m, Seals key m (l.ends x).obfuscation → Seals key m ob := by
        rcases inbound_codes b3 key _ _ f bytes hopens hcoded.1 with
          ⟨ob,hin,-,hopen,hseal⟩ | ⟨-,-,hin,hopen⟩
        · refine ⟨ob,?_,hopen,hseal⟩
          simp only [Endpoint.receive, hin]
          split
          · exact (Endpoint.handleFrame_keeps ..).obfuscation
          · rfl
        · exact ⟨_,by simp only [Endpoint.receive, hin],hopen,fun _ => id⟩
      obtain ⟨ob,rfl,hopen,hseal⟩ := hob
      exact ⟨_,_,taken_wired h x _ rest f gs hfs hcoded.2 hseal hopen,hsub⟩

theorem heard_wired (msg : WsMessage) (rest : List WsMessage) (g : Frame)
    (hw : l.wire (!x) = msg::rest) (hg : hears b3 (l.ends x).obfuscation msg = some g) :
    ∃ f ∈ fs (!x), g = ⟨f.streamId%2^62,f.frameType,f.body.take (f.body.length%2^62)⟩ := by
  have hcoded := (h (!x)).coded
  have hopens := (h (!x)).opens
  rw [hw] at hcoded
  rw [Bool.not_not] at hopens
  cases msg with
  | ping | other => cases hg
  | binary bytes =>
    cases hfs : fs (!x) with
    | nil =>
      rw [hfs] at hcoded
      exact hcoded.elim
    | cons f gs =>
      rw [hfs] at hcoded
      refine ⟨f,List.mem_cons_self ..,?_⟩
      rcases inbound_codes b3 key _ _ f bytes hopens hcoded.1 with ⟨ob,hin,-⟩ | ⟨-,-,hin,-⟩
      · simp only [hears, hin] at hg
        rcases Frame.decode_any f with ⟨err,hd⟩ | ⟨m,hd⟩
        · simp [hd, Except.toOption] at hg
        · simpa [hd, Except.toOption] using hg.symm
      · simp [hears, hin] at hg

theorem step_wired (cap : Bool → ℕ) (k : Link) (a : LinkAct) (hst : l.step b3 q cap a = some k) :
    ∃ m gs, Wired b3 key m gs k ∧
      ∀ y, ∀ f ∈ gs y, f ∈ fs y ∨ (l.ends y).hand = some (.frame f) := by
  cases moves_of_step b3 q cap l k a hst with
  | own x a e ha he =>
    exact ⟨n,fs,own_wired h x e (Endpoint.own_keeps b3 q _ e a ha he).1,fun _ _ => Or.inl⟩
  | deliver x validate msg rest e hw he =>
    obtain ⟨m,gs,hk,hs⟩ := deliver_wired h x e validate msg rest hw he
    exact ⟨m,gs,hk,fun y f hf => Or.inl (hs y hf)⟩
  | write x salt m e hh hw he =>
    cases Endpoint.moves_of_step b3 q _ e _ he with
    | write _ f hf =>
      obtain rfl : m = .frame f := Option.some.inj (hh.symm.trans hf)
      refine ⟨n,_,write_wired h x _ salt f rfl,fun y g hg => ?_⟩
      rcases eq_or_ne y x with rfl | hne
      · rw [Function.update_self] at hg
        rcases List.mem_append.mp hg with hg | hg
        · exact Or.inl hg
        · rw [List.mem_singleton.mp hg]
          exact Or.inr hf
      · rw [Function.update_of_ne hne] at hg
        exact Or.inl hg
    | writePong _ payload hf =>
      obtain rfl : m = .wsPong payload := Option.some.inj (hh.symm.trans hf)
      exact ⟨n,fs,pong_wired h x _ rfl,fun _ _ => Or.inl⟩

theorem step_end (cap : Bool → ℕ) (k : Link) (a : LinkAct) (hst : l.step b3 q cap a = some k) :
    ∃ y b, (l.ends y).step b3 q b = some (k.ends y) ∧ k.ends (!y) = l.ends (!y) ∧
      ∀ g, Endpoint.heard b3 (l.ends y) b = some g → l.Hears b3 a y g ∧ ∃ f ∈ fs (!y),
        g = ⟨f.streamId%2^62,f.frameType,f.body.take (f.body.length%2^62)⟩ := by
  cases moves_of_step b3 q cap l k a hst with
  | own x a e ha he =>
    refine ⟨x,a,by simpa using he,by simp,fun g hg => ?_⟩
    cases a <;> first | cases hg | cases ha
  | write x salt m e hh hw he =>
    exact ⟨x,.write salt,by simpa using he,by simp,fun g hg => by cases hg⟩
  | deliver x validate msg rest e hw he =>
    refine ⟨x,.receive validate msg,by simpa using he,by simp,fun g hg => ?_⟩
    exact ⟨⟨msg,rest,⟨validate,rfl⟩,hw,hg⟩,heard_wired h x msg rest g hw hg⟩

end

structure Sincere (b3 : Blake3) (key : Option Obfuscator) (misheard : ℕ → Prop) (l : Link) :
    Prop where
  wired : ∃ n fs, Wired b3 key n fs l ∧ ∀ f ∈ fs true, (l.ends true).Truthful misheard f
  carried : ∀ f, (l.ends true).Carries f → (l.ends true).Truthful misheard f
  server : (l.ends true).Registered
  client : (l.ends false).auth = false
  told : ∀ id resp, (l.ends false).Learnt id (.ok resp) →
    ∃ sent, (l.ends true).Says misheard id sent ∧ Reads sent resp

theorem Sincere.mono {b3 : Blake3} {key : Option Obfuscator} {m m' : ℕ → Prop} {l : Link}
    (h : Sincere b3 key m l) (hm : ∀ id, m id → m' id) : Sincere b3 key m' l := by
  have hsd : ∀ id sent, (l.ends true).Says m id sent → (l.ends true).Says m' id sent :=
    fun id _ hs => hs.imp_left (And.imp_left (hm id))
  have htruthful : ∀ f, (l.ends true).Truthful m f → (l.ends true).Truthful m' f := by
    intro f hf hk
    obtain ⟨hlow,sent,hs,hbody⟩ := hf hk
    exact ⟨hlow,sent,hsd _ _ hs,hbody⟩
  obtain ⟨n,fs,hw,htrue⟩ := h.wired
  refine ⟨⟨n,fs,hw,fun f hf => htruthful f (htrue f hf)⟩,fun f hf => htruthful f (h.carried f hf),
    h.server,h.client,fun id resp hl => ?_⟩
  obtain ⟨sent,hs,hr⟩ := h.told id resp hl
  exact ⟨sent,hsd id sent hs,hr⟩

theorem step_sincere (b3 : Blake3) (q : Queues) (cap : Bool → ℕ) (key : Option Obfuscator)
    (misheard : ℕ → Prop) (l : Link) (a : LinkAct) (k : Link) (h : Sincere b3 key misheard l)
    (hm : ∀ g, l.Hears b3 a true g → Endpoint.Undecodable g → misheard g.streamId)
    (hst : l.step b3 q cap a = some k) : Sincere b3 key misheard k := by
  obtain ⟨n,fs,hw,htrue⟩ := h.wired
  obtain ⟨m,gs,hk,hgs⟩ := step_wired hw cap k a hst
  obtain ⟨y,b,hb,hother,hheard⟩ := step_end hw cap k a hst
  have hnew : ∀ f ∈ gs true, (l.ends true).Truthful misheard f := by
    intro f hf
    rcases hgs true f hf with hf | hf
    · exact htrue f hf
    · apply h.carried
      left
      simp [Endpoint.unsent, hf, OutMsg.sent]
  cases y with
  | false =>
    have hsame : k.ends true = l.ends true := hother
    refine ⟨⟨m,gs,hk,by rwa [hsame]⟩,by rw [hsame]; exact h.carried,by rw [hsame]; exact h.server,
      (Endpoint.step_auth b3 q _ _ b hb).trans h.client,fun id resp hl => ?_⟩
    rw [hsame]
    rcases Endpoint.step_learnt b3 q _ _ b hb id _ hl with hl | hl | ⟨g,hg,hkind,hid,hr⟩
    · exact h.told id resp hl
    · cases hl
    · obtain ⟨-,f,hf,rfl⟩ := hheard g hg
      obtain ⟨hlow,sent,hspoken,hbody⟩ := htrue f hf hkind
      obtain rfl : f.streamId = id := (Nat.mod_eq_of_lt hlow).symm.trans hid
      rw [hbody] at hr
      cases hd : AuthResponse.decode (sent.encode.take (sent.encode.length%2^62)) with
      | error err =>
        rw [hd] at hr
        cases hr
      | ok p =>
        rw [hd] at hr
        cases hr
        exact ⟨sent,hspoken,decode_cut sent p.1 p.2 hd⟩
  | true =>
    have hsame : k.ends false = l.ends false := hother
    have hspoken : ∀ id sent, (l.ends true).Says misheard id sent →
        (k.ends true).Says misheard id sent := by
      rintro id sent (hs | ⟨resp,hv,hs⟩)
      · exact Or.inl hs
      · refine Or.inr ⟨resp,?_,hs⟩
        rw [Endpoint.step_verdicts b3 q _ _ b hb]
        exact List.mem_append_left _ hv
    have hmono : ∀ f, (l.ends true).Truthful misheard f → (k.ends true).Truthful misheard f := by
      intro f hf hk
      obtain ⟨hlow,sent,hs,hbody⟩ := hf hk
      exact ⟨hlow,sent,hspoken _ _ hs,hbody⟩
    refine ⟨⟨m,gs,hk,fun f hf => hmono f (hnew f hf)⟩,fun f hf => ?_,
      Endpoint.step_registered b3 q _ _ b h.server hb,by rw [hsame]; exact h.client,
      fun id resp hl => ?_⟩
    · rcases Endpoint.step_carries b3 q _ _ b misheard hb (fun g hg => hm g (hheard g hg).1) f hf
        with hf | hn | ⟨g,hg,hid,ha⟩
      · exact hmono f (h.carried f hf)
      · exact fun hk => absurd hk hn
      · obtain ⟨-,f',-,rfl⟩ := hheard g hg
        exact fun _ => ⟨by rw [hid]; exact Nat.mod_lt _ (Nat.two_pow_pos 62),ha⟩
    · rw [hsame] at hl
      obtain ⟨sent,hs,hr⟩ := h.told id resp hl
      exact ⟨sent,hspoken _ _ hs,hr⟩

theorem init_sincere (b3 : Blake3) (misheard : ℕ → Prop) (auth : AuthRequest) (mux : Bool)
    (psk : Option Bytes) : Sincere b3 (psk.map (Obfuscator.new b3)) misheard
      (init auth mux fun _ => psk.map (Obfuscator.new b3)) where
  wired := ⟨fun _ => 0,fun _ => [],init_wired b3 auth mux psk,fun f hf => by cases hf⟩
  carried f hf := by rcases hf with hf | hf | hf | hf <;> cases hf
  server := Endpoint.server_registered mux _
  client := rfl
  told id resp hl := by
    rcases hl with hl | ⟨-,hl⟩ <;> cases hl

/-- A success that the client hears of was the validator's. -/
theorem Sincere.vouched {b3 : Blake3} {key : Option Obfuscator} {misheard : ℕ → Prop} {l : Link}
    (h : Sincere b3 key misheard l) (id : ℕ) (resp : AuthResponse) (hl : (l.ends false).Learnt id (.ok resp))
    (hs : resp.status = statusOk) : (l.ends true).Vouched id := by
  obtain ⟨sent,⟨-,rfl⟩ | ⟨v,hv,rfl⟩,hr⟩ := h.told id resp hl
  · exact absurd (hr.1.symm.trans hs) (by decide)
  · have hst := hr.1.symm.trans hs
    cases v with
    | error err => exact absurd hst (show ¬statusErr = statusOk by decide)
    | ok r => exact ⟨_,hv,r,rfl,hst⟩

theorem registered_open (e : Endpoint) (h : e.Registered) (id : ℕ) (hv : e.Vouched id) :
    e.unauthenticated id = false := by
  unfold Endpoint.unauthenticated
  cases hs : e.sessions with
  | none => rfl
  | some sessions =>
    by_cases h0 : id = 0
    · simp [h0]
    · simp [h.sessions sessions hs id h0 hv]

section
variable (b3 : Blake3) (q : Queues) (cap : Bool → ℕ)

/-- In the run the server has heard a request on the stream that does not decode. -/
def Misheard (as : List LinkAct) (l : Link) (id : ℕ) : Prop :=
  ∃ pre a post k g, as = pre++a::post ∧ run (step b3 q cap) pre l = some k ∧
    k.Hears b3 a true g ∧ Endpoint.Undecodable g ∧ g.streamId = id

theorem Misheard.append {as : List LinkAct} {l : Link} {id : ℕ} (h : Misheard b3 q cap as l id)
    (bs : List LinkAct) : Misheard b3 q cap (as++bs) l id := by
  obtain ⟨pre,a,post,k,g,rfl,hk⟩ := h
  exact ⟨pre,a,post++bs,k,g,by simp,hk⟩

theorem run_sincere (key : Option Obfuscator) (as : List LinkAct) (l k : Link)
    (hr : run (step b3 q cap) as l = some k) (h : Sincere b3 key (fun _ => False) l) :
    Sincere b3 key (Misheard b3 q cap as l) k := by
  suffices hrec : run (step b3 q cap) as l = some k ∧ Sincere b3 key (Misheard b3 q cap as l) k from
    hrec.2
  refine run_records (C := fun _ _ => True)
    (I := fun bs k => run (step b3 q cap) bs l = some k ∧ Sincere b3 key (Misheard b3 q cap bs l) k)
    (fun bs u a v ⟨hu,hs⟩ _ hst => ⟨?_,?_⟩) as l k (meets_of_forall as l fun _ _ => trivial) hr
    ⟨rfl,h.mono fun _ => False.elim⟩
  · rw [run_append, hu]
    exact run_cons.mpr ⟨v,hst,rfl⟩
  · refine step_sincere b3 q cap key _ u a v (hs.mono fun _ hm => hm.append b3 q cap [a]) ?_ hst
    exact fun g hg hn => ⟨bs,a,[],u,g,rfl,hu,hg,hn,rfl⟩

/-- Whatever is heard from here on. -/
theorem Sincere.run {key : Option Obfuscator} {misheard : ℕ → Prop} (as : List LinkAct) (l k : Link)
    (hr : Transition.run (step b3 q cap) as l = some k) (h : Sincere b3 key misheard l) :
    Sincere b3 key (fun _ => True) k :=
  run_preserves (fun l a k h hst => step_sincere b3 q cap key _ l a k h (fun _ _ _ => trivial) hst)
    as l k hr (h.mono fun _ _ => trivial)

theorem run_vouched (key : Option Obfuscator) (id : ℕ) (as : List LinkAct) (l k : Link)
    (hr : run (step b3 q cap) as l = some k) (h : Sincere b3 key (fun _ => True) l)
    (hv : (l.ends true).Vouched id) : (k.ends true).Vouched id := by
  refine (run_preserves (I := fun l => Sincere b3 key (fun _ => True) l ∧ (l.ends true).Vouched id)
    (fun l a k h hst => ⟨step_sincere b3 q cap key _ l a k h.1 (fun _ _ _ => trivial) hst,?_⟩)
    as l k hr ⟨h,hv⟩).2
  obtain ⟨n,fs,hw,-⟩ := h.1.wired
  obtain ⟨y,b,hb,hother,-⟩ := step_end hw cap k a hst
  cases y with
  | true => exact Endpoint.vouched_mono b3 q _ _ b hb id h.2
  | false =>
    have hsame : k.ends true = l.ends true := hother
    rw [hsame]
    exact h.2

variable (auth : AuthRequest) (mux : Bool) (psk : Option Bytes) (as : List LinkAct) (l : Link)
  (hr : run (step b3 q cap) as (init auth mux fun _ => psk.map (Obfuscator.new b3)) = some l)
include hr

/-- Whatever the order of the steps and the answers of the validator: what a call of
`authenticate` gets is what the server answered on that stream, to a request that it
judged or to one that it could not decode, and after a success the gate of the server
never again refuses the stream. -/
theorem session_agreement (id : ℕ) (resp : AuthResponse)
    (h : .ok resp ∈ (l.ends false).authenticated id) :
    (∃ sent, (l.ends true).Says (Misheard b3 q cap as
        (init auth mux fun _ => psk.map (Obfuscator.new b3))) id sent ∧ Reads sent resp) ∧
      (resp.status = statusOk → (l.ends true).Vouched id ∧
        ∀ bs k, run (step b3 q cap) bs l = some k → (k.ends true).unauthenticated id = false) := by
  have hl := run_sincere b3 q cap _ as _ l hr (init_sincere b3 _ auth mux psk)
  refine ⟨hl.told id resp (Or.inl h),fun hs => ?_⟩
  have hv := hl.vouched id resp (Or.inl h) hs
  refine ⟨hv,fun bs k hk => ?_⟩
  exact registered_open _ (hl.run b3 q cap bs l k hk).server id
    (run_vouched b3 q cap _ id bs l k hk (hl.mono fun _ _ => trivial) hv)

end

def enrolled : List LinkAct :=
  [.own false (.enter (.sendFrame ⟨0,Frame.frameAuthRequest,exampleAuth.encode⟩)),.own false .take]++
  shipped false++[.deliver true Endpoint.exampleValidator]++
  shipped true++[.deliver false Endpoint.exampleValidator,.own false (.authenticate 5 exampleAuth),
    .own false (.enter (.sendFrame ⟨5,Frame.frameAuthRequest,exampleAuth.encode⟩)),.own false .take]++
  shipped false++[.deliver true Endpoint.exampleValidator]++
  shipped true++[.deliver false Endpoint.exampleValidator]

theorem enrolled_agreed : ∃ l, run (step copyHash ⟨1,1,1⟩ fun _ => 1) enrolled
    (init exampleAuth true fun _ => (some [1]).map (Obfuscator.new copyHash)) = some l ∧
      (l.ends true).Vouched 5 := by
  have hd : ((run (step copyHash ⟨1,1,1⟩ fun _ => 1) enrolled
      (init exampleAuth true fun _ => (some [1]).map (Obfuscator.new copyHash))).map fun l =>
        ((l.ends false).authenticated 5).map fun r => r.toOption.map AuthResponse.status) =
      some [some statusOk] := by decide +kernel
  obtain ⟨l,hr,hl⟩ := Option.map_eq_some_iff.mp hd
  obtain ⟨r,hm,hs⟩ := List.mem_map.mp (hl ▸ List.mem_singleton.mpr rfl :
    some statusOk ∈ ((l.ends false).authenticated 5).map fun r => r.toOption.map AuthResponse.status)
  cases r with
  | error err => cases hs
  | ok resp =>
    have hok : resp.status = statusOk := Option.some.inj hs
    exact ⟨l,hr,((session_agreement copyHash ⟨1,1,1⟩ (fun _ => 1) exampleAuth true (some [1])
      enrolled l hr 5 resp hm).2 hok).1⟩

end Link
end Hydr.Ws
