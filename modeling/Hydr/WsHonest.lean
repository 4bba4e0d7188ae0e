import Mathlib
import Hydr.WsLink
import Hydr.StreamDelivery

/-!
# What an end puts on its wire

Between two ends of the code every frame of a stream is read as it was meant:
its id fits the wire format, its body is short, an acknowledgement is one that
was encoded. The callers' own frames concern no stream.
-/

set_option autoImplicit false

namespace Hydr

namespace Stream

def Half.Buffered (h : Half Bytes) : Prop := ∀ c ∈ h.out.kept, c.length ≤ bufLen

theorem Sender.moves_buffered (s t : Sender Bytes) (a : SendAct Bytes)
    (f : Option (StreamFrame Bytes)) (hm : Sender.Moves s a t f)
    (h : ∀ c ∈ s.kept, c.length ≤ bufLen) : ∀ c ∈ t.kept, c.length ≤ bufLen := by
  cases hm with
  | chunk a hp _ hs =>
    intro c hc
    simp only [kept, Pump.hand, List.mem_append, List.mem_singleton] at hc
    rcases hc with (hc | hc) | rfl
    · exact h c (by simp [kept, hc])
    · exact h c (by simp [kept, hc])
    · exact hs
  | enqueue a hp =>
    intro c hc
    apply h
    simpa [kept, hp, Pump.hand] using hc
  | take a q hq hf =>
    intro c hc
    apply h
    simpa [kept, hq, hf, Forwarder.hand] using hc
  | forward a hf =>
    intro c hc
    apply h
    simp only [kept, Forwarder.hand, List.nil_append] at hc
    simp only [kept, hf, Forwarder.hand, List.append_assoc]
    exact List.mem_append_right _ hc
  | lose a hf =>
    intro c hc
    apply h
    simp only [kept, Forwarder.hand, List.nil_append] at hc
    exact List.mem_append_right _ hc
  | finish hp hq hf =>
    intro c hc
    apply h
    simpa [kept, hf, Forwarder.hand] using hc
  | pass w hp | turn w next hp | subscribe hp | enable hp | wake hp | stop hp | refuse c hp
  | count n hp | drained hp | close ok hp =>
    intro c hc
    apply h
    simp only [kept, Pump.hand, List.append_nil] at hc
    exact List.mem_append_left _ hc

theorem Sender.moves_sent (s t : Sender Bytes) (a : SendAct Bytes) (f : Option (StreamFrame Bytes))
    (hm : Sender.Moves s a t f) (c : Bytes) (hf : f = some (.data c)) : c ∈ s.kept := by
  cases hm with
  | forward a hfw =>
    cases hf
    simp [kept, hfw, Forwarder.hand]
  | close ok => cases ok <;> cases hf
  | _ => cases hf

theorem Half.buffered_stable : Stable (fun _ _ => True) Half.Buffered where
  register _ hc := by simp [Half.register, Sender.spawn, Sender.kept, Forwarder.hand, Pump.hand] at hc
  deliver h a hb := by
    rw [Buffered, Half.deliver_out]
    exact hb
  credit h n _ hb := by
    unfold credit
    dsimp only
    split_ifs <;> exact hb
  close _ hb := hb
  notify _ hb := hb
  send h a out f hm hb := Sender.moves_buffered _ _ _ _ hm hb
  recv _ _ _ _ _ hb := hb

end Stream

namespace Ws
open Message Varint Hydr.Stream

def Kind.concerns : Kind → Bool
  | .openStream => true
  | .openStreamAck => true
  | .streamData => true
  | .streamClose => true
  | .streamCredit => true
  | _ => false

section Kinds

@[simp] theorem kind_openStream : kind Frame.frameOpenStream = .openStream := by decide
@[simp] theorem kind_openStreamAck : kind Frame.frameOpenStreamAck = .openStreamAck := by decide
@[simp] theorem kind_streamData : kind Frame.frameStreamData = .streamData := by decide
@[simp] theorem kind_streamClose : kind Frame.frameStreamClose = .streamClose := by decide
@[simp] theorem kind_streamCredit : kind Frame.frameStreamCredit = .streamCredit := by decide
@[simp] theorem kind_datagram : kind Frame.frameDatagram = .datagram := by decide
@[simp] theorem kind_ping : kind Frame.framePing = .ping := by decide
@[simp] theorem kind_pong : kind Frame.framePong = .other := by decide
@[simp] theorem kind_authRequest : kind Frame.frameAuthRequest = .authRequest := by decide
@[simp] theorem kind_authResponse : kind Frame.frameAuthResponse = .authResponse := by decide

end Kinds

structure Honest (f : Frame) : Prop where
  low : (kind f.frameType).concerns = true → f.streamId < 2^62
  short : (kind f.frameType).concerns = true → kind f.frameType ≠ .openStream →
    f.body.length < 2^62
  ack : kind f.frameType = .openStreamAck → ∃ ack : OpenStreamAck, f.body = ack.encode

theorem honest_unconcerned (f : Frame) (h : (kind f.frameType).concerns = false) : Honest f where
  low hc := absurd (h.symm.trans hc) nofun
  short hc := absurd (h.symm.trans hc) nofun
  ack hk := by simp [hk, Kind.concerns] at h

theorem honest_open (i : ℕ) (body : Bytes) (hi : i < 2^62) :
    Honest ⟨i,Frame.frameOpenStream,body⟩ where
  low _ := hi
  short _ hk := absurd kind_openStream hk
  ack hk := by simp at hk

theorem honest_ack (i : ℕ) (ack : OpenStreamAck) (hi : i < 2^62)
    (hl : ack.encode.length < 2^62) : Honest ⟨i,Frame.frameOpenStreamAck,ack.encode⟩ where
  low _ := hi
  short _ _ := hl
  ack _ := ⟨ack,rfl⟩

def After.Fits (f : Frame) : After → Prop
  | .nothing => kind f.frameType ≠ .openStream ∧
    (kind f.frameType = .openStreamAck → f.body.head? ≠ some statusOk)
  | .pend i => ∃ body, f = ⟨i,Frame.frameOpenStream,body⟩
  | .register i => ∃ ack : OpenStreamAck, f = ⟨i,Frame.frameOpenStreamAck,ack.encode⟩ ∧
    ack.status = statusOk

def Control.Tame : Control → Prop
  | .sending f after => Honest f ∧ after.Fits f
  | .finishing (.register i) => i < 2^62
  | .granting i => i < 2^62
  | _ => True

def Cmd.Tame : Cmd → Prop
  | .sendFrame f => Honest f ∧ kind f.frameType ≠ .openStream ∧ kind f.frameType ≠ .openStreamAck
  | .openStream i _ => i < 2^62
  | .replyOpen i ack => i < 2^62 ∧ ack.encode.length < 2^62
  | .close => True

def Cmd.Foreign : Cmd → Prop
  | .sendFrame f => f.streamId = 0 ∨ (kind f.frameType).concerns = false
  | _ => True

def OutMsg.sent : OutMsg → Option Frame
  | .frame f => some f
  | .wsPong _ => none

def Control.offer : Control → List ℕ
  | .eventing event => event.offer
  | _ => []

namespace Endpoint

def unsent (e : Endpoint) : List Frame := (e.hand.toList++e.frames).filterMap OutMsg.sent

def unanswered (e : Endpoint) : List ℕ :=
  e.control.offer++e.events.flatMap WsEvent.offer++e.offers

structure Tame (e : Endpoint) : Prop where
  idle : ∀ i, 2^62 ≤ i → (e.half i).Idle
  buffered : ∀ i, (e.half i).Buffered
  control : e.control.Tame
  cmds : ∀ c ∈ e.cmds, c.Tame
  callers : ∀ c ∈ e.callers, c.Tame ∧ c.Foreign
  unanswered : ∀ i ∈ e.unanswered, i < 2^62
  unsent : ∀ f ∈ e.unsent, Honest f

end Endpoint

/-- Streams are opened with `open_stream` and below `2 ^ 62`; a reply is no
longer than a length can say. -/
def Act.Tame (e : Endpoint) : Act → Prop
  | .openStream _ => e.nextStreamId+1 < 2^62
  | .openStreamAs _ _ => False
  | .replyOpen _ ack => ack.encode.length < 2^62
  | _ => True

instance (e : Endpoint) : DecidablePred (Act.Tame e)
  | .openStream _ => inferInstanceAs (Decidable (e.nextStreamId+1 < 2^62))
  | .replyOpen _ ack => inferInstanceAs (Decidable (ack.encode.length < 2^62))
  | .openStreamAs _ _ => instDecidableFalse
  | .authenticate _ _ | .closeTunnel | .enter _ | .sendDatagram _ | .closeHandle | .nextEvent
  | .take | .push | .finish | .receive _ _ | .emit _ | .notify | .tick | .stop | .writerTake
  | .write _ | .writerFail | .send _ _ | .recv _ _ => instDecidableTrue

theorem orphan_idle (h : Half Bytes) (hi : h.Idle) : h.orphan.Idle := ⟨rfl,rfl,hi.out,hi.inn⟩

theorem honest_task (i : ℕ) (g : StreamFrame Bytes) (hi : i < 2^62)
    (hg : ∀ c, g = .data c → c.length ≤ bufLen) : Honest (taskFrame i g) := by
  cases g with
  | openStream => exact honest_open i _ hi
  | ack ok => exact honest_ack i _ hi (by cases ok <;> decide)
  | data c =>
    refine ⟨fun _ => hi,fun _ _ => ?_,fun hk => ?_⟩
    · exact lt_of_le_of_lt (hg c rfl) (by decide)
    · simp [taskFrame, Frame.data] at hk
  | credit n =>
    refine ⟨fun _ => hi,fun _ _ => ?_,fun hk => by simp [taskFrame] at hk⟩
    simp only [taskFrame, encodeVarint_length]
    exact lt_of_le_of_lt (encodeVarintLen_le n) (by norm_num)
  | close =>
    exact ⟨fun _ => hi,fun _ _ => Nat.two_pow_pos 62,fun hk => by simp [taskFrame] at hk⟩

namespace Endpoint

theorem setHalf_tame (e : Endpoint) (h : e.Tame) (i : ℕ) (g : Half Bytes) (hi : i < 2^62)
    (hb : g.Buffered) : (e.setHalf i g).Tame where
  idle j hj := by
    have hne : j ≠ i := by omega
    simpa [hne] using h.idle j hj
  buffered j := by
    rcases eq_or_ne j i with rfl | hne
    · simpa using hb
    · simpa [hne] using h.buffered j
  control := h.control
  cmds := h.cmds
  callers := h.callers
  unanswered := h.unanswered
  unsent := h.unsent

theorem setControl_tame (e : Endpoint) (h : e.Tame) (c : Control) (hc : c.Tame)
    (ho : ∀ i ∈ c.offer, i < 2^62) : (e.setControl c).Tame where
  idle := h.idle
  buffered := h.buffered
  control := hc
  cmds := h.cmds
  callers := h.callers
  unanswered i hi := by
    rw [Endpoint.unanswered, List.append_assoc] at hi
    rcases List.mem_append.mp hi with hi | hi
    · exact ho i hi
    · apply h.unanswered
      rw [Endpoint.unanswered, List.append_assoc]
      exact List.mem_append_right _ hi
  unsent := h.unsent

theorem respond_tame (e : Endpoint) (h : e.Tame) (f : Frame) (hf : Honest f)
    (hfit : After.Fits f .nothing) : (e.respond f).Tame :=
  setControl_tame e h _ ⟨hf,hfit⟩ (by simp [Control.offer])

theorem endLoop_tame (e : Endpoint) (h : e.Tame) : e.endLoop.Tame where
  idle i hi := orphan_idle _ (h.idle i hi)
  buffered := h.buffered
  control := trivial
  cmds := by simp
  callers := h.callers
  unanswered i hi := by
    apply h.unanswered
    rw [Endpoint.unanswered, List.append_assoc]
    exact List.mem_append_right _ hi
  unsent := h.unsent

theorem queue_tame (e : Endpoint) (h : e.Tame) (c : Cmd) (hc : c.Tame) : (e.queue c).Tame where
  idle := h.idle
  buffered := h.buffered
  control := h.control
  cmds d hd := by
    rcases List.mem_append.mp hd with hd | hd
    · exact h.cmds d hd
    · rwa [List.mem_singleton.mp hd]
  callers := h.callers
  unanswered := h.unanswered
  unsent := h.unsent

theorem wait_tame (e : Endpoint) (h : e.Tame) (c : Cmd) (hc : c.Tame) (hf : c.Foreign) :
    (e.wait c).Tame where
  idle := h.idle
  buffered := h.buffered
  control := h.control
  cmds := h.cmds
  callers d hd := by
    rcases List.mem_append.mp hd with hd | hd
    · exact h.callers d hd
    · rw [List.mem_singleton.mp hd]
      exact ⟨hc,hf⟩
  unanswered := h.unanswered
  unsent := h.unsent

variable (b3 : Blake3) (q : Queues)

theorem command_tame (e : Endpoint) (h : e.Tame) (c : Cmd) (cmds : List Cmd)
    (hq : e.cmds = c::cmds) :
    (({ e with cmds := cmds } : Endpoint).command c).Tame := by
  have hc := h.cmds c (by simp [hq])
  have ht : ({ e with cmds := cmds } : Endpoint).Tame :=
    ⟨h.idle,h.buffered,h.control,fun d hd => h.cmds d (by simp [hq, hd]),h.callers,h.unanswered,
      h.unsent⟩
  cases c with
  | sendFrame f =>
    exact setControl_tame _ ht _ ⟨hc.1,hc.2.1,fun hk => absurd hk hc.2.2⟩ (by simp [Control.offer])
  | openStream i address =>
    exact setControl_tame _ ht _ ⟨honest_open i _ hc,_,rfl⟩ (by simp [Control.offer])
  | replyOpen i ack =>
    refine setControl_tame _ ht _ ⟨honest_ack i ack hc.1 hc.2,?_⟩ (by simp [Control.offer])
    split_ifs with hok
    · exact ⟨ack,rfl,hok⟩
    · exact ⟨by simp,fun _ => by simpa [OpenStreamAck.encode] using hok⟩
  | close => exact endLoop_tame _ ht

theorem finish_tame (e : Endpoint) (h : e.Tame) (after : After) (hc : e.control = .finishing after) :
    ((e.after after).setControl .select).Tame := by
  have ht := h.control
  rw [hc] at ht
  cases after with
  | nothing => exact setControl_tame e h _ trivial (by simp [Control.offer])
  | pend i =>
    apply setControl_tame
    · exact ⟨h.idle,h.buffered,h.control,h.cmds,h.callers,h.unanswered,h.unsent⟩
    · trivial
    · simp [Control.offer]
  | register i =>
    apply setControl_tame
    · exact setHalf_tame e h i _ ht Half.buffered_stable.register
    · trivial
    · simp [Control.offer]

theorem task_tame (e : Endpoint) (h : e.Tame) (i : ℕ) (g : Half Bytes) (hi : i < 2^62)
    (hb : g.Buffered) (f : Option (StreamFrame Bytes)) (ha : ∀ ok, f ≠ some (.ack ok))
    (ho : f ≠ some .openStream) (hd : ∀ c, f = some (.data c) → c.length ≤ bufLen) :
    ((e.setHalf i g).queueTask i f).Tame := by
  have ht := setHalf_tame e h i g hi hb
  cases f with
  | none => exact ht
  | some f =>
    apply queue_tame _ ht
    refine ⟨honest_task i f hi fun c hc => hd c (by rw [hc]),?_,?_⟩
    · cases f with
      | openStream => exact absurd rfl ho
      | _ => simp [taskFrame, Frame.data]
    · cases f with
      | ack ok => exact absurd rfl (ha ok)
      | _ => simp [taskFrame, Frame.data]

theorem step_tame (e t : Endpoint) (a : Act) (h : e.Tame) (ha : a.isOwn = true) (hb : a.Tame e)
    (hst : e.step b3 q a = some t) : t.Tame := by
  cases moves_of_step b3 q e t a hst with
  | openStream address =>
    apply wait_tame
    · exact ⟨h.idle,h.buffered,h.control,h.cmds,h.callers,h.unanswered,h.unsent⟩
    · exact hb
    · trivial
  | openStreamAs => exact hb.elim
  | authenticate i auth =>
    have hu : (kind Frame.frameAuthRequest).concerns = false := by decide
    apply wait_tame
    · exact ⟨h.idle,h.buffered,h.control,h.cmds,h.callers,h.unanswered,h.unsent⟩
    · exact ⟨honest_unconcerned _ hu,by simp,by simp⟩
    · exact Or.inr hu
  | replyOpen i ack ho =>
    have hi : i < 2^62 := h.unanswered i (List.mem_append_right _ ho)
    apply wait_tame
    · refine ⟨h.idle,h.buffered,h.control,h.cmds,h.callers,fun j hj => ?_,h.unsent⟩
      apply h.unanswered
      rcases List.mem_append.mp hj with hj | hj
      · exact List.mem_append_left _ hj
      · exact List.mem_append_right _ (List.mem_of_mem_erase hj)
    · exact ⟨hi,hb⟩
    · trivial
  | closeTunnel =>
    apply wait_tame e h
    · exact ⟨⟨fun _ => Nat.two_pow_pos 62,fun _ _ => Nat.two_pow_pos 62,by simp⟩,by simp,by simp⟩
    · exact Or.inl rfl
  | enter c hc =>
    apply queue_tame
    · exact ⟨h.idle,h.buffered,h.control,h.cmds,fun d hd => h.callers d (List.mem_of_mem_erase hd),
        h.unanswered,h.unsent⟩
    · exact (h.callers c hc).1
  | sendDatagram dg =>
    have hu : (kind Frame.frameDatagram).concerns = false := by decide
    apply queue_tame e h
    exact ⟨honest_unconcerned _ hu,by simp,by simp⟩
  | closeHandle => exact queue_tame e h _ trivial
  | nextEvent event events he =>
    refine ⟨h.idle,h.buffered,h.control,h.cmds,h.callers,fun i hi => ?_,h.unsent⟩
    apply h.unanswered
    simp only [Endpoint.unanswered, he, List.flatMap_cons, List.mem_append] at hi ⊢
    tauto
  | take c cmds hc hq => exact command_tame e h c cmds hq
  | pushFail => exact endLoop_tame e h
  | push f after hc hw =>
    have hf := h.control
    rw [hc] at hf
    apply setControl_tame
    · refine ⟨h.idle,h.buffered,h.control,h.cmds,h.callers,h.unanswered,fun g hg => ?_⟩
      simp only [Endpoint.unsent, ← List.append_assoc, List.filterMap_append, List.mem_append] at hg
      rcases hg with hg | hg
      · exact h.unsent g (by simpa [Endpoint.unsent] using hg)
      · obtain rfl : g = f := by simpa [OutMsg.sent] using hg
        exact hf.1
    · cases after with
      | nothing | pend => trivial
      | register i =>
        obtain ⟨ack,rfl,-⟩ := hf.2
        exact hf.1.low (by simp [Kind.concerns])
    · simp [Control.offer]
  | finish after hc => exact finish_tame e h after hc
  | receive | write | writePong => cases ha
  | lose event hc => exact setControl_tame e h _ trivial (by simp [Control.offer])
  | emit event hc =>
    refine ⟨h.idle,h.buffered,trivial,h.cmds,h.callers,fun i hi => ?_,h.unsent⟩
    apply h.unanswered
    simp only [Endpoint.unanswered, hc, Control.offer, setControl, List.flatMap_append,
      List.flatMap_cons, List.flatMap_nil, List.append_nil, List.mem_append] at hi ⊢
    tauto
  | notify i hc =>
    have hi := h.control
    rw [hc] at hi
    apply setControl_tame
    · exact setHalf_tame e h i _ hi (Half.buffered_stable.notify _ (h.buffered i))
    · trivial
    · simp [Control.offer]
  | tick =>
    apply setControl_tame e h
    · exact ⟨honest_unconcerned _ (by decide),by decide,by decide⟩
    · simp [Control.offer]
  | stop => exact endLoop_tame e h
  | writerTake m frames hh hf =>
    refine ⟨h.idle,h.buffered,h.control,h.cmds,h.callers,h.unanswered,?_⟩
    have hu := h.unsent
    simpa [Endpoint.unsent, hh, hf] using hu
  | writerFail => exact ⟨h.idle,h.buffered,h.control,h.cmds,h.callers,h.unanswered,by simp [Endpoint.unsent]⟩
  | send i b out f hfit hm =>
    have hi : i < 2^62 := by
      by_contra hn
      rw [(h.idle i (not_lt.mp hn)).out] at hm
      exact Sender.absent_still _ _ _ hm
    have hf := Sender.moves_emit _ _ _ _ hm
    apply task_tame e h i _ hi (Half.buffered_stable.send _ b out f hm (h.buffered i))
    · rcases hf with rfl | ⟨c,rfl⟩ | rfl <;> simp
    · rcases hf with rfl | ⟨c,rfl⟩ | rfl <;> simp
    · rintro c rfl
      exact h.buffered i c (Sender.moves_sent _ _ _ _ hm c rfl)
  | recv i b inn f hfit hm =>
    have hi : i < 2^62 := by
      by_contra hn
      rw [(h.idle i (not_lt.mp hn)).inn] at hm
      exact Receiver.absent_still _ _ _ _ hm
    have hf := Receiver.moves_emit _ _ _ _ _ hm
    apply task_tame e h i _ hi (Half.buffered_stable.recv _ b inn f hm (h.buffered i))
    · rcases hf with rfl | ⟨n,rfl⟩ <;> simp
    · rcases hf with rfl | ⟨n,rfl⟩ <;> simp
    · rcases hf with rfl | ⟨n,rfl⟩ <;> simp

theorem judged_tame (e : Endpoint) (h : e.Tame) (i : ℕ) (req : AuthRequest)
    (resp : Result AuthResponse) : (e.judged i req resp).Tame := by
  have hv : ({ e with verdicts := e.verdicts++[(i,resp)] } : Endpoint).Tame :=
    ⟨h.idle,h.buffered,h.control,h.cmds,h.callers,h.unanswered,h.unsent⟩
  unfold judged
  dsimp only
  split
  · exact ⟨hv.idle,hv.buffered,hv.control,hv.cmds,hv.callers,hv.unanswered,hv.unsent⟩
  · split
    · split
      · exact ⟨hv.idle,hv.buffered,hv.control,hv.cmds,hv.callers,hv.unanswered,hv.unsent⟩
      · exact hv
    · exact hv

theorem told_tame (e : Endpoint) (h : e.Tame) (i : ℕ) (r : Result Unit) : (e.told i r).Tame :=
  ⟨h.idle,h.buffered,h.control,h.cmds,h.callers,h.unanswered,h.unsent⟩

theorem handleAuthRequest_tame (e : Endpoint) (h : e.Tame)
    (validate : AuthRequest → Result AuthResponse) (f : Frame) :
    (e.handleAuthRequest validate f).Tame := by
  have hu : (kind Frame.frameAuthResponse).concerns = false := by decide
  unfold handleAuthRequest
  split
  · split
    · exact respond_tame _ (judged_tame e h _ _ _) _ (honest_unconcerned _ hu) ⟨by simp,by simp⟩
    · exact respond_tame _ h _ (honest_unconcerned _ hu) ⟨by simp,by simp⟩
  · exact h

theorem handleAuthResponse_tame (e : Endpoint) (h : e.Tame) (f : Frame) :
    (e.handleAuthResponse f).Tame := by
  unfold handleAuthResponse
  dsimp only
  split
  · exact ⟨h.idle,h.buffered,h.control,h.cmds,h.callers,h.unanswered,h.unsent⟩
  · split
    · split
      · exact ⟨h.idle,h.buffered,h.control,h.cmds,h.callers,h.unanswered,h.unsent⟩
      · exact h
    · exact h

theorem handleOpenStream_tame (e : Endpoint) (h : e.Tame) (f : Frame) (hf : f.streamId < 2^62) :
    (e.handleOpenStream f).Tame := by
  have hr : refusal.encode.head? ≠ some statusOk := by decide
  unfold handleOpenStream
  split
  · exact respond_tame _ h _ (honest_ack _ _ hf (by decide)) ⟨by simp,fun _ => hr⟩
  · split
    · exact setControl_tame e h _ trivial (by simpa [Control.offer, WsEvent.offer] using hf)
    · exact h

theorem handleOpenStreamAck_tame (e : Endpoint) (h : e.Tame) (f : Frame)
    (hf : f.streamId < 2^62) : (e.handleOpenStreamAck f).Tame := by
  have hp : ({ e with pending := e.pending.erase f.streamId } : Endpoint).Tame :=
    ⟨h.idle,h.buffered,h.control,h.cmds,h.callers,h.unanswered,h.unsent⟩
  unfold handleOpenStreamAck
  split
  · dsimp only
    split
    · split
      · exact told_tame _ (setHalf_tame _ hp _ _ hf Half.buffered_stable.register) _ _
      · exact told_tame _ hp _ _
    · exact told_tame _ hp _ _
  · exact h

theorem handleStreamCredit_tame (e : Endpoint) (h : e.Tame) (f : Frame)
    (hf : f.streamId < 2^62) : (e.handleStreamCredit f).Tame := by
  unfold handleStreamCredit
  split
  · split
    · rename_i amt _ _
      have ht := setHalf_tame e h f.streamId _ hf
        (Half.buffered_stable.credit (e.half f.streamId) amt trivial (h.buffered f.streamId))
      dsimp only
      split
      · exact setControl_tame _ ht _ hf (by simp [Control.offer])
      · exact ht
    · exact h
  · exact h

theorem handleDatagram_tame (e : Endpoint) (h : e.Tame) (f : Frame) : (e.handleDatagram f).Tame := by
  unfold handleDatagram
  split
  · exact h
  · split
    · exact setControl_tame e h _ trivial (by simp [Control.offer, WsEvent.offer])
    · exact h

theorem handleFrame_tame (e : Endpoint) (h : e.Tame)
    (validate : AuthRequest → Result AuthResponse) (f : Frame) (hf : f.streamId < 2^62) :
    (e.handleFrame validate f).Tame := by
  have hu : (kind Frame.framePong).concerns = false := by decide
  unfold handleFrame
  split
  · exact handleAuthRequest_tame e h validate f
  · exact handleAuthResponse_tame e h f
  · exact handleOpenStream_tame e h f hf
  · exact handleOpenStreamAck_tame e h f hf
  · exact setHalf_tame e h _ _ hf (Half.buffered_stable.deliver _ _ (h.buffered _))
  · exact handleStreamCredit_tame e h f hf
  · exact setHalf_tame e h _ _ hf (Half.buffered_stable.close _ (h.buffered _))
  · exact handleDatagram_tame e h f
  · exact respond_tame e h _ (honest_unconcerned _ hu) ⟨by simp,by simp⟩
  · exact h

end Endpoint
end Ws
end Hydr
