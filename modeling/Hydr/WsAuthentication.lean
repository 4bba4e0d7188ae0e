import Mathlib
import Hydr.WsGate
import Hydr.Validation

/-!
# Who gets past the gate

On the control stream the handshake goes to the caller at the first request,
whatever the validator answers. On the streams of a multiplexed connection a
session exists only after a success on that stream.
-/

set_option autoImplicit false

namespace Hydr.Ws
open Message Varint Hydr.Stream Transition

namespace Endpoint

def Gated (e : Endpoint) : Prop := e.handedOver = true ∨ e.yielded ≠ [] → e.Vouched 0

def Gates (b3 : Blake3) (q : Queues) (e : Endpoint) (a : Act) : Prop :=
  ∀ t, e.step b3 q a = some t → t.Gated

def FirstAccepted (b3 : Blake3) (q : Queues) (e : Endpoint) (a : Act) : Prop :=
  ∀ t, e.step b3 q a = some t → ∀ req resp, asked b3 e a = some (0,req,resp) →
    e.serverAuthDone = .armed → Accepted resp

structure Guarded (e : Endpoint) : Prop where
  auth : e.auth = true
  gated : e.Gated
  unasked : e.serverAuthDone = .armed → ∀ resp, (0,resp) ∉ e.verdicts
  handed : e.yielded ≠ [] → e.handedOver = true

theorem server_guarded (mux : Bool) (ob : Option Obfuscator) : (server mux ob).Guarded where
  auth := rfl
  gated h := by simp [server, handedOver] at h
  unasked _ := by simp [server]
  handed h := by simp [server] at h

variable (b3 : Blake3) (q : Queues)

theorem step_unasked (e t : Endpoint) (a : Act) (h : e.step b3 q a = some t) (hi : e.Guarded)
    (ht : t.serverAuthDone = .armed) (resp : Result AuthResponse) : (0,resp) ∉ t.verdicts := by
  have hd : t.gate.serverAuthDone = .armed := ht
  have hv : t.gate.verdicts = t.verdicts := rfl
  rw [← hv]
  rcases step_gate b3 q e t a h with ⟨id,req,r,-,hg⟩ | ⟨-,hg | hg⟩
  · rw [hg] at hd ⊢
    by_cases h0 : id = 0
    · simp only [Gate.judged, h0, if_true, gate] at hd
      cases hc : e.serverAuthDone <;> simp [hc, Oneshot.send] at hd
    · simp only [Gate.judged, h0, if_false] at hd
      have := hi.unasked hd resp
      simpa [Gate.judged, gate, Ne.symm h0] using this
  · rw [hg] at hd ⊢
    exact hi.unasked hd resp
  · rw [hg] at hd
    cases hc : e.serverAuthDone <;> simp [hc, Oneshot.dropped] at hd

theorem step_guarded (e t : Endpoint) (a : Act) (hi : e.Guarded) (hg : Gates b3 q e a)
    (h : e.step b3 q a = some t) : t.Guarded where
  auth := (step_auth b3 q e t a h).trans hi.auth
  gated := hg t h
  unasked := step_unasked b3 q e t a h hi
  handed hy := by
    apply step_handedOver b3 q e t a h hi.auth
    rcases step_yielded b3 q e t a h with hs | hh
    · exact hi.handed (hs ▸ hy)
    · exact hh

theorem gates_iff (e : Endpoint) (a : Act) (hi : e.Guarded) :
    Gates b3 q e a ↔ FirstAccepted b3 q e a := by
  constructor
  · intro hg t h req resp hq hd
    have hv := step_verdicts b3 q e t a h
    rw [hq] at hv
    have ht : t.handedOver = true := by
      apply (handedOver_server t ((step_auth b3 q e t a h).trans hi.auth)).mpr
      rcases step_gate b3 q e t a h with ⟨id,req',resp',hq',hg'⟩ | ⟨hn,-⟩
      · obtain ⟨rfl,rfl,rfl⟩ : 0 = id ∧ req = req' ∧ resp = resp' := by simpa [hq] using hq'
        have hs := congrArg Gate.serverAuthDone hg'
        exact ⟨req,by simpa [Gate.judged, gate, hd, Oneshot.send] using hs⟩
      · simp [hq] at hn
    obtain ⟨r,hm,hr⟩ := hg t h (Or.inl ht)
    rw [hv] at hm
    rcases List.mem_append.mp hm with hm | hm
    · exact absurd hm (hi.unasked hd r)
    · obtain rfl : r = resp := by simpa using hm
      exact hr
  · intro hf t h hy
    cases hh : e.handedOver with
    | true => exact vouched_mono b3 q e t a h 0 (hi.gated (Or.inl hh))
    | false =>
      have ht : t.handedOver = true := by
        rcases hy with ht | hy
        · exact ht
        · rcases step_yielded b3 q e t a h with hs | hs
          · exact absurd (hi.handed (hs ▸ hy)) (by simp [hh])
          · simp [hh] at hs
      obtain ⟨req,resp,hq,hd⟩ := handed_asked b3 q e t a h hi.auth hh ht
      refine ⟨resp,?_,hf t h req resp hq hd⟩
      rw [step_verdicts b3 q e t a h, hq]
      simp

/-- The gate of the control stream holds in every state of a run if and only if
the validator accepts the first request that it gets on stream 0. -/
theorem gate_iff_first_accepted (mux : Bool) (ob : Option Obfuscator) (acts : List Act) :
    Meets (step b3 q) (Gates b3 q) acts (server mux ob) ↔
      Meets (step b3 q) (FirstAccepted b3 q) acts (server mux ob) :=
  meets_iff_along (fun e a t hi hg h => step_guarded b3 q e t a hi hg h)
    (fun e a hi => gates_iff b3 q e a hi) acts _ (server_guarded mux ob)

def exampleServer : Server := ⟨[1],0,.new NonceCache.replayCacheMax⟩

def exampleValidator (req : AuthRequest) : Result AuthResponse :=
  (Server.validate copyHash 0 exampleServer req).1

def emptyProof : AuthRequest :=
  { AuthRequest.newPassword copyHash [1] 0 featureUdp (List.replicate 8 0) with authProof := [] }

def intruder : List Act :=
  [.receive exampleValidator (.binary (Frame.encode ⟨0,Frame.frameAuthRequest,emptyProof.encode⟩)),
    .push,.finish,
    .receive exampleValidator (.binary (Frame.encode
      ⟨0,Frame.frameDatagram,(Datagram.new 1 (.domain [97] 80) [7]).encode⟩)),
    .emit false,.nextEvent]

def Intruded (e : Endpoint) : Prop :=
  e.yielded = [.datagram (Datagram.new 1 (.domain [97] 80) [7])] ∧
    e.verdicts.length = 1 ∧ ∀ v ∈ e.verdicts, v.1 = 0 ∧ ¬Accepted v.2

instance (e : Endpoint) : Decidable (Intruded e) := inferInstanceAs (Decidable (_ ∧ _))

theorem intruder_runs (mux : Bool) :
    ((run (step copyHash Queues.source) intruder (server mux none)).map
      fun e => decide e.Intruded) = some true := by
  cases mux <;> decide +kernel

/-- For either value of `mux` a refused peer gets its tunnel and its events. -/
theorem refused_tunnel_yields : ∃ acts, ∀ mux, ∃ e,
    run (step copyHash Queues.source) acts (server mux none) = some e ∧
      e.yielded ≠ [] ∧ ¬e.Vouched 0 ∧ ¬e.Gated := by
  refine ⟨intruder,fun mux => ?_⟩
  obtain ⟨e,hr,hd⟩ := Option.map_eq_some_iff.mp (intruder_runs mux)
  obtain ⟨hy,-,hv⟩ := of_decide_eq_true hd
  have hn : e.yielded ≠ [] := by simp [hy]
  have hw : ¬e.Vouched 0 := fun ⟨resp,hm,ha⟩ => (hv _ hm).2 ha
  exact ⟨e,hr,hn,hw,fun hg => hw (hg (Or.inr hn))⟩

def Enrolled (e : Endpoint) : Prop := ∃ sessions, e.sessions = some sessions ∧
  ∀ id ∈ sessions, e.Vouched id

theorem server_enrolled (ob : Option Obfuscator) : (server true ob).Enrolled :=
  ⟨∅,rfl,by simp⟩

/-- Only a success changes the set of sessions. -/
theorem step_sessions (e t : Endpoint) (a : Act) (h : e.step b3 q a = some t) :
    t.sessions = e.sessions ∨ ∃ id req resp, asked b3 e a = some (id,req,resp) ∧ Accepted resp ∧
      t.sessions = e.sessions.map (insert id) := by
  have ht : t.gate.sessions = t.sessions := rfl
  have he : e.gate.sessions = e.sessions := rfl
  rcases step_gate b3 q e t a h with ⟨id,req,resp,hq,hg⟩ | ⟨-,hg | hg⟩
  · rw [← ht, ← he, hg]
    by_cases hr : id ≠ 0 ∧ Accepted resp
    · exact Or.inr ⟨id,req,resp,hq,hr.2,by simp [Gate.judged, hr]⟩
    · exact Or.inl (by simp only [Gate.judged, hr, if_false])
  · exact Or.inl (by rw [← ht, hg, he])
  · exact Or.inl (by rw [← ht, hg, ← he])

theorem step_enrolled (e : Endpoint) (a : Act) (t : Endpoint) (hi : e.Enrolled)
    (h : e.step b3 q a = some t) : t.Enrolled := by
  obtain ⟨sessions,hs,hv⟩ := hi
  have hm := fun id hid => vouched_mono b3 q e t a h id (hv id hid)
  rcases step_sessions b3 q e t a h with ht | ⟨id,req,resp,hq,hr,ht⟩
  · exact ⟨sessions,ht.trans hs,hm⟩
  · refine ⟨insert id sessions,by simp [ht, hs],fun k hk => ?_⟩
    rcases Finset.mem_insert.mp hk with rfl | hk
    · exact ⟨resp,by simp [step_verdicts b3 q e t a h, hq],hr⟩
    · exact hm k hk

def heard (e : Endpoint) : Act → Option Frame
  | .receive _ msg => hears b3 e.obfuscation msg
  | _ => none

/-- A stream past the mux gate, or the control stream. -/
theorem authenticated_vouched (e : Endpoint) (hi : e.Enrolled) (id : ℕ)
    (h : e.unauthenticated id = false) : id = 0 ∨ e.Vouched id := by
  obtain ⟨sessions,hs,hv⟩ := hi
  by_cases h0 : id = 0
  · exact Or.inl h0
  · right
    apply hv
    simpa [unauthenticated, hs, h0] using h

@[simp] theorem judged_control (e : Endpoint) (id : ℕ) (req : AuthRequest)
    (resp : Result AuthResponse) : (e.judged id req resp).control = e.control := by
  unfold judged
  dsimp only
  split
  · rfl
  · split
    · split <;> rfl
    · rfl

/-- The loop turns to an event only for a frame past the mux gate. -/
theorem handleFrame_eventing (e : Endpoint) (validate : AuthRequest → Result AuthResponse)
    (f : Frame) (event : WsEvent) (hc : e.control = .select)
    (h : (e.handleFrame validate f).control = .eventing event) :
    e.unauthenticated f.streamId = false := by
  by_contra hu
  simp only [Bool.not_eq_false] at hu
  have hs : e.control ≠ .eventing event := by simp [hc]
  unfold handleFrame at h
  split at h
  · unfold handleAuthRequest at h
    split at h
    · split at h <;> simp [respond] at h
    · exact hs h
  · unfold handleAuthResponse at h
    dsimp only at h
    split at h
    · exact hs h
    · split at h
      · split at h <;> exact hs h
      · exact hs h
  · simp [handleOpenStream, hu, respond] at h
  · unfold handleOpenStreamAck at h
    split at h
    · dsimp only at h
      split at h
      · split at h <;> exact hs h
      · exact hs h
    · exact hs h
  · exact hs h
  · unfold handleStreamCredit at h
    split at h
    · split at h
      · dsimp only at h
        split at h
        · simp at h
        · exact hs h
      · exact hs h
    · exact hs h
  · exact hs h
  · simp only [handleDatagram, hu, if_true] at h
    exact hs h
  · simp [respond] at h
  · exact hs h

theorem step_eventing (e t : Endpoint) (a : Act) (event : WsEvent) (hi : e.Enrolled)
    (h : e.step b3 q a = some t) (ht : t.control = .eventing event) :
    e.control = .eventing event ∨
      ∃ f, heard b3 e a = some f ∧ (f.streamId = 0 ∨ e.Vouched f.streamId) := by
  cases moves_of_step b3 q e t a h with
  | receive validate msg hc =>
    right
    rcases receive_cases b3 q e validate msg with ⟨f,ob,hf,he⟩ | ⟨-,⟨ob,he⟩ | ⟨ob,frames,he⟩⟩
    · rw [he] at ht
      have hu := handleFrame_eventing { e with obfuscation := ob } validate f event hc ht
      exact ⟨f,hf,authenticated_vouched e hi f.streamId hu⟩
    · rw [he] at ht
      cases ht
    · rw [he] at ht
      exact absurd (hc.symm.trans ht) nofun
  | take c => cases c <;> cases ht
  | finish | pushFail | push | lose | emit | notify | tick | stop => cases ht
  | openStream | openStreamAs | authenticate | replyOpen | closeTunnel | enter | sendDatagram
  | closeHandle | nextEvent | writerTake | write | writePong | writerFail => exact Or.inl ht
  | send id a out f => cases f <;> exact Or.inl ht
  | recv id a inn f => cases f <;> exact Or.inl ht

theorem step_events (e t : Endpoint) (a : Act) (event : WsEvent)
    (h : e.step b3 q a = some t) (ht : event ∈ t.events) :
    event ∈ e.events ∨ e.control = .eventing event := by
  cases moves_of_step b3 q e t a h with
  | emit ev hc =>
    rcases List.mem_append.mp ht with hm | hm
    · exact Or.inl hm
    · exact Or.inr (by rw [hc, List.mem_singleton.mp hm])
  | nextEvent ev events he => exact Or.inl (he ▸ List.mem_cons_of_mem _ ht)
  | receive validate msg =>
    left
    rcases receive_cases b3 q e validate msg with ⟨f,ob,-,he⟩ | ⟨-,⟨ob,he⟩ | ⟨ob,frames,he⟩⟩
    · rw [he, (handleFrame_keeps ..).events] at ht
      exact ht
    · rw [he] at ht
      exact ht
    · rw [he] at ht
      exact ht
  | take c => cases c <;> exact Or.inl ht
  | finish after => cases after <;> exact Or.inl ht
  | send id a out f => cases f <;> exact Or.inl ht
  | recv id a inn f => cases f <;> exact Or.inl ht
  | openStream | openStreamAs | authenticate | replyOpen | closeTunnel | enter | sendDatagram
  | closeHandle | pushFail | push | lose | notify | tick | stop | writerTake | write | writePong
  | writerFail => exact Or.inl ht

/-- While the writer runs, a loop that sends a frame of its own queues it once. -/
theorem step_sending (e t : Endpoint) (a : Act) (f : Frame) (h : e.step b3 q a = some t)
    (hc : e.control = .sending f .nothing) (hw : e.writing = true) :
    t.control = .sending f .nothing ∨
      t = ({ e with frames := e.frames++[OutMsg.frame f] }).setControl (.finishing .nothing) := by
  cases moves_of_step b3 q e t a h with
  | push g after hg =>
    obtain ⟨rfl,rfl⟩ : f = g ∧ After.nothing = after := by simpa [hc] using hg
    exact Or.inr rfl
  | pushFail g after hg hn => simp [hw] at hn
  | take _ _ hs | finish _ hs | receive _ _ hs | lose _ hs | emit _ hs | notify _ hs | tick hs
  | stop hs => simp [hc] at hs
  | openStream | openStreamAs | authenticate | replyOpen | closeTunnel | enter | sendDatagram
  | closeHandle | nextEvent | writerTake | write | writePong | writerFail => exact Or.inl hc
  | send id a out f => cases f <;> exact Or.inl hc
  | recv id a inn f => cases f <;> exact Or.inl hc

theorem step_finishing (e t : Endpoint) (a : Act) (h : e.step b3 q a = some t)
    (hc : e.control = .finishing .nothing) :
    t.control = .finishing .nothing ∨ t = e.setControl .select := by
  cases moves_of_step b3 q e t a h with
  | finish after hg =>
    obtain rfl : After.nothing = after := by simpa [hc] using hg
    exact Or.inr rfl
  | take _ _ hs | pushFail _ _ hs | push _ _ hs | receive _ _ hs | lose _ hs | emit _ hs
  | notify _ hs | tick hs | stop hs => simp [hc] at hs
  | openStream | openStreamAs | authenticate | replyOpen | closeTunnel | enter | sendDatagram
  | closeHandle | nextEvent | writerTake | write | writePong | writerFail => exact Or.inl hc
  | send id a out f => cases f <;> exact Or.inl hc
  | recv id a inn f => cases f <;> exact Or.inl hc

theorem step_refused (e t : Endpoint) (a : Act) (f : Frame) (h : e.step b3 q a = some t)
    (hf : heard b3 e a = some f) (hk : kind f.frameType = .openStream)
    (hu : e.unauthenticated f.streamId = true) :
    ∃ ob, t = ({ e with obfuscation := ob }).respond
      ⟨f.streamId,Frame.frameOpenStreamAck,refusal.encode⟩ := by
  cases moves_of_step b3 q e t a h with
  | receive validate msg hc =>
    rcases receive_cases b3 q e validate msg with ⟨g,ob,hg,he⟩ | ⟨hg,-⟩
    · obtain rfl : f = g := Option.some.inj (hf.symm.trans hg)
      refine ⟨ob,?_⟩
      have hu' : ({ e with obfuscation := ob } : Endpoint).unauthenticated f.streamId = true := hu
      rw [he, handleFrame, hk]
      simp only [handleOpenStream, hu', if_true]
    · rw [heard, hg] at hf
      cases hf
  | _ => cases hf

structure Authorised (b3 : Blake3) (q : Queues) (e : Endpoint) (a : Act) : Prop where
  /-- The loop turns to an event only for a frame of a session or of stream 0. -/
  emitted : ∀ t event, e.step b3 q a = some t → t.control = .eventing event →
    e.control = .eventing event ∨
      ∃ f, heard b3 e a = some f ∧ (f.streamId = 0 ∨ e.Vouched f.streamId)
  queued : ∀ t event, e.step b3 q a = some t → event ∈ t.events →
    event ∈ e.events ∨ e.control = .eventing event
  /-- Without a success, malformed requests included, the sessions stay. -/
  kept : ∀ t, e.step b3 q a = some t →
    (∀ id req resp, asked b3 e a = some (id,req,resp) → ¬Accepted resp) → t.sessions = e.sessions
  /-- A stream outside the sessions is refused, and nothing else changes. -/
  refused : ∀ t f sessions, e.step b3 q a = some t → heard b3 e a = some f →
    kind f.frameType = .openStream → e.sessions = some sessions → f.streamId ≠ 0 →
    f.streamId ∉ sessions → ∃ ob, t = ({ e with obfuscation := ob }).setControl
      (.sending ⟨f.streamId,Frame.frameOpenStreamAck,refusal.encode⟩ .nothing)
  answered : ∀ t f, e.step b3 q a = some t → e.control = .sending f .nothing →
    e.writing = true → t.control = .sending f .nothing ∨
      t = ({ e with frames := e.frames++[OutMsg.frame f] }).setControl (.finishing .nothing)
  resumed : ∀ t, e.step b3 q a = some t → e.control = .finishing .nothing →
    t.control = .finishing .nothing ∨ t = e.setControl .select

theorem enrolled_authorised (e : Endpoint) (a : Act) (hi : e.Enrolled) : Authorised b3 q e a where
  emitted t event h ht := step_eventing b3 q e t a event hi h ht
  queued t event h ht := step_events b3 q e t a event h ht
  kept t h hn := by
    rcases step_sessions b3 q e t a h with ht | ⟨id,req,resp,hq,hr,-⟩
    · exact ht
    · exact absurd hr (hn id req resp hq)
  refused t f sessions h hf hk hs h0 hm :=
    step_refused b3 q e t a f h hf hk (by simp [unauthenticated, hs, h0, hm])
  answered t f h hc hw := step_sending b3 q e t a f h hc hw
  resumed t h hc := step_finishing b3 q e t a h hc

/-- On a multiplexed connection every step of every run is authorised. -/
theorem mux_authorised (ob : Option Obfuscator) (acts : List Act) :
    Meets (step b3 q) (Authorised b3 q) acts (server true ob) :=
  meets_always (fun e a t hi h => step_enrolled b3 q e a t hi h)
    (fun e a hi => enrolled_authorised b3 q e a hi) acts _ (server_enrolled ob)

end Endpoint
end Hydr.Ws
