import Mathlib
import Hydr.WsClose

/-!
# The waiters of a connection

Who waits on a run loop, and where the other end of the wait is kept. The senders
of the opens, of the handshake and of the connect call belong to the loop and go
with it. Those of the per-session logins are in the tunnel's own table, and a
pump waits on its credit, which only the loop grants; neither is told of the end.
-/

set_option autoImplicit false

namespace Hydr.Ws
open Message Varint Hydr.Stream Transition

def Parked (s : Sender Bytes) : Prop := s.pump = .wait .parked ∧ s.notified = false

def Parks (s : Sender Bytes) : SendAct Bytes → Prop
  | .check => s.pump = .wait .finalCheck ∧ recvWindow ≤ s.outstanding ∧ s.notified = false
  | _ => False

theorem parked_iff_parks (s t : Sender Bytes) (a : SendAct Bytes) (f : Option (StreamFrame Bytes))
    (hm : Sender.Moves s a t f) (hs : ¬Parked s) : Parked t ↔ Parks s a := by
  cases hm with
  | pass w hp ho => simp [Parked, Parks, ho]
  | turn w next hp ho hw =>
    rcases hw with ⟨rfl,rfl⟩ | ⟨rfl,rfl⟩ | ⟨rfl,rfl⟩ <;> simp [Parked, Parks, hp, ho]
  | subscribe hp | enable hp | wake hp hn => simp [Parked, Parks, hp]
  | chunk b hp | stop hp | enqueue b hp | refuse b hp | count n hp | drained hp | close ok hp =>
    simp [Parked, Parks]
  | take b qs hq hf | forward b hf | lose b hf | finish hp hq hf =>
    exact ⟨fun ht => absurd ht hs,fun h => h.elim⟩

namespace Endpoint

def registers (b3 : Blake3) (e : Endpoint) : Act → Option ℕ
  | .finish =>
    match e.control with
    | .finishing (.register id) => some id
    | _ => none
  | .receive _ msg =>
    match hears b3 e.obfuscation msg with
    | some f =>
      match kind f.frameType, OpenStreamAck.decode f.body with
      | .openStreamAck, .ok (ack,_) =>
        if f.streamId ∈ e.pending ∧ ack.status = statusOk then some f.streamId else none
      | _, _ => none
    | none => none
  | _ => none

end Endpoint

/-- One end with what the loop does not own: for each id the sender in the
tunnel's `pending_auth`, and whether its caller's command was accepted; and the
pumps whose entry was replaced by another stream's. -/
structure Waiters where
  loop : Endpoint
  auths : ℕ → Option Bool
  replaced : List (ℕ × Sender Bytes)

/-- `newest`: the command that gets room is that of the sender in the table. -/
inductive WaitAct where
  | own (a : Act)
  | enter (c : Cmd) (newest : Bool)
  | pump (i : ℕ) (a : SendAct Bytes)

def Cmd.login : Cmd → Option ℕ
  | .sendFrame f => if f.frameType = Frame.frameAuthRequest then some f.streamId else none
  | _ => none

namespace Waiters

variable (b3 : Blake3) (q : Queues)

def init (e : Endpoint) : Waiters := ⟨e,fun _ => none,[]⟩

/-- A new login replaces the sender in the table; an entry that the loop takes
out is answered. -/
def authsAfter (w : Waiters) (a : Act) (e : Endpoint) : ℕ → Option Bool :=
  match a with
  | .authenticate id _ => Function.update w.auths id (some false)
  | _ => fun id =>
    if id ∈ w.loop.pendingAuth.getD ∅ ∧ id ∉ e.pendingAuth.getD ∅ then none else w.auths id

def replacedAfter (w : Waiters) (a : Act) : List (ℕ × Sender Bytes) :=
  match w.loop.registers b3 a with
  | some id => w.replaced++[(id,(w.loop.half id).out)]
  | none => w.replaced

def accept (w : Waiters) (c : Cmd) (newest : Bool) : ℕ → Option Bool :=
  match c.login, newest with
  | some id, true => Function.update w.auths id ((w.auths id).map fun _ => true)
  | _, _ => w.auths

def step (w : Waiters) : WaitAct → Option Waiters
  | .own (.enter _) => none
  | .own a => (w.loop.step b3 q a).map fun e => ⟨e,w.authsAfter a e,w.replacedAfter b3 a⟩
  | .enter c newest =>
    (w.loop.step b3 q (.enter c)).map fun e => { w with loop := e, auths := w.accept c newest }
  | .pump i a =>
    match w.replaced[i]? with
    | some (id,s) =>
      if w.loop.fitsSend q a then
        (s.step a).map fun (t,f) =>
          { w with loop := w.loop.queueTask id f, replaced := w.replaced.set i (id,t) }
      else none
    | none => none

structure Released (w : Waiters) : Prop where
  opens : w.loop.cmds = [] ∧ w.loop.pending = ∅
  connect : w.loop.authResponse ≠ .armed
  accept : w.loop.serverAuthDone ≠ .armed
  auths : ∀ id, w.auths id ≠ some true
  pumps : ∀ id, ¬Parked (w.loop.half id).out
  replaced : ∀ p ∈ w.replaced, ¬Parked p.2

def Releases (w : Waiters) (a : WaitAct) : Prop :=
  ∀ t, step b3 q w a = some t → t.loop.alive = false → t.Released

structure Clear (w : Waiters) : Prop where
  auths : ∀ id, w.auths id ≠ some true
  pumps : ∀ id, ¬Parked (w.loop.half id).out
  replaced : ∀ p ∈ w.replaced, ¬Parked p.2

def EndsLoop (w : Waiters) : WaitAct → Prop
  | .own a => w.loop.Stops b3 a ∧ (w.loop.step b3 q a).isSome
  | _ => False

def ParksPump (w : Waiters) : WaitAct → Prop
  | .own (.send id a) => Parks (w.loop.half id).out a
  | .pump i a => ∃ p, w.replaced[i]? = some p ∧ Parks p.2 a
  | _ => False

structure EndsClear (w : Waiters) (a : WaitAct) : Prop where
  ends : w.loop.alive = true → w.EndsLoop b3 q a → w.Clear
  after : w.loop.alive = false → ¬w.ParksPump a

end Waiters

namespace Endpoint

variable (b3 : Blake3) (q : Queues)

structure Closes (e t : Endpoint) : Prop where
  cmds : t.cmds = []
  pending : t.pending = ∅
  authResponse : t.authResponse ≠ .armed
  serverAuthDone : t.serverAuthDone ≠ .armed
  pendingAuth : t.pendingAuth = e.pendingAuth
  out : ∀ id, (t.half id).out = (e.half id).out

theorem endLoop_closes (e u : Endpoint) (hp : u.pendingAuth = e.pendingAuth)
    (hh : u.half = e.half) : e.Closes u.endLoop where
  cmds := rfl
  pending := rfl
  authResponse := by
    simp only [endLoop]
    cases u.authResponse <;> simp [Oneshot.send]
  serverAuthDone := by
    simp only [endLoop]
    cases u.serverAuthDone <;> simp [Oneshot.dropped]
  pendingAuth := hp
  out id := by
    rw [endLoop_half, hh]
    rfl

theorem stops_closes (e t : Endpoint) (a : Act) (h : e.step b3 q a = some t)
    (ha : e.alive = true) (hs : e.Stops b3 a) :
    e.Closes t ∧ e.registers b3 a = none ∧ ∀ id auth, a ≠ .authenticate id auth := by
  have ht : t.alive = false := dead_of_stops b3 q e t a h hs
  cases moves_of_step b3 q e t a h with
  | take c cmds hc hq =>
    cases c with
    | close => exact ⟨endLoop_closes e _ rfl rfl,rfl,fun _ _ hn => (by cases hn)⟩
    | sendFrame | openStream | replyOpen => cases ht
  | pushFail f after hc hw =>
    exact ⟨endLoop_closes e e rfl rfl,rfl,fun _ _ hn => (by cases hn)⟩
  | push f after hc hw => cases ht
  | stop hc => exact ⟨endLoop_closes e e rfl rfl,rfl,fun _ _ hn => (by cases hn)⟩
  | receive validate msg hc =>
    rcases receive_cases b3 q e validate msg with ⟨f,ob,-,he⟩ | ⟨hn,⟨ob,he⟩ | ⟨ob,frames,he⟩⟩
    · rw [he, handleFrame_goes { e with obfuscation := ob } validate f hc] at ht
      cases ht
    · rw [he]
      exact ⟨endLoop_closes e _ rfl rfl,by simp [registers, hn],fun _ _ hn => (by cases hn)⟩
    · rw [he] at ht
      cases ha.symm.trans ht
  | _ => exact hs.elim

structure Rests (e t : Endpoint) (a : Act) : Prop where
  cmds : t.cmds = e.cmds
  pending : t.pending = e.pending
  authResponse : t.authResponse = e.authResponse
  serverAuthDone : t.serverAuthDone = e.serverAuthDone
  pendingAuth : (∀ id auth, a ≠ .authenticate id auth) → t.pendingAuth = e.pendingAuth
  out : ∀ id, (∀ b, a ≠ .send id b) → (t.half id).out = (e.half id).out
  moves : ∀ id b, a = .send id b → ∃ f, Sender.Moves (e.half id).out b (t.half id).out f

theorem room_alive (e : Endpoint) (hr : e.room q = true) : e.alive = true := by
  simp only [room, Bool.and_eq_true] at hr
  exact hr.1

/-- Behind an ended loop no task gets a frame through. -/
theorem fitsSend_none (e : Endpoint) (s t : Sender Bytes) (a : SendAct Bytes)
    (f : Option (StreamFrame Bytes)) (he : e.alive = false) (hf : e.fitsSend q a = true)
    (hm : Sender.Moves s a t f) : f = none := by
  cases hm with
  | forward b hb => cases he.symm.trans (room_alive q e hf)
  | close ok hp =>
    cases ok with
    | true => cases he.symm.trans (room_alive q e hf)
    | false => rfl
  | _ => rfl

theorem fitsRecv_none (e : Endpoint) (closed : Bool) (r t : Receiver Bytes) (a : RecvAct)
    (f : Option (StreamFrame Bytes)) (he : e.alive = false) (hf : e.fitsRecv q a = true)
    (hm : Receiver.Moves closed r a t f) : f = none := by
  cases hm with
  | giveBack n h0 hn ha hp =>
    have hr : e.room q = true := by simpa [fitsRecv] using hf
    cases he.symm.trans (room_alive q e hr)
  | _ => rfl

theorem step_rests (e t : Endpoint) (a : Act) (h : e.step b3 q a = some t)
    (he : e.alive = false) : e.Rests t a ∧ e.registers b3 a = none := by
  have hn : ∀ c, e.control = c → c = .ended := control_of_dead e he
  cases moves_of_step b3 q e t a h with
  | authenticate id auth =>
    exact ⟨⟨rfl,rfl,rfl,rfl,fun hn => absurd rfl (hn id auth),fun _ _ => rfl,
      fun _ _ hb => (by cases hb)⟩,rfl⟩
  | enter c hc hr | sendDatagram dg hr | closeHandle hr => cases he.symm.trans (room_alive q e hr)
  | take c cmds hc => cases hn _ hc
  | pushFail f after hc | push f after hc | finish after hc | receive validate msg hc
  | lose event hc | emit event hc | notify id hc | tick hc | stop hc => cases hn _ hc
  | send id b out f hf hm =>
    obtain rfl := fitsSend_none q e _ _ b f he hf hm
    refine ⟨⟨rfl,rfl,rfl,rfl,fun _ => rfl,fun i hi => ?_,fun i c hc => ?_⟩,rfl⟩
    · have hne : i ≠ id := fun hi' => hi b (by rw [hi'])
      simp [queueTask, Function.update_of_ne hne]
    · cases hc
      exact ⟨none,by simpa [queueTask] using hm⟩
  | recv id b inn f hf hm =>
    obtain rfl := fitsRecv_none q e _ _ _ b f he hf hm
    refine ⟨⟨rfl,rfl,rfl,rfl,fun _ => rfl,fun i _ => ?_,fun _ _ hb => (by cases hb)⟩,rfl⟩
    rcases eq_or_ne i id with rfl | hne
    · simp [queueTask]
    · simp [queueTask, Function.update_of_ne hne]
  | openStream | openStreamAs | replyOpen | closeTunnel | nextEvent | writerTake | write | writePong
  | writerFail =>
    exact ⟨⟨rfl,rfl,rfl,rfl,fun _ => rfl,fun _ _ => rfl,fun _ _ hb => (by cases hb)⟩,rfl⟩

end Endpoint

namespace Waiters

variable (b3 : Blake3) (q : Queues)

inductive Moves (w : Waiters) : WaitAct → Waiters → Prop where
  | own (a : Act) (e : Endpoint) (h : w.loop.step b3 q a = some e) :
    Moves w (.own a) ⟨e,w.authsAfter a e,w.replacedAfter b3 a⟩
  | enter (c : Cmd) (newest : Bool) (e : Endpoint) (h : w.loop.step b3 q (.enter c) = some e) :
    Moves w (.enter c newest) { w with loop := e, auths := w.accept c newest }
  | pump (i id : ℕ) (a : SendAct Bytes) (s t : Sender Bytes) (f : Option (StreamFrame Bytes))
      (hi : w.replaced[i]? = some (id,s)) (hf : w.loop.fitsSend q a = true)
      (hm : Sender.Moves s a t f) :
    Moves w (.pump i a)
      { w with loop := w.loop.queueTask id f, replaced := w.replaced.set i (id,t) }

theorem moves_of_step (w v : Waiters) (a : WaitAct) (h : step b3 q w a = some v) :
    Moves b3 q w a v := by
  cases a with
  | own a =>
    have hs : (w.loop.step b3 q a).map (fun e => (⟨e,w.authsAfter a e,w.replacedAfter b3 a⟩ : Waiters)) =
        some v := by
      cases a <;> first | exact h | cases h
    obtain ⟨e,he,rfl⟩ := Option.map_eq_some_iff.mp hs
    exact .own a e he
  | enter c newest =>
    obtain ⟨e,he,rfl⟩ := Option.map_eq_some_iff.mp h
    exact .enter c newest e he
  | pump i a =>
    simp only [step] at h
    split at h
    · rename_i id s hi
      split_ifs at h with hf
      obtain ⟨⟨t,f⟩,hm,rfl⟩ := Option.map_eq_some_iff.mp h
      exact .pump i id a s t f hi hf (Sender.moves_of_step _ _ _ _ hm)
    · cases h

theorem authsAfter_of_pendingAuth (w : Waiters) (a : Act) (e : Endpoint)
    (hp : (∀ id auth, a ≠ .authenticate id auth) → e.pendingAuth = w.loop.pendingAuth) (id : ℕ)
    (h : w.authsAfter a e id = some true) : w.auths id = some true := by
  unfold authsAfter at h
  split at h
  · rename_i i auth
    rcases eq_or_ne id i with rfl | hne
    · simp at h
    · rwa [Function.update_of_ne hne] at h
  · rename_i hn
    dsimp only at h
    rwa [hp hn, if_neg fun hm => hm.2 hm.1] at h

/-- Behind an ended loop the waiters stay released, unless a pump goes to wait. -/
theorem step_released_iff (w v : Waiters) (a : WaitAct) (h : step b3 q w a = some v)
    (hd : w.loop.alive = false) (hw : w.Released) : v.Released ↔ ¬w.ParksPump a := by
  cases moves_of_step b3 q w v a h with
  | own a e he =>
    obtain ⟨hr,hreg⟩ := Endpoint.step_rests b3 q w.loop e a he hd
    have hrep : w.replacedAfter b3 a = w.replaced := by rw [replacedAfter, hreg]
    constructor
    · intro hv hp
      cases a with
      | send id b =>
        obtain ⟨f,hm⟩ := hr.moves id b rfl
        exact hv.pumps id ((parked_iff_parks _ _ b f hm (hw.pumps id)).mpr hp)
      | _ => exact hp
    · intro hp
      refine ⟨⟨hr.cmds.trans hw.opens.1,hr.pending.trans hw.opens.2⟩,?_,?_,?_,fun id => ?_,?_⟩
      · rw [hr.authResponse]
        exact hw.connect
      · rw [hr.serverAuthDone]
        exact hw.accept
      · exact fun id ha => hw.auths id (authsAfter_of_pendingAuth w a e hr.pendingAuth id ha)
      · by_cases hs : ∃ b, a = .send id b
        · obtain ⟨b,rfl⟩ := hs
          obtain ⟨f,hm⟩ := hr.moves id b rfl
          exact fun hk => hp ((parked_iff_parks _ _ b f hm (hw.pumps id)).mp hk)
        · rw [show (e.half id).out = _ from hr.out id fun b hb => hs ⟨b,hb⟩]
          exact hw.pumps id
      · rw [hrep]
        exact hw.replaced
  | enter c newest e he =>
    cases Endpoint.moves_of_step b3 q _ _ _ he with
    | enter c hc hr => cases hd.symm.trans (Endpoint.room_alive q _ hr)
  | pump i id a s t f hi hf hm =>
    obtain rfl := Endpoint.fitsSend_none q w.loop s t a f hd hf hm
    have hs : ¬Parked s := hw.replaced (id,s) (List.mem_of_getElem? hi)
    have ht := parked_iff_parks s t a none hm hs
    constructor
    · rintro hv ⟨p,hp,hk⟩
      obtain rfl := Option.some.inj (hi.symm.trans hp)
      exact hv.replaced (id,t) (List.mem_set (List.getElem?_eq_some_iff.mp hi).1 _) (ht.mpr hk)
    · intro hp
      refine ⟨hw.opens,hw.connect,hw.accept,hw.auths,hw.pumps,fun p hm' => ?_⟩
      rcases List.mem_or_eq_of_mem_set hm' with hm' | rfl
      · exact hw.replaced p hm'
      · exact fun hk => hp ⟨(id,s),hi,ht.mp hk⟩

/-- The end of the loop releases the waiters exactly in a clear state. -/
theorem end_released_iff (w : Waiters) (a : Act) (e : Endpoint)
    (h : w.loop.step b3 q a = some e) (ha : w.loop.alive = true) (hs : w.loop.Stops b3 a) :
    Released ⟨e,w.authsAfter a e,w.replacedAfter b3 a⟩ ↔ w.Clear := by
  obtain ⟨hc,hreg,hn⟩ := Endpoint.stops_closes b3 q w.loop e a h ha hs
  have hrep : w.replacedAfter b3 a = w.replaced := by rw [replacedAfter, hreg]
  have hauths : w.authsAfter a e = w.auths := by
    unfold authsAfter
    split
    · exact absurd rfl (hn _ _)
    · funext id
      rw [hc.pendingAuth, if_neg fun hm => hm.2 hm.1]
  rw [hauths, hrep]
  constructor
  · exact fun hv => ⟨hv.auths,fun id hk => hv.pumps id (by rwa [hc.out id]),hv.replaced⟩
  · exact fun hv => ⟨⟨hc.cmds,hc.pending⟩,hc.authResponse,hc.serverAuthDone,hv.auths,
      fun id hk => hv.pumps id (by rwa [← hc.out id]),hv.replaced⟩

theorem step_own (w : Waiters) (a : Act) (e : Endpoint) (hn : ∀ c, a ≠ .enter c)
    (h : w.loop.step b3 q a = some e) :
    step b3 q w (.own a) = some ⟨e,w.authsAfter a e,w.replacedAfter b3 a⟩ := by
  cases a with
  | enter c => exact absurd rfl (hn c)
  | _ => simp only [step, h, Option.map_some]

theorem parks_step (s : Sender Bytes) (a : SendAct Bytes) (h : Parks s a) :
    a = .check ∧ s.step a = some ({ s with pump := .wait .parked },none) := by
  cases a with
  | check => exact ⟨rfl,by simp [Sender.step, h.1, Sender.check, Sender.checkWindow, h.2.1]⟩
  | _ => exact h.elim

/-- A pump whose window is full can always take the step. -/
theorem parksPump_step (w : Waiters) (a : WaitAct) (h : w.ParksPump a) :
    ∃ v, step b3 q w a = some v := by
  cases a with
  | own a =>
    cases a with
    | send id a =>
      obtain ⟨rfl,hs⟩ := parks_step _ a h
      have he := fun e => step_own b3 q w (.send id .check) e fun c hc => (by cases hc)
      simp only [Endpoint.step, Endpoint.fitsSend, SendAct.admits, if_true, hs,
        Option.map_some] at he
      exact ⟨_,he _ rfl⟩
    | _ => exact h.elim
  | enter c newest => exact h.elim
  | pump i a =>
    obtain ⟨⟨id,s⟩,hi,hp⟩ := h
    obtain ⟨rfl,hs⟩ := parks_step s a hp
    apply Option.isSome_iff_exists.mp
    simp only [step, hi, Endpoint.fitsSend, SendAct.admits, if_true, hs, Option.map_some,
      Option.isSome_some]

theorem step_alive_iff (w v : Waiters) (a : WaitAct) (h : step b3 q w a = some v) :
    v.loop.alive = true ↔ w.loop.alive = true ∧ ¬w.EndsLoop b3 q a := by
  cases moves_of_step b3 q w v a h with
  | own a e he =>
    rw [Endpoint.step_alive_iff b3 q w.loop e a he]
    simp [EndsLoop, he]
  | enter c newest e he =>
    rw [Endpoint.step_alive_iff b3 q w.loop e _ he]
    simp [EndsLoop, Endpoint.Stops]
  | pump i id a s t f hi hf hm =>
    have hk : (w.loop.queueTask id f).alive = w.loop.alive := by cases f <;> rfl
    simp [hk, EndsLoop]

theorem releases_iff (w : Waiters) (a : WaitAct) (hi : w.loop.alive = false → w.Released) :
    w.Releases b3 q a ↔ w.EndsClear b3 q a := by
  cases ha : w.loop.alive with
  | false =>
    constructor
    · intro hr
      refine ⟨fun h => (by cases ha.symm.trans h),fun _ hp => ?_⟩
      obtain ⟨v,hv⟩ := parksPump_step b3 q w a hp
      have hd : v.loop.alive = false := by
        rw [Bool.eq_false_iff, Ne, step_alive_iff b3 q w v a hv, ha]
        simp
      exact (step_released_iff b3 q w v a hv ha (hi ha)).mp (hr v hv hd) hp
    · exact fun hc v hv _ => (step_released_iff b3 q w v a hv ha (hi ha)).mpr (hc.after ha)
  | true =>
    constructor
    · intro hr
      refine ⟨fun _ he => ?_,fun h => (by cases ha.symm.trans h)⟩
      cases a with
      | own a =>
        obtain ⟨hs,e,hstep⟩ := he.imp_right Option.isSome_iff_exists.mp
        have hn : ∀ c, a ≠ .enter c := by
          rintro c rfl
          exact hs
        have hv := step_own b3 q w a e hn hstep
        have hd : e.alive = false := Endpoint.dead_of_stops b3 q w.loop e a hstep hs
        exact (end_released_iff b3 q w a e hstep ha hs).mp (hr _ hv hd)
      | _ => exact he.elim
    · intro hc v hv hd
      have he : w.EndsLoop b3 q a := by
        by_contra hn
        rw [(step_alive_iff b3 q w v a hv).mpr ⟨ha,hn⟩] at hd
        cases hd
      cases moves_of_step b3 q w v a hv with
      | own a e hstep => exact (end_released_iff b3 q w a e hstep ha he.1).mpr (hc.ends ha he)
      | enter | pump => exact he.elim

/-- In every run of either end, no waiter is left behind its ended loop exactly
when the loop ends in a clear state and no pump goes to wait after that. -/
theorem waiters_released_iff (auth : AuthRequest) (mux : Bool) (ob : Bool → Option Obfuscator)
    (x : Bool) (as : List WaitAct) :
    Meets (step b3 q) (Releases b3 q) as (init ((Link.init auth mux ob).ends x)) ↔
      Meets (step b3 q) (EndsClear b3 q) as (init ((Link.init auth mux ob).ends x)) := by
  refine meets_iff_along (I := fun w => w.loop.alive = false → w.Released)
    (fun w a v _ hr hv => hr v hv) (fun w a hi => releases_iff b3 q w a hi) as _ fun hn => ?_
  cases x <;> cases hn

def admitted : WsMessage :=
  .binary (Frame.encode ⟨0,Frame.frameAuthResponse,(AuthResponse.ok 0 0).encode⟩)

/-- A login is sent, and the connection fails before the answer. -/
theorem authenticate_never_returns :
    ¬∀ (b3 : Blake3) (q : Queues) (auth : AuthRequest) (as : List WaitAct) (w : Waiters),
      run (step b3 q) as (init (.client auth none)) = some w → w.loop.alive = false → w.Released := by
  intro h
  have hd : ((run (step copyHash .source)
      [.enter (.sendFrame ⟨0,Frame.frameAuthRequest,Link.exampleAuth.encode⟩) false,
        .own .take,.own .push,.own .finish,.own (.receive Endpoint.exampleValidator admitted),
        .own (.authenticate 5 Link.exampleAuth),
        .enter (.sendFrame ⟨5,Frame.frameAuthRequest,Link.exampleAuth.encode⟩) true,.own .stop]
      (init (.client Link.exampleAuth none))).map fun w =>
        decide (w.loop.alive = false ∧ w.auths 5 = some true)) = some true := by decide +kernel
  obtain ⟨w,hr,hw⟩ := Option.map_eq_some_iff.mp hd
  obtain ⟨ha,h5⟩ := of_decide_eq_true hw
  exact (h copyHash .source Link.exampleAuth _ w hr ha).auths 5 h5

end Waiters

end Hydr.Ws
