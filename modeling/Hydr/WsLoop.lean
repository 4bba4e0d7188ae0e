import Mathlib
import Hydr.WsEndpoint

/-!
# The steps of one end

The callers of the tunnel, the branches of the run loop between two awaits, the
writer task, and the tasks of the streams. A send into a bounded channel is a
step that waits for room; `try_send` looks at the room there is.
-/

set_option autoImplicit false

namespace Hydr.Ws
open Message Varint Hydr.Stream

inductive Act where
  | openStream (address : Address)
  | openStreamAs (id : ℕ) (address : Address)
  | authenticate (id : ℕ) (auth : AuthRequest)
  | replyOpen (id : ℕ) (ack : OpenStreamAck)
  | closeTunnel
  | enter (c : Cmd)
  | sendDatagram (dg : Datagram)
  | closeHandle
  | nextEvent
  | take
  | push
  | finish
  | receive (validate : AuthRequest → Result AuthResponse) (msg : WsMessage)
  | emit (lost : Bool)
  | notify
  | tick
  | stop
  | writerTake
  | write (salt : Obfuscator.Salt)
  | writerFail
  | send (id : ℕ) (a : SendAct Bytes)
  | recv (id : ℕ) (a : RecvAct)

def taskFrame (id : ℕ) : StreamFrame Bytes → Frame
  | .openStream => ⟨id,Frame.frameOpenStream,[]⟩
  | .ack ok => ⟨id,Frame.frameOpenStreamAck,(if ok then OpenStreamAck.ok else Endpoint.refusal).encode⟩
  | .data chunk => Frame.data id chunk
  | .credit amount => ⟨id,Frame.frameStreamCredit,encodeVarint amount⟩
  | .close => ⟨id,Frame.frameStreamClose,[]⟩

namespace Endpoint

def room (q : Queues) (e : Endpoint) : Bool := e.alive && e.cmds.length < q.cmds

@[simps] def queue (e : Endpoint) (c : Cmd) : Endpoint := { e with cmds := e.cmds++[c] }

@[simps] def wait (e : Endpoint) (c : Cmd) : Endpoint := { e with callers := e.callers++[c] }

def queueTask (e : Endpoint) (id : ℕ) : Option (StreamFrame Bytes) → Endpoint
  | some f => e.queue (.sendFrame (taskFrame id f))
  | none => e

def command (e : Endpoint) : Cmd → Endpoint
  | .sendFrame f => e.setControl (.sending f .nothing)
  | .openStream id address =>
    e.setControl (.sending ⟨id,Frame.frameOpenStream,(OpenStream.mk address).encode⟩ (.pend id))
  | .replyOpen id ack =>
    e.setControl (.sending ⟨id,Frame.frameOpenStreamAck,ack.encode⟩
      (if ack.status = statusOk then .register id else .nothing))
  | .close => e.endLoop

def after (e : Endpoint) : After → Endpoint
  | .nothing => e
  | .pend id => { e with pending := insert id e.pending }
  | .register id => e.setHalf id .register

/-- Whether a task's step fits the command channel: it succeeds into an open
one, waits for room, and `try_send` is refused exactly when there is none. -/
def fitsSend (q : Queues) (e : Endpoint) : SendAct Bytes → Bool
  | .forward true => e.room q
  | .close true => e.room q
  | a => a.admits e.alive

def fitsRecv (q : Queues) (e : Endpoint) : RecvAct → Bool
  | .read _ refused => refused == !e.room q
  | _ => true

def step (b3 : Blake3) (q : Queues) (e : Endpoint) : Act → Option Endpoint
  | .openStream address =>
    if e.handedOver then
      some ({ e with nextStreamId := e.nextStreamId+1 }.wait (.openStream (e.nextStreamId+1) address))
    else none
  | .openStreamAs id address =>
    if e.handedOver then some (e.wait (.openStream id address)) else none
  | .authenticate id auth =>
    if e.handedOver then
      some ({ e with pendingAuth := e.pendingAuth.map (insert id) }.wait
        (.sendFrame ⟨id,Frame.frameAuthRequest,auth.encode⟩))
    else none
  | .replyOpen id ack =>
    if id ∈ e.offers then
      some ({ e with offers := e.offers.erase id }.wait (.replyOpen id ack))
    else none
  | .closeTunnel =>
    if e.handedOver then some (e.wait (.sendFrame ⟨0,Frame.frameStreamClose,[]⟩)) else none
  | .enter c =>
    if c ∈ e.callers ∧ e.room q then
      some ({ e with callers := e.callers.erase c }.queue c)
    else none
  | .sendDatagram dg =>
    if e.handedOver ∧ e.room q then some (e.queue (.sendFrame ⟨0,Frame.frameDatagram,dg.encode⟩))
    else none
  | .closeHandle => if e.handedOver ∧ e.room q then some (e.queue .close) else none
  | .nextEvent =>
    match e.events with
    | event::events =>
      if e.handedOver then
        some { e with
          events := events
          offers := e.offers++event.offer
          yielded := e.yielded++[event] }
      else none
    | [] => none
  | .take =>
    match e.control, e.cmds with
    | .select, c::cmds => some ({ e with cmds := cmds }.command c)
    | _, _ => none
  | .push =>
    match e.control with
    | .sending f after =>
      if !e.writing then some e.endLoop
      else if e.frames.length < q.frames then
        some ({ e with frames := e.frames++[OutMsg.frame f] }.setControl (.finishing after))
      else none
    | _ => none
  | .finish =>
    match e.control with
    | .finishing after => some ((e.after after).setControl .select)
    | _ => none
  | .receive validate msg =>
    match e.control with
    | .select => some (e.receive b3 q validate msg)
    | _ => none
  | .emit lost =>
    match e.control with
    | .eventing event =>
      if lost then some (e.setControl .select)
      else if e.events.length < q.events then
        some ({ e with events := e.events++[event] }.setControl .select)
      else none
    | _ => none
  | .notify =>
    match e.control with
    | .granting id =>
      some ((e.setHalf id { e.half id with out := (e.half id).out.notify }).setControl .select)
    | _ => none
  | .tick =>
    match e.control with
    | .select => some (e.setControl (.sending Frame.ping .nothing))
    | _ => none
  | .stop =>
    match e.control with
    | .select => some e.endLoop
    | _ => none
  | .writerTake =>
    match e.hand, e.frames with
    | none, m::frames => if e.writing then some { e with hand := some m, frames := frames } else none
    | _, _ => none
  | .write salt =>
    match e.hand with
    | some (.frame f) =>
      some { e with hand := none, obfuscation := (outbound b3 salt f e.obfuscation).2 }
    | some (.wsPong _) => some { e with hand := none }
    | none => none
  | .writerFail =>
    if e.writing then some { e with writing := false, hand := none, frames := [] } else none
  | .send id a =>
    if e.fitsSend q a then
      ((e.half id).out.step a).map fun (out,f) =>
        (e.setHalf id { e.half id with out := out }).queueTask id f
    else none
  | .recv id a =>
    if e.fitsRecv q a then
      ((e.half id).inn.step (!(e.half id).streams) a).map fun (inn,f) =>
        (e.setHalf id { e.half id with inn := inn }).queueTask id f
    else none

inductive Moves (b3 : Blake3) (q : Queues) (e : Endpoint) : Act → Endpoint → Prop where
  | openStream (address : Address) (hh : e.handedOver = true) :
    Moves b3 q e (.openStream address) ({ e with nextStreamId := e.nextStreamId+1 }.wait
      (.openStream (e.nextStreamId+1) address))
  | openStreamAs (id : ℕ) (address : Address) (hh : e.handedOver = true) :
    Moves b3 q e (.openStreamAs id address) (e.wait (.openStream id address))
  | authenticate (id : ℕ) (auth : AuthRequest) (hh : e.handedOver = true) :
    Moves b3 q e (.authenticate id auth)
      ({ e with pendingAuth := e.pendingAuth.map (insert id) }.wait
        (.sendFrame ⟨id,Frame.frameAuthRequest,auth.encode⟩))
  | replyOpen (id : ℕ) (ack : OpenStreamAck) (ho : id ∈ e.offers) :
    Moves b3 q e (.replyOpen id ack)
      ({ e with offers := e.offers.erase id }.wait (.replyOpen id ack))
  | closeTunnel (hh : e.handedOver = true) :
    Moves b3 q e .closeTunnel (e.wait (.sendFrame ⟨0,Frame.frameStreamClose,[]⟩))
  | enter (c : Cmd) (hc : c ∈ e.callers) (hr : e.room q = true) :
    Moves b3 q e (.enter c) ({ e with callers := e.callers.erase c }.queue c)
  | sendDatagram (dg : Datagram) (hr : e.room q = true) :
    Moves b3 q e (.sendDatagram dg) (e.queue (.sendFrame ⟨0,Frame.frameDatagram,dg.encode⟩))
  | closeHandle (hr : e.room q = true) : Moves b3 q e .closeHandle (e.queue .close)
  | nextEvent (event : WsEvent) (events : List WsEvent) (he : e.events = event::events)
      (hh : e.handedOver = true) :
    Moves b3 q e .nextEvent { e with
      events := events
      offers := e.offers++event.offer
      yielded := e.yielded++[event] }
  | take (c : Cmd) (cmds : List Cmd) (hc : e.control = .select) (hq : e.cmds = c::cmds) :
    Moves b3 q e .take ({ e with cmds := cmds }.command c)
  | pushFail (f : Frame) (after : After) (hc : e.control = .sending f after)
      (hw : e.writing = false) : Moves b3 q e .push e.endLoop
  | push (f : Frame) (after : After) (hc : e.control = .sending f after)
      (hw : e.writing = true) :
    Moves b3 q e .push
      ({ e with frames := e.frames++[OutMsg.frame f] }.setControl (.finishing after))
  | finish (after : After) (hc : e.control = .finishing after) :
    Moves b3 q e .finish ((e.after after).setControl .select)
  | receive (validate : AuthRequest → Result AuthResponse) (msg : WsMessage)
      (hc : e.control = .select) :
    Moves b3 q e (.receive validate msg) (e.receive b3 q validate msg)
  | lose (event : WsEvent) (hc : e.control = .eventing event) :
    Moves b3 q e (.emit true) (e.setControl .select)
  | emit (event : WsEvent) (hc : e.control = .eventing event) :
    Moves b3 q e (.emit false) ({ e with events := e.events++[event] }.setControl .select)
  | notify (id : ℕ) (hc : e.control = .granting id) :
    Moves b3 q e .notify
      ((e.setHalf id { e.half id with out := (e.half id).out.notify }).setControl .select)
  | tick (hc : e.control = .select) :
    Moves b3 q e .tick (e.setControl (.sending Frame.ping .nothing))
  | stop (hc : e.control = .select) : Moves b3 q e .stop e.endLoop
  | writerTake (m : OutMsg) (frames : List OutMsg) (hh : e.hand = none)
      (hf : e.frames = m::frames) (hw : e.writing = true) :
    Moves b3 q e .writerTake { e with hand := some m, frames := frames }
  | write (salt : Obfuscator.Salt) (f : Frame) (hh : e.hand = some (.frame f)) :
    Moves b3 q e (.write salt)
      { e with hand := none, obfuscation := (outbound b3 salt f e.obfuscation).2 }
  | writePong (salt : Obfuscator.Salt) (payload : Bytes) (hh : e.hand = some (.wsPong payload)) :
    Moves b3 q e (.write salt) { e with hand := none }
  | writerFail (hw : e.writing = true) :
    Moves b3 q e .writerFail { e with writing := false, hand := none, frames := [] }
  | send (id : ℕ) (a : SendAct Bytes) (out : Sender Bytes) (f : Option (StreamFrame Bytes))
      (ha : e.fitsSend q a = true) (hm : Sender.Moves (e.half id).out a out f) :
    Moves b3 q e (.send id a) ((e.setHalf id { e.half id with out := out }).queueTask id f)
  | recv (id : ℕ) (a : RecvAct) (inn : Receiver Bytes) (f : Option (StreamFrame Bytes))
      (ha : e.fitsRecv q a = true)
      (hm : Receiver.Moves (!(e.half id).streams) (e.half id).inn a inn f) :
    Moves b3 q e (.recv id a) ((e.setHalf id { e.half id with inn := inn }).queueTask id f)

theorem moves_of_step (b3 : Blake3) (q : Queues) (e t : Endpoint) (a : Act)
    (h : e.step b3 q a = some t) : Moves b3 q e a t := by
  cases a with
  | openStream address =>
    simp only [step] at h
    split_ifs at h with hh
    cases h
    exact .openStream address hh
  | openStreamAs id address =>
    simp only [step] at h
    split_ifs at h with hh
    cases h
    exact .openStreamAs id address hh
  | authenticate id auth =>
    simp only [step] at h
    split_ifs at h with hh
    cases h
    exact .authenticate id auth hh
  | replyOpen id ack =>
    simp only [step] at h
    split_ifs at h with ho
    cases h
    exact .replyOpen id ack ho
  | closeTunnel =>
    simp only [step] at h
    split_ifs at h with hh
    cases h
    exact .closeTunnel hh
  | enter c =>
    simp only [step] at h
    split_ifs at h with hc
    cases h
    exact .enter c hc.1 hc.2
  | sendDatagram dg =>
    simp only [step] at h
    split_ifs at h with hr
    cases h
    exact .sendDatagram dg hr.2
  | closeHandle =>
    simp only [step] at h
    split_ifs at h with hr
    cases h
    exact .closeHandle hr.2
  | nextEvent =>
    simp only [step] at h
    split at h
    · rename_i event events he
      split_ifs at h with hh
      cases h
      exact .nextEvent event events he hh
    · cases h
  | take =>
    simp only [step] at h
    split at h
    · rename_i c cmds hc hq
      cases h
      exact .take c cmds hc hq
    · cases h
  | push =>
    simp only [step] at h
    split at h
    · rename_i f after hc
      split_ifs at h with hw hf
      · cases h
        exact .pushFail f after hc (by simpa using hw)
      · cases h
        exact .push f after hc (by simpa using hw)
    · cases h
  | finish =>
    simp only [step] at h
    split at h
    · rename_i after hc
      cases h
      exact .finish after hc
    · cases h
  | receive validate msg =>
    simp only [step] at h
    split at h
    · rename_i hc
      cases h
      exact .receive validate msg hc
    · cases h
  | emit lost =>
    simp only [step] at h
    split at h
    · rename_i event hc
      split_ifs at h with hl he
      · cases h
        subst hl
        exact .lose event hc
      · cases h
        obtain rfl := Bool.eq_false_iff.mpr hl
        exact .emit event hc
    · cases h
  | notify =>
    simp only [step] at h
    split at h
    · rename_i id hc
      cases h
      exact .notify id hc
    · cases h
  | tick =>
    simp only [step] at h
    split at h
    · rename_i hc
      cases h
      exact .tick hc
    · cases h
  | stop =>
    simp only [step] at h
    split at h
    · rename_i hc
      cases h
      exact .stop hc
    · cases h
  | writerTake =>
    simp only [step] at h
    split at h
    · rename_i m frames hh hf
      split_ifs at h with hw
      cases h
      exact .writerTake m frames hh hf hw
    · cases h
  | write salt =>
    simp only [step] at h
    split at h
    · rename_i f hh
      cases h
      exact .write salt f hh
    · rename_i payload hh
      cases h
      exact .writePong salt payload hh
    · cases h
  | writerFail =>
    simp only [step] at h
    split_ifs at h with hw
    cases h
    exact .writerFail hw
  | send id a =>
    simp only [step] at h
    split_ifs at h with ha
    obtain ⟨⟨out,f⟩,hm,he⟩ := Option.map_eq_some_iff.mp h
    cases he
    exact .send id a out f ha (Sender.moves_of_step _ _ _ _ hm)
  | recv id a =>
    simp only [step] at h
    split_ifs at h with ha
    obtain ⟨⟨inn,f⟩,hm,he⟩ := Option.map_eq_some_iff.mp h
    cases he
    exact .recv id a inn f ha (Receiver.moves_of_step _ _ _ _ _ hm)

end Endpoint
end Hydr.Ws
