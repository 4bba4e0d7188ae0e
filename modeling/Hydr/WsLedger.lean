import Mathlib
import Hydr.WsGate
import Hydr.WsView

/-!
# What an end holds of the streams that are being opened

The calls that wait, the OpenStreams and acknowledgements on their way to the
wire, the offers on their way to the application. Every step of an end moves
one of them to its next place, adds one, or drops some together with the loop,
the writer or an event. Places that a frame may share are multisets: nothing
depends on their order.
-/

set_option autoImplicit false

namespace Hydr.Ws
open Message Varint Hydr.Stream

def openFrame (id : ℕ) (address : Address) : Frame :=
  ⟨id,Frame.frameOpenStream,(OpenStream.mk address).encode⟩

def ackFrame (id : ℕ) (ack : OpenStreamAck) : Frame := ⟨id,Frame.frameOpenStreamAck,ack.encode⟩

def Opening (f : Frame) : Prop :=
  kind f.frameType = .openStream ∨ kind f.frameType = .openStreamAck

instance : DecidablePred Opening := fun _ => inferInstanceAs (Decidable (_ ∨ _))

@[simp] theorem openFrame_opening (id : ℕ) (address : Address) : Opening (openFrame id address) :=
  Or.inl kind_openStream

@[simp] theorem ackFrame_opening (id : ℕ) (ack : OpenStreamAck) : Opening (ackFrame id ack) :=
  Or.inr kind_openStreamAck

theorem not_opening (f : Frame) (h : (kind f.frameType).concerns = false) : ¬Opening f := by
  rintro (hk | hk) <;> simp [hk, Kind.concerns] at h

def Cmd.opening : Cmd → Option Frame
  | .sendFrame f => if Opening f then some f else none
  | .openStream id address => some (openFrame id address)
  | .replyOpen id ack => some (ackFrame id ack)
  | .close => none

def Cmd.call : Cmd → Option ℕ
  | .openStream id _ => some id
  | _ => none

def Control.call : Control → List ℕ
  | .sending _ (.pend id) => [id]
  | .finishing (.pend id) => [id]
  | _ => []

def WsEvent.ask : WsEvent → Option (ℕ × Address)
  | .incomingOpen id address => some (id,address)
  | .datagram _ => none

@[simp] theorem ask_incomingOpen (id : ℕ) (address : Address) :
    (WsEvent.incomingOpen id address).ask = some (id,address) := rfl

@[simp] theorem ask_datagram (dg : Datagram) : (WsEvent.datagram dg).ask = none := rfl

def Control.ask : Control → List (ℕ × Address)
  | .eventing event => event.ask.toList
  | _ => []

@[ext] structure Ledger where
  alive : Bool
  writing : Bool
  next : ℕ
  outbox : Multiset Frame
  calls : Multiset ℕ
  pending : Finset ℕ
  opened : ℕ → List (Result Unit)
  incoming : Multiset (ℕ × Address)
  taken : Multiset (ℕ × Address)
  offers : Multiset ℕ

namespace Endpoint

def backlog (e : Endpoint) : Multiset Cmd := (e.cmds : Multiset Cmd)+e.callers

def outgoing (e : Endpoint) : Multiset Frame := (e.unsent : Multiset Frame)+e.control.held

def outbox (e : Endpoint) : Multiset Frame :=
  e.outgoing.filter Opening+e.backlog.filterMap Cmd.opening

def calls (e : Endpoint) : Multiset ℕ := e.backlog.filterMap Cmd.call+e.control.call

def incoming (e : Endpoint) : Multiset (ℕ × Address) :=
  (e.control.ask : List (ℕ × Address))+(e.events.filterMap WsEvent.ask : List (ℕ × Address))

def ledger (e : Endpoint) : Ledger where
  alive := e.alive
  writing := e.writing
  next := e.nextStreamId
  outbox := e.outbox
  calls := e.calls
  pending := e.pending
  opened := e.opened
  incoming := e.incoming
  taken := (e.yielded.filterMap WsEvent.ask : List (ℕ × Address))
  offers := (e.offers : List ℕ)

end Endpoint

def Act.call : Act → Option Address
  | .openStream address => some address
  | _ => none

def Act.reply : Act → Option (ℕ × OpenStreamAck)
  | .replyOpen id ack => some (id,ack)
  | _ => none

def outcome (ack : OpenStreamAck) : Result Unit :=
  if ack.status = statusOk then .ok () else .error (.message (Address.fromUtf8Lossy ack.message))

def outcomeOf (body : Bytes) : Result Unit :=
  match OpenStreamAck.decode body with
  | .ok (ack,_) => outcome ack
  | .error err => .error err

namespace Ledger

def close (g : Ledger) (kept : Multiset Frame) (calls : Multiset ℕ) : Ledger :=
  { g with
    alive := false
    outbox := kept
    calls := calls
    pending := ∅
    opened := fun id =>
      if id ∈ g.pending then g.opened id++[.error .streamClosed] else g.opened id }

inductive Moves (g : Ledger) : Option Address → Option (ℕ × OpenStreamAck) → Ledger → Prop where
  | same : Moves g none none g
  | call (address : Address) : Moves g (some address) none
    { g with
      next := g.next+1
      outbox := openFrame (g.next+1) address ::ₘ g.outbox
      calls := (g.next+1) ::ₘ g.calls }
  | reply (id : ℕ) (ack : OpenStreamAck) (ho : id ∈ g.offers) : Moves g none (some (id,ack))
    { g with outbox := ackFrame id ack ::ₘ g.outbox, offers := g.offers.erase id }
  | pend (id : ℕ) (rest : Multiset ℕ) (hc : g.calls = id ::ₘ rest) : Moves g none none
    { g with calls := rest, pending := insert id g.pending }
  | take (ask : ℕ × Address) (rest : Multiset (ℕ × Address)) (hi : g.incoming = ask ::ₘ rest) :
    Moves g none none
      { g with incoming := rest, taken := ask ::ₘ g.taken, offers := ask.1 ::ₘ g.offers }
  | lose (rest : Multiset (ℕ × Address)) (hr : rest ≤ g.incoming) : Moves g none none
    { g with incoming := rest }
  | fail (kept : Multiset Frame) (hk : kept ≤ g.outbox) : Moves g none none
    { g with writing := false, outbox := kept }
  | close (kept : Multiset Frame) (calls : Multiset ℕ) (ha : g.alive = true)
      (hk : kept ≤ g.outbox) : Moves g none none (g.close kept calls)

theorem Moves.of_eq {g g' : Ledger} (h : g' = g) : Moves g none none g' := by
  rw [h]
  exact .same

def carry (g : Ledger) (out : Multiset Frame) : Ledger := { g with outbox := g.outbox+out }

theorem Moves.carry {g g' : Ledger} {call : Option Address} {reply : Option (ℕ × OpenStreamAck)}
    (h : Moves g call reply g') (out : Multiset Frame) :
    Moves (g.carry out) call reply (g'.carry out) := by
  cases h with
  | same => exact .same
  | call address =>
    have hm := Moves.call (g := g.carry out) address
    rwa [Ledger.carry, ← Multiset.cons_add] at hm
  | reply id ack ho =>
    have hm := Moves.reply (g := g.carry out) id ack ho
    rwa [Ledger.carry, ← Multiset.cons_add] at hm
  | pend id rest hc => exact .pend id rest hc
  | take ask rest hi => exact .take ask rest hi
  | lose rest hr => exact .lose rest hr
  | fail kept hk => exact .fail (kept+out) (add_le_add hk le_rfl)
  | close kept calls ha hk => exact .close (kept+out) calls ha (add_le_add hk le_rfl)

def hear (g : Ledger) (f : Frame) : Ledger :=
  match kind f.frameType with
  | .openStream =>
    match OpenStream.decode f.body with
    | .ok (req,_) => { g with incoming := (f.streamId,req.address) ::ₘ g.incoming }
    | .error _ => g
  | .openStreamAck =>
    if f.streamId ∈ g.pending then
      { g with
        pending := g.pending.erase f.streamId
        opened := Function.update g.opened f.streamId (g.opened f.streamId++[outcomeOf f.body]) }
    else g
  | _ => g

theorem hear_carry (g : Ledger) (f : Frame) (out : Multiset Frame) :
    (g.hear f).carry out = (g.carry out).hear f := by
  unfold hear carry
  split
  · split <;> rfl
  · split <;> rfl
  · rfl

end Ledger

theorem task_not_opening (id : ℕ) (f : StreamFrame Bytes)
    (h : (∃ c, f = .data c) ∨ f = .close ∨ ∃ n, f = .credit n) : ¬Opening (taskFrame id f) := by
  rcases h with ⟨c,rfl⟩ | rfl | ⟨n,rfl⟩ <;> simp [Opening, taskFrame, Frame.data]

namespace Endpoint

@[simp] theorem wait_backlog (e : Endpoint) (c : Cmd) : (e.wait c).backlog = c ::ₘ e.backlog := by
  rw [backlog, wait_callers, wait_cmds, ← Multiset.coe_add, ← Multiset.singleton_add, backlog]
  exact (add_assoc ..).symm.trans (add_comm ..)

@[simp] theorem queue_backlog (e : Endpoint) (c : Cmd) : (e.queue c).backlog = c ::ₘ e.backlog := by
  rw [backlog, queue_callers, queue_cmds, ← Multiset.coe_add, ← Multiset.singleton_add, backlog]
  exact (congrArg (·+_) (add_comm ..)).trans (add_assoc ..)

theorem enter_backlog (e : Endpoint) (c : Cmd) (hc : c ∈ e.callers) :
    (({ e with callers := e.callers.erase c } : Endpoint).queue c).backlog = e.backlog := by
  rw [queue_backlog]
  have h := Multiset.cons_erase (Multiset.mem_coe.mpr hc)
  simp only [backlog, ← Multiset.add_cons, ← Multiset.coe_erase, h]

theorem joined_ledger (e t : Endpoint) (c : Cmd) (hb : t.backlog = c ::ₘ e.backlog)
    (ho : t.outgoing = e.outgoing) (hc : t.control = e.control) :
    t.outbox = (c.opening.toList : Multiset Frame)+e.outbox ∧
      t.calls = (c.call.toList : Multiset ℕ)+e.calls := by
  constructor
  · rw [outbox, outbox, ho, hb, Multiset.filterMap_cons]
    cases c.opening <;> simp
  · rw [calls, calls, hc, hb, Multiset.filterMap_cons]
    cases c.call <;> simp

theorem unnoticed_ledger (e t : Endpoint) (f : Frame) (hb : t.backlog = .sendFrame f ::ₘ e.backlog)
    (ho : t.outgoing = e.outgoing) (hc : t.control = e.control) (hf : ¬Opening f) :
    t.outbox = e.outbox ∧ t.calls = e.calls := by
  obtain ⟨hout,hcalls⟩ := joined_ledger e t _ hb ho hc
  constructor
  · simp [hout, Cmd.opening, hf]
  · simp [hcalls, Cmd.call]

theorem queueTask_ledger (e : Endpoint) (id : ℕ) (g : Half Bytes) (f : Option (StreamFrame Bytes))
    (h : ∀ c, f = some c → ¬Opening (taskFrame id c)) :
    ((e.setHalf id g).queueTask id f).ledger = e.ledger := by
  cases f with
  | none => rfl
  | some c =>
    obtain ⟨ho,hc⟩ := unnoticed_ledger (e.setHalf id g) ((e.setHalf id g).queueTask id (some c)) _
      (queue_backlog ..) rfl rfl (h c rfl)
    exact Ledger.ext rfl rfl rfl ho hc rfl rfl rfl rfl rfl

theorem setControl_ledger (e : Endpoint) (c : Control) (ha : (e.setControl c).alive = e.alive)
    (hh : c.held.filter (Opening ·) = e.control.held.filter (Opening ·))
    (hk : c.call = e.control.call) (hask : c.ask = e.control.ask) :
    (e.setControl c).ledger = e.ledger := by
  refine Ledger.ext ha rfl rfl ?_ ?_ rfl rfl ?_ rfl rfl
  · show outbox _ = e.outbox
    simp only [outbox, outgoing, Multiset.filter_add, setControl_control, Multiset.filter_coe, hh]
    rfl
  · show Endpoint.calls _ = e.calls
    rw [calls, calls, setControl_control, hk]
    rfl
  · show Endpoint.incoming _ = e.incoming
    rw [incoming, incoming, setControl_control, hask]
    rfl

theorem endLoop_ledger (e : Endpoint) (hc : e.control.ask = []) :
    e.endLoop.ledger = e.ledger.close
      ((e.unsent : Multiset Frame).filter Opening+(e.callers : Multiset Cmd).filterMap Cmd.opening)
      ((e.callers : Multiset Cmd).filterMap Cmd.call) := by
  refine Ledger.ext rfl rfl rfl ?_ ?_ rfl rfl ?_ rfl rfl
  · simp [ledger, Ledger.close, outbox, outgoing, backlog, Control.held, unsent]
  · simp [ledger, Ledger.close, calls, backlog, Control.call]
  · show Endpoint.incoming _ = e.incoming
    rw [incoming, incoming, hc]
    rfl

theorem endLoop_ledger_moves (e : Endpoint) (ha : e.alive = true) (hc : e.control.ask = []) :
    Ledger.Moves e.ledger none none e.endLoop.ledger := by
  rw [endLoop_ledger e hc]
  apply Ledger.Moves.close _ _ ha
  apply add_le_add
  · exact Multiset.filter_le_filter _ (Multiset.le_add_right _ _)
  · exact Multiset.filterMap_le_filterMap _ (Multiset.le_add_left _ _)

theorem sending_ledger (e : Endpoint) (c : Cmd) (cmds : List Cmd) (f : Frame) (after : After)
    (hc : e.control = .select) (hq : e.cmds = c::cmds)
    (hf : c.opening = if Opening f then some f else none)
    (hk : (Control.sending f after).call = c.call.toList) :
    (({ e with cmds := cmds } : Endpoint).setControl (.sending f after)).ledger = e.ledger := by
  have hb : e.backlog = c ::ₘ ((cmds : Multiset Cmd)+e.callers) := by
    rw [backlog, hq, ← Multiset.cons_coe, Multiset.cons_add]
  set t := ({ e with cmds := cmds } : Endpoint).setControl (.sending f after) with ht
  have hout : t.outgoing = f ::ₘ e.outgoing := by
    rw [outgoing, outgoing, hc, ht]
    show (e.unsent : Multiset Frame)+{f} = f ::ₘ ((e.unsent : Multiset Frame)+0)
    rw [add_zero, add_comm, Multiset.singleton_add]
  refine Ledger.ext ?_ rfl rfl ?_ ?_ rfl rfl ?_ rfl rfl
  · simp [ht, ledger, alive, hc]
  · show outbox _ = e.outbox
    have htail : t.backlog = (cmds : Multiset Cmd)+e.callers := rfl
    rw [outbox, outbox, hout, hb, htail, Multiset.filterMap_cons, hf]
    by_cases ho : Opening f
    · rw [Multiset.filter_cons_of_pos _ ho, if_pos ho]
      exact (Multiset.cons_add ..).trans (Multiset.add_cons ..).symm
    · rw [Multiset.filter_cons_of_neg _ ho, if_neg ho]
      exact congrArg _ (zero_add _).symm
  · show Endpoint.calls _ = e.calls
    simp only [calls, hb, Multiset.filterMap_cons, hc, ht, setControl_control, hk]
    cases hcall : c.call <;> simp [backlog, Control.call, add_comm]
  · simp [ht, ledger, incoming, Control.ask, hc]

theorem command_ledger (e : Endpoint) (c : Cmd) (cmds : List Cmd) (hc : e.control = .select)
    (hq : e.cmds = c::cmds) :
    Ledger.Moves e.ledger none none (({ e with cmds := cmds } : Endpoint).command c).ledger := by
  cases c with
  | sendFrame f => exact .of_eq (sending_ledger e _ cmds f .nothing hc hq rfl rfl)
  | openStream id address =>
    exact .of_eq (sending_ledger e _ cmds (openFrame id address) (.pend id) hc hq
      (if_pos (openFrame_opening id address)).symm rfl)
  | replyOpen id ack =>
    refine .of_eq (sending_ledger e _ cmds (ackFrame id ack) _ hc hq
      (if_pos (ackFrame_opening id ack)).symm ?_)
    split_ifs <;> rfl
  | close => exact endLoop_ledger_moves e (by simp [alive, hc]) (by simp [hc, Control.ask])

theorem push_ledger (e : Endpoint) (f : Frame) (after : After)
    (hc : e.control = .sending f after) :
    (({ e with frames := e.frames++[OutMsg.frame f] } : Endpoint).setControl
      (.finishing after)).ledger = e.ledger := by
  refine Ledger.ext ?_ rfl rfl ?_ ?_ rfl rfl ?_ rfl rfl
  · simp [ledger, alive, hc]
  · have ho : (({ e with frames := e.frames++[OutMsg.frame f] } : Endpoint).setControl
        (.finishing after)).outgoing = e.outgoing := by
      simp [outgoing, unsent, hc, Control.held, OutMsg.sent, ← Multiset.coe_add, add_assoc]
    show outbox _ = e.outbox
    rw [outbox, ho]
    rfl
  · show Endpoint.calls _ = e.calls
    cases after <;> simp [calls, backlog, hc, Control.call]
  · simp [ledger, incoming, hc, Control.ask]

theorem finish_ledger (e : Endpoint) (after : After) (hc : e.control = .finishing after) :
    Ledger.Moves e.ledger none none ((e.after after).setControl .select).ledger := by
  have hsame : e.control.call = [] → (e.setControl .select).ledger = e.ledger := by
    intro hk
    exact setControl_ledger e .select (by simp [alive, hc]) (by simp [hc, Control.held])
      (by rw [hk]; rfl) (by simp [hc, Control.ask])
  cases after with
  | nothing => exact .of_eq (hsame (by simp [hc, Control.call]))
  | register id => exact .of_eq (hsame (by simp [hc, Control.call]))
  | pend id =>
    have hcalls : e.ledger.calls = id ::ₘ e.backlog.filterMap Cmd.call := by
      show Endpoint.calls e = _
      rw [Endpoint.calls, hc, Control.call, Multiset.coe_singleton, ← Multiset.singleton_add,
        add_comm]
    have hl : ((e.after (.pend id)).setControl .select).ledger = { e.ledger with
        calls := e.backlog.filterMap Cmd.call
        pending := insert id e.pending } := by
      refine Ledger.ext ?_ rfl rfl ?_ ?_ rfl rfl ?_ rfl rfl
      · simp [ledger, alive, hc]
      · show outbox _ = e.outbox
        simp [outbox, outgoing, backlog, unsent, hc, Control.held, Endpoint.after]
      · simp [ledger, calls, backlog, Control.call, Endpoint.after]
      · simp [ledger, incoming, hc, Control.ask, Endpoint.after]
    rw [hl]
    exact .pend id _ hcalls

theorem emit_ledger (e : Endpoint) (event : WsEvent) (hc : e.control = .eventing event) :
    (({ e with events := e.events++[event] } : Endpoint).setControl .select).ledger = e.ledger := by
  refine Ledger.ext ?_ rfl rfl ?_ ?_ rfl rfl ?_ rfl rfl
  · simp [ledger, alive, hc]
  · simp [ledger, outbox, outgoing, backlog, unsent, hc, Control.held]
  · simp [ledger, calls, backlog, hc, Control.call]
  · show Endpoint.incoming _ = e.incoming
    simp only [incoming, hc, Control.ask, setControl_control]
    cases ha : event.ask <;> simp [ha, ← Multiset.coe_add, add_comm]

theorem lose_ledger (e : Endpoint) (event : WsEvent) (hc : e.control = .eventing event) :
    (e.setControl .select).ledger = { e.ledger with
      incoming := (e.events.filterMap WsEvent.ask : List (ℕ × Address)) } := by
  refine Ledger.ext ?_ rfl rfl ?_ ?_ rfl rfl ?_ rfl rfl
  · simp [ledger, alive, hc]
  · simp [ledger, outbox, outgoing, backlog, unsent, hc, Control.held]
  · simp [ledger, calls, backlog, hc, Control.call]
  · simp [ledger, incoming, Control.ask]

theorem nextEvent_ledger (e : Endpoint) (event : WsEvent) (events : List WsEvent)
    (he : e.events = event::events) :
    Ledger.Moves e.ledger none none ({ e with
      events := events
      offers := e.offers++event.offer
      yielded := e.yielded++[event] } : Endpoint).ledger := by
  cases event with
  | datagram dg =>
    refine .of_eq (Ledger.ext rfl rfl rfl rfl rfl rfl rfl ?_ ?_ ?_)
    · simp [ledger, incoming, he, List.filterMap_cons]
    · simp [ledger, List.filterMap_cons]
    · simp [ledger, WsEvent.offer]
  | incomingOpen id address =>
    have hi : e.ledger.incoming = (id,address) ::ₘ ((e.control.ask : List (ℕ × Address))+
        (events.filterMap WsEvent.ask : List (ℕ × Address)) : Multiset (ℕ × Address)) := by
      show Endpoint.incoming e = _
      rw [Endpoint.incoming, he, List.filterMap_cons_some (ask_incomingOpen id address),
        ← Multiset.cons_coe, Multiset.add_cons]
    have hm := Ledger.Moves.take (id,address) _ hi
    convert hm using 1
    refine Ledger.ext rfl rfl rfl rfl rfl rfl rfl rfl ?_ ?_
    · simp [ledger, ← Multiset.coe_add, ← Multiset.singleton_add, add_comm]
    · simp [ledger, WsEvent.offer, ← Multiset.coe_add, ← Multiset.singleton_add, add_comm]

/-- The steps of an end that no wire takes part in. -/
theorem step_ledger (b3 : Blake3) (q : Queues) (e t : Endpoint) (a : Act) (ha : a.isOwn = true)
    (hb : a.Tame e) (hst : e.step b3 q a = some t) :
    Ledger.Moves e.ledger a.call a.reply t.ledger := by
  cases moves_of_step b3 q e t a hst with
  | openStream address =>
    obtain ⟨ho,hc⟩ := joined_ledger e (({ e with nextStreamId := e.nextStreamId+1 } : Endpoint).wait
      (.openStream (e.nextStreamId+1) address)) _ (wait_backlog ..) rfl rfl
    have hl : (({ e with nextStreamId := e.nextStreamId+1 } : Endpoint).wait
        (.openStream (e.nextStreamId+1) address)).ledger = { e.ledger with
          next := e.nextStreamId+1
          outbox := openFrame (e.nextStreamId+1) address ::ₘ e.outbox
          calls := (e.nextStreamId+1) ::ₘ e.calls } :=
      Ledger.ext rfl rfl rfl ho hc rfl rfl rfl rfl rfl
    rw [hl]
    exact .call address
  | openStreamAs => exact hb.elim
  | authenticate id auth =>
    obtain ⟨ho,hc⟩ := unnoticed_ledger e (({ e with
        pendingAuth := e.pendingAuth.map (insert id) } : Endpoint).wait
          (.sendFrame ⟨id,Frame.frameAuthRequest,auth.encode⟩)) _ (wait_backlog ..) rfl rfl
      (not_opening _ (by simp [Kind.concerns]))
    exact .of_eq (Ledger.ext rfl rfl rfl ho hc rfl rfl rfl rfl rfl)
  | replyOpen id ack ho =>
    obtain ⟨hout,hcalls⟩ := joined_ledger e (({ e with offers := e.offers.erase id } : Endpoint).wait
      (.replyOpen id ack)) _ (wait_backlog ..) rfl rfl
    have hl : (({ e with offers := e.offers.erase id } : Endpoint).wait
        (.replyOpen id ack)).ledger = { e.ledger with
          outbox := ackFrame id ack ::ₘ e.outbox
          offers := (e.offers : Multiset ℕ).erase id } := by
      refine Ledger.ext rfl rfl rfl hout ?_ rfl rfl rfl rfl rfl
      exact hcalls.trans (zero_add _)
    rw [hl]
    exact .reply id ack ho
  | closeTunnel =>
    obtain ⟨ho,hc⟩ := unnoticed_ledger e (e.wait (.sendFrame ⟨0,Frame.frameStreamClose,[]⟩)) _
      (wait_backlog ..) rfl rfl (by decide)
    exact .of_eq (Ledger.ext rfl rfl rfl ho hc rfl rfl rfl rfl rfl)
  | enter c hc hr =>
    have hback := enter_backlog e c hc
    refine .of_eq (Ledger.ext rfl rfl rfl ?_ ?_ rfl rfl rfl rfl rfl)
    · exact congrArg (e.outgoing.filter Opening+Multiset.filterMap Cmd.opening ·) hback
    · exact congrArg (Multiset.filterMap Cmd.call ·+(e.control.call : Multiset ℕ)) hback
  | sendDatagram dg =>
    obtain ⟨ho,hc⟩ := unnoticed_ledger e (e.queue (.sendFrame ⟨0,Frame.frameDatagram,dg.encode⟩)) _
      (queue_backlog ..) rfl rfl (not_opening _ (by simp [Kind.concerns]))
    exact .of_eq (Ledger.ext rfl rfl rfl ho hc rfl rfl rfl rfl rfl)
  | closeHandle =>
    obtain ⟨ho,hc⟩ := joined_ledger e (e.queue .close) _ (queue_backlog ..) rfl rfl
    refine .of_eq (Ledger.ext rfl rfl rfl ?_ ?_ rfl rfl rfl rfl rfl)
    · exact ho.trans (zero_add _)
    · exact hc.trans (zero_add _)
  | nextEvent event events he => exact nextEvent_ledger e event events he
  | take c cmds hc hq => exact command_ledger e c cmds hc hq
  | pushFail f after hc =>
    exact endLoop_ledger_moves e (by simp [alive, hc]) (by simp [hc, Control.ask])
  | push f after hc => exact .of_eq (push_ledger e f after hc)
  | finish after hc => exact finish_ledger e after hc
  | receive | write | writePong => cases ha
  | lose event hc =>
    rw [lose_ledger e event hc]
    exact .lose _ (Multiset.le_add_left _ _)
  | emit event hc => exact .of_eq (emit_ledger e event hc)
  | notify id hc =>
    exact .of_eq (setControl_ledger _ .select (by simp [alive, hc]) (by simp [hc, Control.held])
      (by simp [hc, Control.call]) (by simp [hc, Control.ask]))
  | tick hc =>
    have hping : ¬Opening Frame.ping := not_opening _ (by decide)
    exact .of_eq (setControl_ledger _ _ (by simp [alive, hc]) (by simp [hc, Control.held, hping])
      (by simp [hc, Control.call]) (by simp [hc, Control.ask]))
  | stop hc => exact endLoop_ledger_moves e (by simp [alive, hc]) (by simp [hc, Control.ask])
  | writerTake m frames hh hf =>
    have hu : ({ e with hand := some m, frames := frames } : Endpoint).unsent = e.unsent := by
      simp [unsent, hh, hf]
    refine .of_eq (Ledger.ext rfl rfl rfl ?_ rfl rfl rfl rfl rfl rfl)
    show outbox _ = e.outbox
    rw [outbox, outgoing, hu]
    rfl
  | writerFail =>
    refine .fail _ (add_le_add (Multiset.filter_le_filter _ ?_) le_rfl)
    exact add_le_add (Multiset.zero_le _) le_rfl
  | send id b out f hfit hm =>
    refine .of_eq (queueTask_ledger e id _ f fun c hf => task_not_opening id c ?_)
    obtain rfl := hf
    have hemit := Sender.moves_emit _ _ _ _ hm
    simp only [reduceCtorEq, Option.some.injEq, false_or] at hemit
    exact hemit.imp_right Or.inl
  | recv id b inn f hfit hm =>
    refine .of_eq (queueTask_ledger e id _ f fun c hf => task_not_opening id c ?_)
    obtain rfl := hf
    have hemit := Receiver.moves_emit _ _ _ _ _ hm
    simp only [reduceCtorEq, Option.some.injEq, false_or] at hemit
    exact Or.inr (Or.inr hemit)

section Handling

variable (e : Endpoint) (validate : AuthRequest → Result AuthResponse) (f : Frame)

theorem respond_ledger (hc : e.control = .select) (hf : ¬Opening f) :
    (e.respond f).ledger = e.ledger :=
  setControl_ledger e _ (by simp [alive, hc]) (by simp [hc, Control.held, hf])
    (by simp [hc, Control.call]) (by simp [hc, Control.ask])

theorem judged_ledger (id : ℕ) (req : AuthRequest) (resp : Result AuthResponse) :
    (e.judged id req resp).ledger = e.ledger := by
  unfold judged
  dsimp only
  split
  · rfl
  · split
    · split <;> rfl
    · rfl

theorem handleAuthRequest_ledger (hc : e.control = .select) :
    (e.handleAuthRequest validate f).ledger = e.ledger := by
  have hu : ∀ body, ¬Opening ⟨f.streamId,Frame.frameAuthResponse,body⟩ :=
    fun body => not_opening _ (by simp [Kind.concerns])
  unfold handleAuthRequest
  split
  · split
    · rw [respond_ledger _ _ (judged_select e hc ..) (hu _), judged_ledger]
    · exact respond_ledger e _ hc (hu _)
  · rfl

theorem handleAuthResponse_ledger : (e.handleAuthResponse f).ledger = e.ledger := by
  unfold handleAuthResponse
  dsimp only
  split
  · rfl
  · split
    · split <;> rfl
    · rfl

theorem handleStreamCredit_ledger (hc : e.control = .select) :
    (e.handleStreamCredit f).ledger = e.ledger := by
  unfold handleStreamCredit
  split
  · split
    · dsimp only
      split
      · exact setControl_ledger (e.setHalf _ _) _ (by simp [alive, hc]) (by simp [hc, Control.held])
          (by simp [hc, Control.call]) (by simp [hc, Control.ask])
      · rfl
    · rfl
  · rfl

theorem handleDatagram_ledger (hc : e.control = .select) :
    (e.handleDatagram f).ledger = e.ledger := by
  unfold handleDatagram
  split
  · rfl
  · split
    · exact setControl_ledger e _ (by simp [alive, hc]) (by simp [hc, Control.held])
        (by simp [hc, Control.call]) (by simp [hc, Control.ask])
    · rfl

/-- Without sessions every OpenStream is offered. -/
theorem handleOpenStream_ledger (hc : e.control = .select) (hs : e.sessions = none)
    (hk : kind f.frameType = .openStream) : (e.handleOpenStream f).ledger = e.ledger.hear f := by
  have hu : e.unauthenticated f.streamId = false := by simp [unauthenticated, hs]
  unfold handleOpenStream Ledger.hear
  simp only [hu, hk, Bool.false_eq_true, if_false]
  cases hd : OpenStream.decode f.body with
  | error err => rfl
  | ok p =>
    refine Ledger.ext ?_ rfl rfl ?_ ?_ rfl rfl ?_ rfl rfl
    · simp [ledger, alive, hc]
    · simp [ledger, outbox, outgoing, backlog, unsent, hc, Control.held]
    · simp [ledger, calls, backlog, hc, Control.call]
    · simp [ledger, incoming, hc, Control.ask]

theorem handleOpenStreamAck_ledger (hk : kind f.frameType = .openStreamAck) :
    (e.handleOpenStreamAck f).ledger = e.ledger.hear f := by
  unfold handleOpenStreamAck Ledger.hear
  simp only [hk]
  by_cases hp : f.streamId ∈ e.pending
  · have hl : f.streamId ∈ e.ledger.pending := hp
    rw [if_pos hp, if_pos hl, outcomeOf]
    cases hd : OpenStreamAck.decode f.body with
    | error err => rfl
    | ok p =>
      simp only [outcome]
      split_ifs <;> rfl
  · have hl : f.streamId ∉ e.ledger.pending := hp
    rw [if_neg hp, if_neg hl]

theorem hear_unconcerned (g : Ledger) (hf : ¬Opening f) : g.hear f = g := by
  unfold Ledger.hear
  cases hk : kind f.frameType with
  | openStream => exact absurd (Or.inl hk) hf
  | openStreamAck => exact absurd (Or.inr hk) hf
  | _ => rfl

theorem handleFrame_ledger (hc : e.control = .select) (hs : e.sessions = none) :
    (e.handleFrame validate f).ledger = e.ledger.hear f := by
  have hpong : ¬Opening ⟨0,Frame.framePong,f.body⟩ := not_opening _ (by simp [Kind.concerns])
  have hother : ∀ k, kind f.frameType = k → k ≠ .openStream → k ≠ .openStreamAck →
      e.ledger.hear f = e.ledger := by
    rintro k rfl ho ha
    exact hear_unconcerned f _ (fun h => h.elim ho ha)
  unfold handleFrame
  cases hk : kind f.frameType with
  | openStream => exact handleOpenStream_ledger e f hc hs hk
  | openStreamAck => exact handleOpenStreamAck_ledger e f hk
  | authRequest =>
    rw [hother _ hk (by decide) (by decide)]
    exact handleAuthRequest_ledger e validate f hc
  | authResponse =>
    rw [hother _ hk (by decide) (by decide)]
    exact handleAuthResponse_ledger e f
  | streamCredit =>
    rw [hother _ hk (by decide) (by decide)]
    exact handleStreamCredit_ledger e f hc
  | datagram =>
    rw [hother _ hk (by decide) (by decide)]
    exact handleDatagram_ledger e f hc
  | ping =>
    rw [hother _ hk (by decide) (by decide)]
    exact respond_ledger e _ hc hpong
  | streamData | streamClose | other => exact (hother _ hk (by decide) (by decide)).symm

end Handling

end Endpoint
end Hydr.Ws
