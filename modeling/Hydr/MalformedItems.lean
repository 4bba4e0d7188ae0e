import Mathlib
import Hydr.QuicEvents
import Hydr.WsAuthentication

/-!
# A malformed item on the two transports

The same openings and datagrams are brought to a server over QUIC and over
WebSocket, one at a time, and the event loop takes what there is after each.
Over WebSocket a body that does not decode is passed over; over QUIC the error
leaves `next_event`, and the loop with it.
-/

set_option autoImplicit false

namespace Hydr
open Message Varint Transition

structure Item where
  opens : Bool
  body : Bytes
  small : body.length < 2^62

inductive Content where
  | opening (address : Address)
  | datagram (dg : Datagram)
  deriving DecidableEq

def Item.content (item : Item) : Option Content :=
  if item.opens then (OpenStream.decode item.body).toOption.map fun p => .opening p.1.address
  else (Datagram.decode item.body).toOption.map fun p => .datagram p.1

def Item.WellFormed (item : Item) : Prop := item.content.isSome

instance (item : Item) : Decidable item.WellFormed :=
  inferInstanceAs (Decidable (item.content.isSome = true))

structure Sending where
  item : Item
  id : ℕ
  msg : Ws.WsMessage
  datagramFirst : Bool

namespace Quic

def Event.content : Event → Content
  | .stream _ address => .opening address
  | .datagram dg => .datagram dg

namespace Tunnel

def bring (s : Tunnel) (item : Item) : Tunnel :=
  if item.opens then { s with
    opened := s.opened+1
    waiting := s.waiting++[s.opened]
    bytes := Function.update s.bytes s.opened (s.bytes s.opened++writeLenPrefixed item.body) }
  else { s with datagrams := s.datagrams++[item.body], received := s.received++[item.body] }

def serve (s : Tunnel) (item : Item) (datagramFirst : Bool) : Tunnel :=
  ((s.bring item).step (.poll datagramFirst)).getD (s.bring item)

def serveAll (s : Tunnel) (xs : List Sending) : Tunnel :=
  xs.foldl (fun s x => s.serve x.item x.datagramFirst) s

structure Calm (s : Tunnel) : Prop where
  running : s.ended = false
  held : s.held = none
  waiting : s.waiting = []
  datagrams : s.datagrams = []
  unopened : ∀ id, s.opened ≤ id → s.bytes id = []

theorem bring_run (s : Tunnel) (item : Item) :
    run step (if item.opens then [.open,.arrive s.opened (writeLenPrefixed item.body)]
      else [.datagram item.body]) s = some (s.bring item) := by
  unfold bring
  cases item.opens
  · rfl
  · simp [run, step]

theorem serve_running (s : Tunnel) (item : Item) (first : Bool) (h : s.ended = false) :
    s.serve item first = (s.bring item).nextEvent first := by
  have hb : (s.bring item).ended = false := by
    unfold bring
    cases item.opens <;> exact h
  simp [serve, step, hb]

theorem serve_ended (s : Tunnel) (item : Item) (first : Bool) (h : s.ended = true) :
    (s.serve item first).ended = true := by
  have hb : (s.bring item).ended = true := by
    unfold bring
    cases item.opens <;> exact h
  simp [serve, step, hb]

/-- The whole first message of a stream is there. -/
theorem not_awaits (body : Bytes) (h : body.length < 2^62) :
    awaits (writeLenPrefixed body) = false := by
  rw [Bool.eq_false_iff, ne_eq, awaits_iff body [] (writeLenPrefixed body) [] h rfl]
  exact lt_irrefl _

theorem readMessage_whole {T : Type} (decode : Bytes → Result (T × ℕ)) (body : Bytes)
    (h : body.length < 2^62) :
    readMessage decode (writeLenPrefixed body) = (decode body).map fun p => (p.1,[]) := by
  have hr := readMessage_prefixed decode body [] h
  rwa [List.append_nil] at hr

theorem bring_opening (s : Tunnel) (h : s.Calm) (item : Item) (ho : item.opens = true) :
    (s.bring item).recvDatagram = none ∧
      (s.bring item).acceptStream = (true,
        match OpenStream.decode item.body with
        | .ok (req,_) => { s.bring item with
            held := none
            waiting := []
            yielded := s.yielded++[.stream s.opened req.address] }
        | .error _ => { s.bring item with held := none, waiting := [], ended := true }) := by
  have hb : s.bring item = { s with
      opened := s.opened+1
      waiting := [s.opened]
      bytes := Function.update s.bytes s.opened (writeLenPrefixed item.body) } := by
    simp [bring, ho, h.waiting, h.unopened s.opened le_rfl]
  constructor
  · rw [hb, recvDatagram, h.datagrams]
  · rw [hb]
    simp only [acceptStream, acceptBi, h.held, Function.update_self, not_awaits _ item.small,
      readMessage_whole _ _ item.small, Bool.false_eq_true, if_false]
    cases OpenStream.decode item.body <;> rfl

theorem serve_opening (s : Tunnel) (h : s.Calm) (item : Item) (ho : item.opens = true)
    (first : Bool) :
    s.serve item first =
      match OpenStream.decode item.body with
      | .ok (req,_) => { s.bring item with
          held := none
          waiting := []
          yielded := s.yielded++[.stream s.opened req.address] }
      | .error _ => { s.bring item with held := none, waiting := [], ended := true } := by
  obtain ⟨hr,ha⟩ := bring_opening s h item ho
  rw [serve_running s item first h.running]
  cases first <;> simp [nextEvent, hr, ha]

theorem serve_datagram (s : Tunnel) (h : s.Calm) (item : Item) (ho : item.opens = false)
    (first : Bool) :
    s.serve item first =
      match Datagram.decode item.body with
      | .ok (dg,_) => { s.bring item with
          datagrams := []
          held := none
          yielded := s.yielded++[.datagram dg] }
      | .error _ => { s.bring item with datagrams := [], held := none, ended := true } := by
  have hb : s.bring item = { s with
      datagrams := [item.body]
      received := s.received++[item.body] } := by simp [bring, ho, h.datagrams]
  have ha : (s.bring item).acceptStream = (false,s.bring item) := by
    simp [hb, acceptStream, acceptBi, h.held, h.waiting]
  have hr : (s.bring item).recvDatagram = some (match Datagram.decode item.body with
      | .ok (dg,_) => { s.bring item with
          datagrams := []
          held := none
          yielded := s.yielded++[.datagram dg] }
      | .error _ => { s.bring item with datagrams := [], held := none, ended := true }) := by
    rw [hb]
    rfl
  rw [serve_running s item first h.running]
  cases first <;> simp [nextEvent, hr, ha]

/-- A well-formed item is yielded and leaves a calm tunnel; any other ends the loop. -/
theorem serve_content (s : Tunnel) (h : s.Calm) (item : Item) (first : Bool) :
    (∀ c, item.content = some c → (s.serve item first).Calm ∧
      (s.serve item first).yielded.map Event.content = s.yielded.map Event.content++[c]) ∧
    (item.content = none → (s.serve item first).ended = true) := by
  cases ho : item.opens with
  | true =>
    have hu : ∀ id, s.opened+1 ≤ id → (s.bring item).bytes id = [] := by
      intro id hi
      have hne : id ≠ s.opened := by omega
      simp only [bring, ho, if_true, Function.update_of_ne hne]
      exact h.unopened id (by omega)
    rw [serve_opening s h item ho first]
    cases hd : OpenStream.decode item.body with
    | ok p =>
      refine ⟨fun c hc => ?_,fun hn => by simp [Item.content, ho, hd, Except.toOption] at hn⟩
      obtain rfl : Content.opening p.1.address = c := by
        simpa [Item.content, ho, hd, Except.toOption] using hc
      refine ⟨⟨?_,rfl,rfl,?_,?_⟩,by simp [Event.content]⟩
      · simpa [bring, ho] using h.running
      · simpa [bring, ho] using h.datagrams
      · intro id hi
        exact hu id (by simpa [bring, ho] using hi)
    | error _ =>
      exact ⟨fun c hc => by simp [Item.content, ho, hd, Except.toOption] at hc,fun _ => rfl⟩
  | false =>
    rw [serve_datagram s h item ho first]
    cases hd : Datagram.decode item.body with
    | ok p =>
      refine ⟨fun c hc => ?_,fun hn => by simp [Item.content, ho, hd, Except.toOption] at hn⟩
      obtain rfl : Content.datagram p.1 = c := by
        simpa [Item.content, ho, hd, Except.toOption] using hc
      refine ⟨⟨?_,rfl,?_,rfl,?_⟩,by simp [Event.content]⟩
      · simpa [bring, ho] using h.running
      · simpa [bring, ho] using h.waiting
      · simpa [bring, ho] using h.unopened
    | error _ =>
      exact ⟨fun c hc => by simp [Item.content, ho, hd, Except.toOption] at hc,fun _ => rfl⟩

theorem serveAll_ended (xs : List Sending) (s : Tunnel) (h : s.ended = true) :
    (s.serveAll xs).ended = true := by
  induction xs generalizing s with
  | nil => exact h
  | cons x xs ih => exact ih _ (serve_ended s x.item x.datagramFirst h)

theorem serveAll_content (s : Tunnel) (xs : List Sending) (h : s.Calm)
    (hw : ∀ x ∈ xs, x.item.WellFormed) :
    (s.serveAll xs).Calm ∧ (s.serveAll xs).yielded.map Event.content =
      s.yielded.map Event.content++xs.filterMap fun x => x.item.content := by
  induction xs generalizing s with
  | nil => exact ⟨h,by simp [serveAll]⟩
  | cons x xs ih =>
    obtain ⟨c,hc⟩ := Option.isSome_iff_exists.mp (hw x (by simp))
    obtain ⟨hcalm,hy⟩ := (serve_content s h x.item x.datagramFirst).1 c hc
    obtain ⟨hall,hys⟩ := ih _ hcalm fun y hy => hw y (by simp [hy])
    refine ⟨hall,hys.trans ?_⟩
    simp [hy, hc]

theorem wellFormed_of_running (s : Tunnel) (xs : List Sending) (h : s.Calm)
    (hr : (s.serveAll xs).ended = false) : ∀ x ∈ xs, x.item.WellFormed := by
  induction xs generalizing s with
  | nil => simp
  | cons x xs ih =>
    obtain ⟨hgood,hbad⟩ := serve_content s h x.item x.datagramFirst
    cases hc : x.item.content with
    | none =>
      have he := serveAll_ended xs _ (hbad hc)
      rw [show serveAll (s.serve x.item x.datagramFirst) xs = s.serveAll (x::xs) from rfl, hr] at he
      cases he
    | some c =>
      have hxs := ih _ (hgood c hc).1 hr
      intro y hy
      rcases List.mem_cons.mp hy with rfl | hy
      · simp [Item.WellFormed, hc]
      · exact hxs y hy

end Tunnel
end Quic
namespace Ws
open Quic

def WsEvent.content : WsEvent → Content
  | .incomingOpen _ address => .opening address
  | .datagram dg => .datagram dg

def itemFrame (item : Item) (id : ℕ) : Frame :=
  ⟨id,if item.opens then Frame.frameOpenStream else Frame.frameDatagram,item.body⟩

def onward (b3 : Blake3) (ob : Option Obfuscator) : WsMessage → Option Obfuscator
  | .binary bytes => (inbound b3 bytes ob).2
  | _ => ob

def Carries (b3 : Blake3) : Option Obfuscator → List Sending → Prop
  | _, [] => True
  | ob, x::xs =>
    hears b3 ob x.msg = some (itemFrame x.item x.id) ∧ Carries b3 (onward b3 ob x.msg) xs

namespace Endpoint

variable (b3 : Blake3) (q : Queues) (validate : AuthRequest → Result AuthResponse)

theorem receive_hears (e : Endpoint) (msg : WsMessage) (f : Frame)
    (h : hears b3 e.obfuscation msg = some f) :
    e.receive b3 q validate msg =
      ({ e with obfuscation := onward b3 e.obfuscation msg } : Endpoint).handleFrame validate f := by
  cases msg with
  | binary bytes =>
    simp only [hears] at h
    simp only [receive, onward]
    generalize inbound b3 bytes e.obfuscation = r at h ⊢
    obtain ⟨_ | _ | _,ob⟩ := r
    · rename_i bytes
      cases hd : Frame.decode bytes with
      | ok p =>
        obtain rfl : p.1 = f := by simpa [hd, Except.toOption] using h
        simp [hd]
      | error _ => simp [hd, Except.toOption] at h
    · cases h
    · cases h
  | ping | other => cases h

theorem step_receive (e : Endpoint) (hc : e.control = .select) (msg : WsMessage) :
    e.step b3 q (.receive validate msg) = some (e.receive b3 q validate msg) := by
  simp only [step, hc]

theorem step_emit (e : Endpoint) (event : WsEvent) (hc : e.control = .eventing event)
    (hq : e.events.length < q.events) :
    e.step b3 q (.emit false) =
      some (({ e with events := e.events++[event] } : Endpoint).setControl .select) := by
  simp [step, hc, hq]

theorem step_nextEvent (e : Endpoint) (hh : e.handedOver = true) (event : WsEvent)
    (events : List WsEvent) (he : e.events = event::events) :
    e.step b3 q .nextEvent = some { e with
      events := events
      offers := e.offers++event.offer
      yielded := e.yielded++[event] } := by
  simp [step, hh, he]

def serve (e : Endpoint) (msg : WsMessage) : Endpoint :=
  let e := (e.step b3 q (.receive validate msg)).getD e
  let e := (e.step b3 q (.emit false)).getD e
  (e.step b3 q .nextEvent).getD e

def serveAll (e : Endpoint) (xs : List Sending) : Endpoint :=
  xs.foldl (fun e x => e.serve b3 q validate x.msg) e

structure Idle (e : Endpoint) (ids : List ℕ) : Prop where
  control : e.control = .select
  handed : e.handedOver = true
  events : e.events = []
  authenticated : ∀ id ∈ ids, e.unauthenticated id = false

theorem serve_steps (e heard emitted taken : Endpoint) (msg : WsMessage) (hc : e.control = .select)
    (hheard : e.receive b3 q validate msg = heard)
    (hemitted : heard.step b3 q (.emit false) = some emitted)
    (htaken : emitted.step b3 q .nextEvent = some taken) :
    e.serve b3 q validate msg = taken := by
  rw [serve, step_receive b3 q validate e hc, Option.getD_some, hheard, hemitted,
    Option.getD_some, htaken, Option.getD_some]

theorem serve_event (hq : 0 < q.events) (e : Endpoint) (ids : List ℕ) (h : e.Idle ids)
    (msg : WsMessage) (event : WsEvent)
    (hr : e.receive b3 q validate msg =
      ({ e with obfuscation := onward b3 e.obfuscation msg } : Endpoint).setControl
        (.eventing event)) :
    e.serve b3 q validate msg =
      { e with
        control := .select
        obfuscation := onward b3 e.obfuscation msg
        events := []
        offers := e.offers++event.offer
        yielded := e.yielded++[event] } := by
  have hl : e.events.length < q.events := by simpa [h.events] using hq
  have hemit := step_emit b3 q
    (({ e with obfuscation := onward b3 e.obfuscation msg } : Endpoint).setControl
      (.eventing event)) event rfl hl
  have hnext := step_nextEvent b3 q
    (({ e with
      obfuscation := onward b3 e.obfuscation msg
      control := .eventing event
      events := e.events++[event] } : Endpoint).setControl .select) h.handed event []
    (by simp [setControl, h.events])
  exact serve_steps b3 q validate e _ _ _ msg h.control hr hemit hnext

theorem serve_nothing (e : Endpoint) (ids : List ℕ) (h : e.Idle ids) (msg : WsMessage)
    (hr : e.receive b3 q validate msg =
      ({ e with obfuscation := onward b3 e.obfuscation msg } : Endpoint)) :
    e.serve b3 q validate msg = { e with obfuscation := onward b3 e.obfuscation msg } := by
  rw [serve, step_receive b3 q validate e h.control, Option.getD_some, hr]
  simp [step, h.control, h.events]

structure Served (e : Endpoint) (ids : List ℕ) (item : Item) (msg : WsMessage) (e' : Endpoint) :
    Prop where
  idle : e'.Idle ids
  obfuscation : e'.obfuscation = onward b3 e.obfuscation msg
  yielded : e'.yielded.map WsEvent.content =
    e.yielded.map WsEvent.content++item.content.toList

/-- An item over WebSocket: its event is yielded if its body decodes, and the
end goes on as it was. -/
theorem serve_content (hq : 0 < q.events) (e : Endpoint) (ids : List ℕ) (h : e.Idle ids)
    (item : Item) (id : ℕ) (hid : id ∈ ids) (msg : WsMessage)
    (hm : hears b3 e.obfuscation msg = some (itemFrame item id)) :
    Served b3 e ids item msg (e.serve b3 q validate msg) := by
  have hr := receive_hears b3 q validate e msg _ hm
  have hu : ({ e with obfuscation := onward b3 e.obfuscation msg } : Endpoint).unauthenticated id =
      false := h.authenticated id hid
  have hevent : ∀ event, item.content = some event.content →
      e.receive b3 q validate msg =
        ({ e with obfuscation := onward b3 e.obfuscation msg } : Endpoint).setControl
          (.eventing event) →
      Served b3 e ids item msg (e.serve b3 q validate msg) := by
    intro event hc hr
    rw [serve_event b3 q validate hq e ids h msg event hr]
    exact ⟨⟨rfl,h.handed,rfl,h.authenticated⟩,rfl,by simp [hc]⟩
  have hnothing : item.content = none →
      e.receive b3 q validate msg =
        ({ e with obfuscation := onward b3 e.obfuscation msg } : Endpoint) →
      Served b3 e ids item msg (e.serve b3 q validate msg) := by
    intro hc hr
    rw [serve_nothing b3 q validate e ids h msg hr]
    exact ⟨⟨h.control,h.handed,h.events,h.authenticated⟩,rfl,by simp [hc]⟩
  cases ho : item.opens with
  | true =>
    have hk : kind (itemFrame item id).frameType = .openStream := by simp [itemFrame, ho]; decide
    cases hd : OpenStream.decode item.body with
    | ok p =>
      apply hevent (.incomingOpen id p.1.address)
      · simp [Item.content, ho, hd, Except.toOption, WsEvent.content]
      · rw [hr, handleFrame, hk]
        simp [handleOpenStream, itemFrame, hu, hd]
    | error _ =>
      apply hnothing
      · simp [Item.content, ho, hd, Except.toOption]
      · rw [hr, handleFrame, hk]
        simp [handleOpenStream, itemFrame, hu, hd]
  | false =>
    have hk : kind (itemFrame item id).frameType = .datagram := by simp [itemFrame, ho]; decide
    cases hd : Datagram.decode item.body with
    | ok p =>
      apply hevent (.datagram p.1)
      · simp [Item.content, ho, hd, Except.toOption, WsEvent.content]
      · rw [hr, handleFrame, hk]
        simp [handleDatagram, itemFrame, hu, hd]
    | error _ =>
      apply hnothing
      · simp [Item.content, ho, hd, Except.toOption]
      · rw [hr, handleFrame, hk]
        simp [handleDatagram, itemFrame, hu, hd]

theorem serveAll_content (hq : 0 < q.events) (ids : List ℕ) (xs : List Sending) (e : Endpoint)
    (h : e.Idle ids) (hi : ∀ x ∈ xs, x.id ∈ ids) (hc : Carries b3 e.obfuscation xs) :
    (e.serveAll b3 q validate xs).Idle ids ∧
      (e.serveAll b3 q validate xs).yielded.map WsEvent.content =
        e.yielded.map WsEvent.content++xs.filterMap fun x => x.item.content := by
  induction xs generalizing e with
  | nil => exact ⟨h,by simp [serveAll]⟩
  | cons x xs ih =>
    have hs := serve_content b3 q validate hq e ids h x.item x.id (hi x (by simp)) x.msg hc.1
    have hc' := hs.obfuscation ▸ hc.2
    obtain ⟨hidle,hy⟩ := ih _ hs.idle (fun y hy => hi y (by simp [hy])) hc'
    refine ⟨hidle,hy.trans ?_⟩
    rw [hs.yielded, List.append_assoc]
    cases hx : x.item.content <;> simp [hx]

structure Alike (e : Endpoint) (s : Tunnel) (xs : List Sending) : Prop where
  quicRuns : (s.serveAll xs).ended = false
  quicYields : (s.serveAll xs).yielded.map Event.content =
    s.yielded.map Event.content++xs.filterMap fun x => x.item.content
  wsRuns : (e.serveAll b3 q validate xs).control = .select
  wsYields : (e.serveAll b3 q validate xs).yielded.map WsEvent.content =
    e.yielded.map WsEvent.content++xs.filterMap fun x => x.item.content

/-- The two transports do the same with items that come whole and one at a time exactly
when none is malformed. -/
theorem alike_iff_wellFormed (hq : 0 < q.events) (e : Endpoint) (s : Tunnel) (hs : s.Calm)
    (xs : List Sending) (he : e.Idle (xs.map Sending.id)) (hc : Carries b3 e.obfuscation xs) :
    e.Alike b3 q validate s xs ↔ ∀ x ∈ xs, x.item.WellFormed := by
  constructor
  · intro ha
    exact s.wellFormed_of_running xs hs ha.quicRuns
  · intro hw
    obtain ⟨hr,hy⟩ := s.serveAll_content xs hs hw
    obtain ⟨hidle,hwy⟩ := serveAll_content b3 q validate hq _ xs e he
      (fun x hx => List.mem_map_of_mem hx) hc
    exact ⟨hr.running,hy,hidle.control,hwy⟩

def admission : List Act :=
  [.receive exampleValidator (.binary (Frame.encode ⟨0,Frame.frameAuthRequest,
    (AuthRequest.newPassword copyHash [1] 0 featureUdp (List.replicate 8 0)).encode⟩)),
    .push,.finish]

def admitted : Endpoint :=
  (run (step copyHash Queues.source) admission (server false none)).getD (server false none)

theorem admission_runs :
    run (step copyHash Queues.source) admission (server false none) = some admitted := by
  have h : (run (step copyHash Queues.source) admission (server false none)).isSome := by
    decide +kernel
  obtain ⟨e,he⟩ := Option.isSome_iff_exists.mp h
  rw [admitted, he, Option.getD_some]

def idleTest (e : Endpoint) : Bool :=
  (match e.control with | .select => true | _ => false) &&
    e.handedOver && e.events.isEmpty && e.sessions.isNone

theorem idle_of_test (e : Endpoint) (h : e.idleTest = true) (ids : List ℕ) : e.Idle ids := by
  simp only [idleTest, Bool.and_eq_true, List.isEmpty_iff, Option.isNone_iff_eq_none] at h
  obtain ⟨⟨⟨hc,hh⟩,he⟩,hs⟩ := h
  refine ⟨?_,hh,he,fun id _ => ?_⟩
  · cases hk : e.control <;> simp_all
  · simp [unauthenticated, hs]

theorem admitted_idle (ids : List ℕ) : admitted.Idle ids :=
  idle_of_test admitted (by decide +kernel) ids

theorem admitted_plain : admitted.obfuscation = none := by
  have h : admitted.obfuscation.isNone = true := by decide +kernel
  exact Option.isNone_iff_eq_none.mp h

def plainly (item : Item) (id : ℕ) (datagramFirst : Bool) : Sending where
  item := item
  id := id
  msg := .binary (itemFrame item id).encode
  datagramFirst := datagramFirst

def goodDatagram : Item := ⟨false,(Datagram.new 1 (.domain [97] 80) [7]).encode,by decide⟩

def goodOpening : Item := ⟨true,(OpenStream.mk (.domain [97] 80)).encode,by decide⟩

def emptyDatagram : Item := ⟨false,[],by decide⟩

def mixed : List Sending :=
  [plainly goodDatagram 0 true,plainly goodOpening 5 true,plainly goodDatagram 0 false]

theorem mixed_alike : admitted.Alike copyHash Queues.source exampleValidator .init mixed := by
  refine (alike_iff_wellFormed copyHash Queues.source exampleValidator (by decide) admitted .init
    ⟨rfl,rfl,rfl,rfl,fun _ _ => rfl⟩ _ (admitted_idle _) ?_).mpr (by decide +kernel)
  rw [admitted_plain]
  exact ⟨by decide +kernel,by decide +kernel,by decide +kernel,trivial⟩

/-- An empty datagram is passed over by WebSocket and ends the loop over QUIC. -/
theorem empty_datagram_ends_quic : ∃ acts e xs,
    run (step copyHash Queues.source) acts (server false none) = some e ∧
      e.Idle (xs.map Sending.id) ∧ Carries copyHash e.obfuscation xs ∧
      (e.serveAll copyHash Queues.source exampleValidator xs).yielded.length = 1 ∧
      (Tunnel.init.serveAll xs).yielded = [] ∧
      ¬e.Alike copyHash Queues.source exampleValidator .init xs := by
  have hq : (Tunnel.init.serveAll [plainly emptyDatagram 0 true,plainly goodDatagram 0 true]).ended =
      true := by decide +kernel
  refine ⟨admission,admitted,[plainly emptyDatagram 0 true,plainly goodDatagram 0 true],admission_runs,
    admitted_idle _,?_,by decide +kernel,by decide +kernel,fun ha => ?_⟩
  · rw [admitted_plain]
    exact ⟨by decide +kernel,by decide +kernel,trivial⟩
  · rw [ha.quicRuns] at hq
    cases hq

end Endpoint
end Ws
end Hydr
