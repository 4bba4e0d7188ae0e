import Mathlib
import Hydr.QuicEvents
import Hydr.WsClose

/-!
# What is over after `Tunnel::close`

Over QUIC `close` closes the connection, and only what had arrived before can
still be taken. Over WebSocket it sends one more frame. Whether that connection
is over later on is decided by the other causes that end a run loop, whatever
`close` did: the socket, a `close` of a handle, a message that is rejected.
-/

set_option autoImplicit false

namespace Hydr.Quic
open Message Varint

/-- A `quinn` connection seen from its two ends. `streams` and `datagrams` have
arrived and are not taken yet, a stream with what can be read from it; `openBi`
is given what is written first and returns what can be read then. `goes` is any
step of the network, of the connection or of a caller. -/
structure Connection (κ : Type) where
  close : κ → Bool → κ
  lost : κ → Bool → Prop
  goes : κ → κ → Prop
  openBi : κ → Bool → Bytes → Result Bytes
  sendDatagram : κ → Bool → Bytes → Result Unit
  streams : κ → Bool → List Bytes
  datagrams : κ → Bool → List Bytes

namespace Connection

variable {κ : Type} (c : Connection κ)

/-- What is relied on: a closed connection is lost at once at that end, it stays
lost, everything but the taking of what has arrived fails, and nothing arrives. -/
structure Documented : Prop where
  close_lost : ∀ s x, c.lost (c.close s x) x
  stays_lost : ∀ s t x, c.goes s t → c.lost s x → c.lost t x
  openBi_lost : ∀ s x bytes, c.lost s x → ∃ err, c.openBi s x bytes = .error err
  sendDatagram_lost : ∀ s x bytes, c.lost s x → ∃ err, c.sendDatagram s x bytes = .error err
  streams_lost : ∀ s t x, c.goes s t → c.lost s x → c.streams t x <:+ c.streams s x
  datagrams_lost : ∀ s t x, c.goes s t → c.lost s x → c.datagrams t x <:+ c.datagrams s x
  accept_bi : ∀ s x b bs, c.streams s x = b::bs → ∃ t, c.goes s t ∧ c.streams t x = bs
  read_datagram : ∀ s x b bs, c.datagrams s x = b::bs → ∃ t, c.goes s t ∧ c.datagrams t x = bs

def openStream (s : κ) (x : Bool) (address : Address) : Result Unit := do
  let recv ← c.openBi s x (writeLenPrefixed (OpenStream.mk address).encode)
  let (ack,_) ← readMessage OpenStreamAck.decode recv
  if ack.status = statusErr then .error (.message (Address.fromUtf8Lossy ack.message)) else .ok ()

def sendDg (s : κ) (x : Bool) (dg : Datagram) : Result Unit := c.sendDatagram s x dg.encode

def Yields (s : κ) (x : Bool) : Prop :=
  (∃ recv rest req, c.streams s x = recv::rest ∧ readMessage OpenStream.decode recv = .ok req) ∨
  ∃ data rest dg, c.datagrams s x = data::rest ∧ Datagram.decode data = .ok dg

def Over (s : κ) : Prop := ∀ t, Relation.ReflTransGen c.goes s t → ∀ x,
  (∀ address, ∃ err, c.openStream t x address = .error err) ∧
    (∀ dg, ∃ err, c.sendDg t x dg = .error err) ∧ ¬c.Yields t x

def Drained (s : κ) : Prop := ∀ x,
  (∀ recv ∈ c.streams s x, ∀ req, readMessage OpenStream.decode recv ≠ .ok req) ∧
    ∀ data ∈ c.datagrams s x, ∀ dg, Datagram.decode data ≠ .ok dg

variable {c} (hc : c.Documented)
include hc

theorem Documented.lost_later (s t : κ) (x : Bool) (h : Relation.ReflTransGen c.goes s t)
    (hl : c.lost s x) :
    c.lost t x ∧ c.streams t x <:+ c.streams s x ∧ c.datagrams t x <:+ c.datagrams s x := by
  induction h with
  | refl => exact ⟨hl,List.suffix_refl _,List.suffix_refl _⟩
  | tail _ hg ih =>
    obtain ⟨hl,hs,hd⟩ := ih
    exact ⟨hc.stays_lost _ _ x hg hl,(hc.streams_lost _ _ x hg hl).trans hs,
      (hc.datagrams_lost _ _ x hg hl).trans hd⟩

/-- The streams are accepted one after another. -/
theorem Documented.accepts (x : Bool) (before after : List Bytes) (s : κ)
    (h : c.streams s x = before++after) :
    ∃ t, Relation.ReflTransGen c.goes s t ∧ c.streams t x = after := by
  induction before generalizing s with
  | nil => exact ⟨s,.refl,h⟩
  | cons b bs ih =>
    obtain ⟨u,hu,hs⟩ := hc.accept_bi s x b (bs++after) h
    obtain ⟨t,ht,hs⟩ := ih u hs
    exact ⟨t,.head hu ht,hs⟩

theorem Documented.reads (x : Bool) (before after : List Bytes) (s : κ)
    (h : c.datagrams s x = before++after) :
    ∃ t, Relation.ReflTransGen c.goes s t ∧ c.datagrams t x = after := by
  induction before generalizing s with
  | nil => exact ⟨s,.refl,h⟩
  | cons b bs ih =>
    obtain ⟨u,hu,hs⟩ := hc.read_datagram s x b (bs++after) h
    obtain ⟨t,ht,hs⟩ := ih u hs
    exact ⟨t,.head hu ht,hs⟩

/-- A connection lost at both ends is over once nothing that has arrived is left. -/
theorem Documented.over_iff (s : κ) (hl : ∀ x, c.lost s x) : c.Over s ↔ c.Drained s := by
  constructor
  · intro ho x
    constructor
    · intro recv hm req hr
      obtain ⟨before,after,he⟩ := List.append_of_mem hm
      obtain ⟨t,ht,hs⟩ := hc.accepts x before (recv::after) s he
      exact (ho t ht x).2.2 (Or.inl ⟨recv,after,req,hs,hr⟩)
    · intro data hm dg hd
      obtain ⟨before,after,he⟩ := List.append_of_mem hm
      obtain ⟨t,ht,hs⟩ := hc.reads x before (data::after) s he
      exact (ho t ht x).2.2 (Or.inr ⟨data,after,dg,hs,hd⟩)
  · intro hd t ht x
    obtain ⟨hlt,hs,hg⟩ := hc.lost_later s t x ht (hl x)
    refine ⟨fun address => ?_,fun dg => hc.sendDatagram_lost t x _ hlt,?_⟩
    · obtain ⟨err,he⟩ := hc.openBi_lost t x (writeLenPrefixed (OpenStream.mk address).encode) hlt
      exact ⟨err,by simp [openStream, he, bind, Except.bind]⟩
    · rintro (⟨recv,rest,req,he,hr⟩ | ⟨data,rest,dg,he,hr⟩)
      · exact (hd x).1 recv (hs.subset (by simp [he])) req hr
      · exact (hd x).2 data (hg.subset (by simp [he])) dg hr

end Connection
end Hydr.Quic

namespace Hydr.Ws
open Message Varint Hydr.Stream Transition

namespace Link

variable (b3 : Blake3) (q : Queues) (cap : Bool → ℕ)

def Stops (y : Bool) (l : Link) : LinkAct → Prop
  | .own x a => x = y ∧ (l.ends y).Stops b3 a
  | .write _ _ => False
  | .deliver x _ => x = y ∧ ∃ msg rest, l.wire (!x) = msg::rest ∧ (l.ends y).Rejects b3 msg

def Stopped (y : Bool) (as : List LinkAct) (l : Link) : Prop :=
  ¬Meets (step b3 q cap) (fun l a => ¬l.Stops b3 y a) as l

structure Over (x : Bool) (l : Link) : Prop where
  ended : (l.ends x).alive = false
  later : ∀ as k, run (step b3 q cap) as l = some k → ∀ y, (k.ends y).handedOver = true →
    (k.ends y).sendDatagram = .error .streamClosed ∧ (k.ends y).events = [] ∧
      (k.ends y).opened = (l.ends y).opened

theorem step_ends (l k : Link) (a : LinkAct) (h : l.step b3 q cap a = some k) (y : Bool) :
    k.ends y = l.ends y ∧ ¬l.Stops b3 y a ∨
      ∃ b, (l.ends y).step b3 q b = some (k.ends y) ∧ (l.Stops b3 y a ↔ (l.ends y).Stops b3 b) := by
  cases moves_of_step b3 q cap l k a h with
  | own x b e hb he =>
    rcases eq_or_ne x y with rfl | hne
    · exact Or.inr ⟨b,by simpa using he,by simp [Stops]⟩
    · exact Or.inl ⟨by simp [Function.update_of_ne hne.symm],fun hs => hne hs.1⟩
  | write x salt m e hh hw he =>
    rcases eq_or_ne x y with rfl | hne
    · exact Or.inr ⟨.write salt,by simpa using he,by simp [Stops, Endpoint.Stops]⟩
    · exact Or.inl ⟨by simp [Function.update_of_ne hne.symm],fun hs => hs⟩
  | deliver x validate msg rest e hw he =>
    rcases eq_or_ne x y with rfl | hne
    · exact Or.inr ⟨.receive validate msg,by simpa using he,by simp [Stops, Endpoint.Stops, hw]⟩
    · exact Or.inl ⟨by simp [Function.update_of_ne hne.symm],fun hs => hne hs.1⟩

theorem step_alive_iff (y : Bool) (l : Link) (a : LinkAct) (k : Link)
    (h : l.step b3 q cap a = some k) :
    (k.ends y).alive = true ↔ (l.ends y).alive = true ∧ ¬l.Stops b3 y a := by
  rcases step_ends b3 q cap l k a h y with ⟨he,hs⟩ | ⟨b,hb,hs⟩
  · rw [he, and_iff_left hs]
  · rw [Endpoint.step_alive_iff b3 q _ _ b hb, hs]

theorem step_handed (y : Bool) (l : Link) (a : LinkAct) (k : Link)
    (h : l.step b3 q cap a = some k) : (k.ends y).handedOver = (l.ends y).handedOver ∨
      (k.ends y).alive = true ∧ ((l.ends y).handedOver = true → (k.ends y).handedOver = true) := by
  rcases step_ends b3 q cap l k a h y with ⟨he,-⟩ | ⟨b,hb,-⟩
  · exact Or.inl (by rw [he])
  · exact Endpoint.step_handed b3 q _ _ b hb

theorem run_handed (y : Bool) (as : List LinkAct) (l k : Link)
    (hr : run (step b3 q cap) as l = some k) (hh : (l.ends y).handedOver = true) :
    (k.ends y).handedOver = true := by
  refine run_preserves (I := fun l => (l.ends y).handedOver = true) (fun s a t hs hst => ?_) as l k
    hr hh
  rcases step_handed b3 q cap y s a t hst with he | ⟨-,hm⟩
  · rw [he, hs]
  · exact hm hs

theorem run_silent (y : Bool) (as : List LinkAct) (l k : Link)
    (hr : run (step b3 q cap) as l = some k) (hl : (l.ends y).alive = false) :
    (l.ends y).Silent (k.ends y) := by
  refine run_preserves (I := fun k => (l.ends y).Silent (k.ends y)) (fun s a t hs hst => ?_) as l k
    hr ⟨hl,rfl,List.suffix_refl _⟩
  rcases step_ends b3 q cap s t a hst y with ⟨he,-⟩ | ⟨b,hb,-⟩
  · rwa [he]
  · have ht := Endpoint.step_silent b3 q _ _ b hb hs.alive
    exact ⟨ht.alive,ht.opened.trans hs.opened,ht.events.trans hs.events⟩

/-- An end gets the tunnel only in a state in which its loop goes on. -/
theorem unhanded_stays (y : Bool) (as : List LinkAct) (l k : Link)
    (hr : run (step b3 q cap) as l = some k) (hl : (l.ends y).handedOver = false)
    (hd : ∀ bs m, run (step b3 q cap) bs l = some m → (m.ends y).handedOver = true →
      (m.ends y).alive = false) : (k.ends y).handedOver = false := by
  induction as generalizing l with
  | nil =>
    cases hr
    exact hl
  | cons a as ih =>
    obtain ⟨u,hu,hr⟩ := run_cons.mp hr
    refine ih u hr ?_ fun bs m hm => hd (a::bs) m (run_cons.mpr ⟨u,hu,hm⟩)
    rcases step_handed b3 q cap y l a u hu with he | ⟨ha,-⟩
    · rw [he, hl]
    · by_contra hh
      have hn := hd [a] u (run_cons.mpr ⟨u,hu,rfl⟩) (by simpa using hh)
      rw [ha] at hn
      cases hn

theorem stopped_iff (y : Bool) (as : List LinkAct) (l k : Link)
    (hr : run (step b3 q cap) as l = some k) (hl : (l.ends y).alive = true) :
    Stopped b3 q cap y as l ↔ (k.ends y).alive = false := by
  rw [Stopped, ← Bool.not_eq_true,
    run_iff_meets (P := fun l => (l.ends y).alive = true) (step_alive_iff b3 q cap y) as l k hr,
    and_iff_right hl]

/-- An open channel takes every datagram, or loses it without an error. -/
theorem sendDatagram_error (e : Endpoint) :
    e.sendDatagram = .error .streamClosed ↔ e.alive = false := by
  unfold Endpoint.sendDatagram
  cases e.alive <;> simp

/-- A connection is over exactly when the loop of each end that has the tunnel,
or will get it, has ended and its events are taken. -/
theorem over_iff (x : Bool) (l : Link) (hx : (l.ends x).handedOver = true) :
    Over b3 q cap x l ↔ ∀ y, (∃ as k, run (step b3 q cap) as l = some k ∧
      (k.ends y).handedOver = true) → (l.ends y).alive = false ∧ (l.ends y).events = [] := by
  constructor
  · rintro ⟨-,ho⟩ y ⟨as,k,hr,hk⟩
    have hd : ∀ bs m, run (step b3 q cap) bs l = some m → (m.ends y).handedOver = true →
        (m.ends y).alive = false :=
      fun bs m hm hh => (sendDatagram_error _).mp (ho bs m hm y hh).1
    have hl : (l.ends y).handedOver = true := by
      by_contra hn
      rw [unhanded_stays b3 q cap y as l k hr (by simpa using hn) hd] at hk
      cases hk
    exact ⟨hd [] l rfl hl,(ho [] l rfl y hl).2.1⟩
  · intro hc
    refine ⟨(hc x ⟨[],l,rfl,hx⟩).1,fun as k hr y hh => ?_⟩
    obtain ⟨hl,he⟩ := hc y ⟨as,k,hr,hh⟩
    have hs := run_silent b3 q cap y as l k hr hl
    refine ⟨(sendDatagram_error _).mpr hs.alive,?_,hs.opened⟩
    have hsub := hs.events
    rwa [he, List.suffix_nil] at hsub

theorem init_alive (auth : AuthRequest) (mux : Bool) (ob : Bool → Option Obfuscator) (y : Bool) :
    ((init auth mux ob).ends y).alive = true := by
  cases y <;> rfl

/-- `handle_tunnel` up to its event loop, by the permits that are free. -/
def handleTunnel (permits : ℕ) : Option ℕ × List LinkAct :=
  match permits with
  | 0 => (none,[.own true .closeTunnel])
  | n+1 => (some n,[])

def Idle (l : Link) : Prop := ∀ x, (l.ends x).callers = [] ∧ (l.ends x).cmds = [] ∧
  (l.ends x).frames = [] ∧ (l.ends x).hand.isNone ∧ (l.wire x).length = 0

instance (l : Link) : Decidable l.Idle := inferInstanceAs (Decidable (∀ _, _))

end Link
end Hydr.Ws

namespace Hydr
open Ws Ws.Link Message Transition

/-- After `close` and whatever comes next: over QUIC the connection is over once
what had arrived is taken; over WebSocket the loops are where other causes have
left them, for a tunnel that was rejected too. -/
theorem tunnel_close_iff {κ : Type} (c : Quic.Connection κ) (hc : c.Documented) (b3 : Blake3)
    (q : Queues) (cap : Bool → ℕ) :
    (∀ (s t : κ) (x : Bool), Relation.ReflTransGen c.goes (c.close s x) t → c.lost t (!x) →
      (c.Over t ↔ c.Drained t)) ∧
    (∀ (auth : AuthRequest) (mux : Bool) (ob : Bool → Option Obfuscator) (as bs : List LinkAct)
      (x : Bool) (k : Link),
      run (Link.step b3 q cap) (as++.own x .closeTunnel::bs) (init auth mux ob) = some k →
        (Over b3 q cap x k ↔
          ∀ y, (∃ cs m, run (Link.step b3 q cap) cs k = some m ∧ (m.ends y).handedOver = true) →
            Stopped b3 q cap y (as++.own x .closeTunnel::bs) (init auth mux ob) ∧
              (k.ends y).events = [])) ∧
    ∀ (auth : AuthRequest) (mux : Bool) (ob : Bool → Option Obfuscator) (as bs : List LinkAct)
      (k : Link),
      run (Link.step b3 q cap) (as++(handleTunnel 0).2++bs) (init auth mux ob) = some k →
        ((k.ends true).alive = false ↔
          Stopped b3 q cap true (as++(handleTunnel 0).2++bs) (init auth mux ob)) := by
  refine ⟨fun s t x ht hl => hc.over_iff t fun y => ?_,fun auth mux ob as bs x k hr => ?_,
    fun auth mux ob as bs k hr =>
      (stopped_iff b3 q cap true _ _ k hr (init_alive auth mux ob true)).symm⟩
  · rcases Bool.eq_or_eq_not y x with rfl | rfl
    · exact (hc.lost_later _ t y ht (hc.close_lost s y)).1
    · exact hl
  · -- the caller of `close` has the tunnel, and keeps it
    have hx : (k.ends x).handedOver = true := by
      rw [run_append] at hr
      obtain ⟨u,-,hr⟩ := Option.bind_eq_some_iff.mp hr
      obtain ⟨v,hv,hr⟩ := run_cons.mp hr
      apply run_handed b3 q cap x bs v k hr
      cases moves_of_step b3 q cap u v _ hv with
      | own x a e ha he =>
        cases Endpoint.moves_of_step b3 q _ _ _ he with
        | closeTunnel hh =>
          rw [setEnd_ends, Function.update_self]
          exact hh
    rw [over_iff b3 q cap x k hx]
    refine forall_congr' fun y => imp_congr_right fun _ => and_congr_left fun _ => ?_
    exact (stopped_iff b3 q cap y _ _ k hr (init_alive auth mux ob y)).symm

structure Prompt where
  lost : Bool → Bool
  streams : Bool → List Bytes
  datagrams : Bool → List Bytes

def promptConnection : Quic.Connection Prompt where
  close s x := { s with lost := Function.update s.lost x true }
  lost s x := s.lost x = true
  goes s t := ∀ x, s.lost x = true →
    t.lost x = true ∧ t.streams x <:+ s.streams x ∧ t.datagrams x <:+ s.datagrams x
  openBi s x _ :=
    if s.lost x then .error .io else .ok (Quic.writeLenPrefixed OpenStreamAck.ok.encode)
  sendDatagram s x _ := if s.lost x then .error .io else .ok ()
  streams := Prompt.streams
  datagrams := Prompt.datagrams

theorem promptConnection_documented : promptConnection.Documented where
  close_lost s x := Function.update_self ..
  stays_lost s t x hg hl := (hg x hl).1
  openBi_lost s x _ hl := ⟨.io,if_pos hl⟩
  sendDatagram_lost s x _ hl := ⟨.io,if_pos hl⟩
  streams_lost s t x hg hl := (hg x hl).2.1
  datagrams_lost s t x hg hl := (hg x hl).2.2
  accept_bi s x b bs h := by
    refine ⟨{ s with streams := Function.update s.streams x bs },fun y hl => ⟨hl,?_,?_⟩,?_⟩
    · rcases eq_or_ne y x with rfl | hne
      · show Function.update s.streams y bs y <:+ s.streams y
        rw [Function.update_self]
        exact ⟨[b],h.symm⟩
      · simp [hne]
    · exact List.suffix_refl _
    · exact Function.update_self ..
  read_datagram s x b bs h := by
    refine ⟨{ s with datagrams := Function.update s.datagrams x bs },fun y hl => ⟨hl,?_,?_⟩,?_⟩
    · exact List.suffix_refl _
    · rcases eq_or_ne y x with rfl | hne
      · show Function.update s.datagrams y bs y <:+ s.datagrams y
        rw [Function.update_self]
        exact ⟨[b],h.symm⟩
      · simp [hne]
    · exact Function.update_self ..

def arrived (lost : Bool) : Prompt where
  lost _ := lost
  streams x := if x then [Quic.writeLenPrefixed (OpenStream.mk (.domain [97] 80)).encode,[]] else []
  datagrams x := if x then [(Datagram.new 1 (.domain [97] 80) [7]).encode] else []

def taken : Prompt where
  lost _ := true
  streams x := if x then [[]] else []
  datagrams _ := []

/-- The client closes and the server learns of it: the connection is over once the server
has taken what it had got. -/
theorem promptConnection_over :
    ¬promptConnection.Over (arrived true) ∧ promptConnection.Over taken := by
  have hq := (tunnel_close_iff promptConnection promptConnection_documented copyHash .source
    fun _ => 1).1 (arrived false)
  have hlearns : promptConnection.goes (promptConnection.close (arrived false) false) (arrived true) :=
    fun x _ => ⟨rfl,List.suffix_refl _,List.suffix_refl _⟩
  have htakes : promptConnection.goes (arrived true) taken := by
    intro x _
    cases x with
    | false => exact ⟨rfl,List.suffix_refl _,List.suffix_refl _⟩
    | true => exact ⟨rfl,List.suffix_cons _ _,List.nil_suffix⟩
  constructor
  · intro ho
    exact ((hq _ false (.single hlearns) rfl).mp ho true).1 _ (List.mem_cons_self ..) _ rfl
  · refine (hq _ false ((Relation.ReflTransGen.single hlearns).tail htakes) rfl).mpr fun x =>
      ⟨fun recv hm req hr => ?_,fun data hm => ?_⟩
    · cases x with
      | false => cases hm
      | true =>
        obtain rfl := List.mem_singleton.mp hm
        cases hr
    · cases hm

def admitted : List LinkAct :=
  LinkAct.own false (.enter (.sendFrame ⟨0,Frame.frameAuthRequest,exampleAuth.encode⟩))::
    LinkAct.own false .take::(shipped false++LinkAct.deliver true Endpoint.exampleValidator::
      (shipped true++[LinkAct.deliver false Endpoint.exampleValidator]))

def dismissed : List LinkAct :=
  LinkAct.own true (.enter (.sendFrame ⟨0,Frame.frameStreamClose,[]⟩))::LinkAct.own true .take::
    (shipped true++[LinkAct.deliver false Endpoint.exampleValidator])

/-- A server without a free permit: the client takes the frame, and both loops go on. -/
theorem rejected_tunnel_lives :
    ¬∀ (b3 : Blake3) (q : Queues) (cap : Bool → ℕ) (auth : AuthRequest) (as bs : List LinkAct)
      (k : Link), run (Link.step b3 q cap) (as++(handleTunnel 0).2++bs)
        (init auth false fun _ => none) = some k → k.Idle → Over b3 q cap true k := by
  intro h
  have hd : ((run (Link.step copyHash .source fun _ => 1)
      (admitted++(handleTunnel 0).2++dismissed) (init exampleAuth false fun _ => none)).map fun k =>
        decide (k.Idle ∧ (k.ends true).alive = true)) = some true := by decide +kernel
  obtain ⟨k,hr,hk⟩ := Option.map_eq_some_iff.mp hd
  obtain ⟨hi,ha⟩ := of_decide_eq_true hk
  have hn := (h copyHash .source (fun _ => 1) exampleAuth _ _ k hr hi).ended
  rw [ha] at hn
  cases hn

end Hydr
