import Mathlib
import Hydr.RelayFrames
import Hydr.UdpSessionIds
import Hydr.UdpTable

/-!
# Datagrams from the application to the exit node and back

Clients relay the packets of their associations into their tunnels, the exit node sends
them from the sockets of its sessions, and what comes back there goes through the tunnel
to the association with the session's id. Tunnels lose, repeat and reorder datagrams, a
client may change its tunnel, and nothing else is assumed of the schedule.
-/

set_option autoImplicit false

namespace Hydr.UdpRoundTrip
open Message Transition
open Address (IpAddr)
open Udp (SocketAddr)

variable {C T : Type}

def bufLen : ℕ := 65535

/-- `up` is everything that the clients have handed to their tunnels, as bytes. -/
structure Network (C T : Type) where
  clients : C → UdpRelay.State
  server : Udp.State T
  link : C → T
  up : List (T × Bytes)

/-- `arrive` and `reply` name the datagram by its place among those handed over. -/
inductive Act (C T : Type) where
  | client (c : C) (a : UdpRelay.Act)
  | reconnect (c : C) (u : T) (h : UdpRelay.TunnelHandle)
  | arrive (i : ℕ) (call now : ℕ) (bind : Bool)
  | server (a : Udp.Act T)
  | reply (i : ℕ)

def isLocal : UdpRelay.Act → Bool
  | .routeReply _ | .reconnect _ => false
  | .packet _ _ bytes => bytes.length ≤ bufLen
  | _ => true

def isOwn : Udp.Act T → Bool
  | .forward _ _ _ _ _ => false
  | _ => true

namespace Network

def init (handles : C → UdpRelay.TunnelHandle) (link : C → T) (maxSessions maxPerIp : ℕ) :
    Network C T where
  clients c := .init (handles c)
  server := .init maxSessions maxPerIp
  link := link
  up := []

def handed (s t : UdpRelay.State) : List Bytes :=
  (t.forwarded.drop s.forwarded.length).map fun f => f.2.2.encode

variable [DecidableEq C] (ip : T → IpAddr) (owner : T → C)

def setClient (s : Network C T) (c : C) (v : UdpRelay.State) : Network C T :=
  { s with clients := Function.update s.clients c v }

def step (s : Network C T) : Act C T → Option (Network C T)
  | .client c a =>
    if isLocal a then
      (UdpRelay.step (s.clients c) a).map fun v =>
        { s.setClient c v with up := s.up++(handed (s.clients c) v).map fun bytes => (s.link c,bytes) }
    else none
  | .reconnect c u h =>
    if owner u = c then
      (UdpRelay.step (s.clients c) (.reconnect h)).map fun v =>
        { s.setClient c v with link := Function.update s.link c u }
    else none
  | .arrive i call now bind =>
    s.up[i]?.bind fun p =>
      match Datagram.decode p.2 with
      | .error _ => none
      | .ok (dg,_) =>
        (Udp.step ip s.server (.forward call p.1 dg now bind)).map fun v => { s with server := v }
  | .server a =>
    if isOwn a then (Udp.step ip s.server a).map fun v => { s with server := v } else none
  | .reply i =>
    s.server.delivered[i]?.bind fun d =>
      match Datagram.decode d.2.2.encode with
      | .error _ => none
      | .ok (dg,_) =>
        (UdpRelay.step (s.clients (owner d.2.1)) (.routeReply dg)).map (s.setClient (owner d.2.1))

end Network

section Client
open UdpRelay

structure Traced (s : UdpRelay.State) : Prop where
  call : ∀ k call, s.calls.lookup k = some call → k < s.nextCall
  task : ∀ k task, s.tasks k = some task → k < s.nextCall
  session : ∀ sid ses, s.sessions.lookup sid = some ses → ses.socket < s.nextCall
  forwarded : ∀ f ∈ s.forwarded, f.1 < s.nextCall ∧ f.2.2.sessionId = idOf f.1 ∧
    Datagram.decode f.2.2.encode = .ok (f.2.2,f.2.2.encode.length)
  replies : ∀ r ∈ s.replies, r.1 < s.nextCall

theorem received_received (a : Address) : a.received.received = a.received := by
  cases a with
  | ip => rfl
  | domain host port => simp [Address.received, Address.fromUtf8Lossy_idem]

theorem relayed_decodes (sid : UInt32) (h : TunnelHandle) (bytes : Bytes) (dg : Datagram)
    (handed : Bool) (hl : bytes.length ≤ bufLen) (hr : relayPacket sid h bytes = .sent dg handed) :
    dg.sessionId = sid ∧ Datagram.decode dg.encode = .ok (dg,dg.encode.length) := by
  unfold relayPacket at hr
  cases hp : Socks5.parseUdpPacket bytes with
  | error e => simp [hp] at hr
  | ok r =>
    obtain ⟨target,payload⟩ := r
    have hdg : dg = .new sid target payload := by
      simp only [hp] at hr
      split at hr <;> cases hr
      rfl
    subst hdg
    refine ⟨rfl,?_⟩
    rw [Socks5.parseUdpPacket] at hp
    split_ifs at hp with hh
    cases ha : Address.decode (bytes.drop 3) with
    | error e =>
      rw [ha] at hp
      cases hp
    | ok r =>
      obtain ⟨a,used⟩ := r
      obtain ⟨raw,hraw,rfl⟩ := Relay.decode_literal_ok _ _ _ ha
      rw [ha] at hp
      obtain ⟨rfl,-⟩ := Prod.mk.inj (Except.ok.inj hp)
      obtain ⟨hu,-,hlen⟩ := Address.literal_length _ _ _ hraw
      have henc : raw.received.Encodable := by
        refine Address.encodable_of_length _ ?_
        simp only [bufLen, List.length_drop] at hl hu
        omega
      rw [Datagram.decode_encode _ henc]
      simp [Datagram.new, received_received]

theorem init_traced (h : TunnelHandle) : Traced (.init h) :=
  ⟨fun _ _ h => (by cases h),fun _ _ h => (by cases h),fun _ _ h => (by cases h),
    fun _ h => (by cases h),fun _ h => (by cases h)⟩

namespace Traced

variable {s : UdpRelay.State} (h : Traced s)
include h

theorem setCall (c : ℕ) (call : Call) (hc : c < s.nextCall) : Traced (s.setCall c call) where
  call k u hl := by
    rcases Table.lookup_insert_cases hl with ⟨rfl,-⟩ | ⟨-,hl⟩
    · exact hc
    · exact h.call k u hl
  task := h.task
  session := h.session
  forwarded := h.forwarded
  replies := h.replies

theorem finish (c : ℕ) : Traced (s.finish c) where
  call k u hl := h.call k u (Table.lookup_of_erase hl)
  task := h.task
  session := h.session
  forwarded := h.forwarded
  replies := h.replies

theorem setTask (c : ℕ) (task : Task) (hc : c < s.nextCall) : Traced (s.setTask c task) where
  call := h.call
  task k u hl := by
    rcases setTask_cases hl with ⟨rfl,-⟩ | hl
    · exact hc
    · exact h.task k u hl
  session := h.session
  forwarded := h.forwarded
  replies := h.replies

theorem enterSession (sid : UInt32) (ses : RelaySession) (hs : ses.socket < s.nextCall) :
    Traced { s with sessions := s.sessions.insert sid ses } where
  call := h.call
  task := h.task
  session k u hl := by
    rcases Table.lookup_insert_cases hl with ⟨-,rfl⟩ | ⟨-,hl⟩
    · exact hs
    · exact h.session k u hl
  forwarded := h.forwarded
  replies := h.replies

theorem later (n : ℕ) (hn : s.nextCall ≤ n) (sid : UInt32) :
    Traced { s with nextCall := n, nextSession := sid } where
  call k u hl := (h.call k u hl).trans_le hn
  task k u hl := (h.task k u hl).trans_le hn
  session k u hl := (h.session k u hl).trans_le hn
  forwarded f hf := ⟨(h.forwarded f hf).1.trans_le hn,(h.forwarded f hf).2⟩
  replies r hr := (h.replies r hr).trans_le hn

theorem associate : Traced s.associate := by
  have hl := h.later (s.nextCall+1) (Nat.le_succ _) (s.nextSession+1)
  exact hl.setCall s.nextCall ⟨s.nextSession,.inserting⟩ (Nat.lt_succ_self _)

theorem mark (sid : UInt32) (ses : RelaySession) (source : SocketAddr)
    (hl : s.sessions.lookup sid = some ses) : Traced (s.mark sid ses source) :=
  h.enterSession sid _ (h.session sid ses hl)

theorem receive (hn : Numbered s) (c : ℕ) (task : Task) (source : SocketAddr) (bytes : Bytes)
    (ht : s.tasks c = some task) (hl : bytes.length ≤ bufLen) :
    Traced (s.receive c task source bytes) := by
  have hc := h.task c task ht
  have hr : Traced { s with read := Function.update s.read c (s.read c++[(s.tunnel,bytes)]) } :=
    ⟨h.call,h.task,h.session,h.forwarded,h.replies⟩
  unfold State.receive
  dsimp only
  cases hp : relayPacket task.sid s.tunnel bytes with
  | skipped => exact hr
  | sent dg handed =>
    cases hs : s.sessions.lookup task.sid with
    | none => exact hr.setTask c { task with phase := .panicked } hc
    | some ses =>
      have hm := hr.mark task.sid ses source hs
      cases handed with
      | false => exact hm
      | true =>
        obtain ⟨hsid,hdec⟩ := relayed_decodes _ _ _ _ _ hl hp
        refine ⟨hm.call,hm.task,hm.session,fun f hf => ?_,hm.replies⟩
        rcases List.mem_append.mp hf with hf | hf
        · exact hm.forwarded f hf
        · obtain rfl := List.mem_singleton.mp hf
          exact ⟨hc,hsid.trans (hn.task c task ht),hdec⟩
  | failed dg =>
    cases hs : s.sessions.lookup task.sid with
    | none => exact hr.setTask c { task with phase := .panicked } hc
    | some ses =>
      exact (hr.mark task.sid ses source hs).setTask c { task with phase := .removing } hc

theorem routeReply (dg : Datagram) : Traced (s.routeReply dg) := by
  unfold State.routeReply
  split
  · rename_i socket addr hl
    refine ⟨h.call,h.task,h.session,h.forwarded,fun r hr => ?_⟩
    rcases List.mem_append.mp hr with hr | hr
    · exact h.replies r hr
    · obtain rfl := List.mem_singleton.mp hr
      exact h.session _ _ hl
  · exact h

end Traced

theorem step_traced (s : UdpRelay.State) (a : UdpRelay.Act) (t : UdpRelay.State) (hn : Numbered s)
    (h : Traced s) (hl : ∀ c source bytes, a = .packet c source bytes → bytes.length ≤ bufLen)
    (hst : UdpRelay.step s a = some t) : Traced t := by
  cases UdpRelay.moves_of_step s t a hst with
  | refuse => exact h
  | associate => exact h.associate
  | insert c call hc =>
    exact (h.setCall c _ (h.call c call hc)).enterSession call.sid ⟨c,none⟩ (h.call c call hc)
  | reply c call hc => exact h.setCall c _ (h.call c call hc)
  | replyFail c | controlEnd c => exact h.finish c
  | spawn c call hc =>
    unfold State.spawn
    split
    · exact h.finish c
    · exact (h.setCall c _ (h.call c call hc)).setTask c _ (h.call c call hc)
  | packet c source bytes task ht => exact h.receive hn c task source bytes ht (hl c source bytes rfl)
  | recvError c task ht => exact h.setTask c _ (h.task c task ht)
  | remove c task ht =>
    have ht' := h.setTask c { task with phase := .ended } (h.task c task ht)
    exact ⟨ht'.call,ht'.task,fun k u hl => h.session k u (Table.lookup_of_erase hl),
      ht'.forwarded,ht'.replies⟩
  | routeReply dg => exact h.routeReply dg
  | reconnect u => exact ⟨h.call,h.task,h.session,h.forwarded,h.replies⟩

/-- What is forwarded stays on record, and only a routed reply goes to a local socket. -/
theorem step_records (s : UdpRelay.State) (a : UdpRelay.Act) (t : UdpRelay.State)
    (hst : UdpRelay.step s a = some t) : s.forwarded <+: t.forwarded ∧
      ((∀ dg, a ≠ .routeReply dg) → t.replies = s.replies) := by
  cases UdpRelay.moves_of_step s t a hst with
  | packet c source bytes task ht =>
    unfold State.receive
    dsimp only
    split
    · exact ⟨List.prefix_rfl,fun _ => rfl⟩
    · exact ⟨List.prefix_rfl,fun _ => rfl⟩
    · split_ifs
      · exact ⟨List.prefix_append _ _,fun _ => rfl⟩
      · exact ⟨List.prefix_rfl,fun _ => rfl⟩
    · exact ⟨List.prefix_rfl,fun _ => rfl⟩
  | routeReply dg =>
    refine ⟨?_,fun h => absurd rfl (h dg)⟩
    unfold State.routeReply
    split <;> exact List.prefix_rfl
  | spawn c call hc =>
    unfold State.spawn
    split <;> exact ⟨List.prefix_rfl,fun _ => rfl⟩
  | _ => exact ⟨List.prefix_rfl,fun _ => rfl⟩

end Client

section Server
open Udp

def sidOf (s : Udp.State T) (n : ℕ) : Option UInt32 := (s.tasks n).map (·.sid)

structure Marked (P : T → Datagram → Prop) (s : Udp.State T) : Prop where
  unborn : ∀ n, s.nextSocket ≤ n → sidOf s n = none
  session : ∀ key ses, s.manager.sessions.lookup key = some ses → sidOf s ses.socket = some key.2
  call : ∀ c call, s.calls c = some call →
    sidOf s call.socket = some call.dg.sessionId ∧ P call.tunnel call.dg
  sent : ∀ e ∈ s.sent, sidOf s e.1 = some e.2.2.sessionId ∧ P e.2.1 e.2.2
  delivered : ∀ d ∈ s.delivered, sidOf s d.1 = some d.2.2.sessionId ∧
    ∃ (source : SocketAddr) (payload : Bytes),
      d.2.2 = .new d.2.2.sessionId (.ip source.1 source.2) payload

theorem init_marked (P : T → Datagram → Prop) (maxSessions maxPerIp : ℕ) :
    Marked P (.init maxSessions maxPerIp : Udp.State T) :=
  ⟨fun _ _ => rfl,fun _ _ h => (by cases h),fun _ _ h => (by cases h),fun _ h => (by cases h),
    fun _ h => (by cases h)⟩

theorem sidOf_alter (s : Udp.State T) (m : ℕ) (f : ReplyTask T → ReplyTask T)
    (hf : ∀ task, (f task).sid = task.sid) (n : ℕ) : sidOf (s.alter m f) n = sidOf s n := by
  unfold sidOf State.alter
  rcases eq_or_ne n m with rfl | hne
  · cases s.tasks n <;> simp [hf]
  · simp [hne]

theorem sidOf_notify (sockets : List ℕ) (s : Udp.State T) (n : ℕ) :
    sidOf (State.notify sockets s) n = sidOf s n := by
  induction sockets generalizing s with
  | nil => rfl
  | cons socket sockets ih =>
    exact (ih _).trans (sidOf_alter s socket (fun task => { task with done := true }) (fun _ => rfl) n)

namespace Marked

variable {P : T → Datagram → Prop} {s t : Udp.State T} (h : Marked P s)
include h

theorem quiet (hs : ∀ n, sidOf t n = sidOf s n) (hn : t.nextSocket = s.nextSocket)
    (hl : ∀ key ses, t.manager.sessions.lookup key = some ses →
      ∃ old, s.manager.sessions.lookup key = some old ∧ old.socket = ses.socket)
    (hc : ∀ c call, t.calls c = some call → ∃ d old, s.calls d = some old ∧
      old.socket = call.socket ∧ old.dg = call.dg ∧ old.tunnel = call.tunnel)
    (hse : ∀ e ∈ t.sent, e ∈ s.sent ∨ sidOf s e.1 = some e.2.2.sessionId ∧ P e.2.1 e.2.2)
    (hd : ∀ d ∈ t.delivered, d ∈ s.delivered ∨ sidOf s d.1 = some d.2.2.sessionId ∧
      ∃ (source : SocketAddr) (payload : Bytes),
        d.2.2 = .new d.2.2.sessionId (.ip source.1 source.2) payload) : Marked P t where
  unborn n hle := (hs n).trans (h.unborn n (hn ▸ hle))
  session key ses hk := by
    obtain ⟨old,ho,he⟩ := hl key ses hk
    rw [hs, ← he]
    exact h.session key old ho
  call c call hcall := by
    obtain ⟨d,old,ho,he,hdg,ht⟩ := hc c call hcall
    rw [hs, ← he, ← hdg, ← ht]
    exact h.call d old ho
  sent e he := by
    rw [hs]
    exact (hse e he).elim (h.sent e) id
  delivered d he := by
    rw [hs]
    exact (hd d he).elim (h.delivered d) id

theorem finish (c : ℕ) (r : Result Unit) : Marked P (s.finish c r) := by
  refine h.quiet (fun _ => rfl) rfl (fun _ ses hl => ⟨ses,hl,rfl⟩) (fun k call hk => ?_)
    (fun _ => .inl) (fun _ => .inl)
  rcases Table.update_cases hk with ⟨-,⟨⟩⟩ | ⟨-,hk⟩
  exact ⟨k,call,hk,rfl,rfl,rfl⟩

theorem enter (c : ℕ) (call : Call T) (phase : Phase) (hc : s.calls c = some call) :
    Marked P (s.enter c { call with phase := phase }) := by
  refine h.quiet (fun _ => rfl) rfl (fun _ ses hl => ⟨ses,hl,rfl⟩) (fun k new hk => ?_)
    (fun _ => .inl) (fun _ => .inl)
  rcases Table.update_cases hk with ⟨-,⟨⟩⟩ | ⟨-,hk⟩
  · exact ⟨c,call,hc,rfl,rfl,rfl⟩
  · exact ⟨k,new,hk,rfl,rfl,rfl⟩

theorem fewer (m : UdpManager) (sockets : List ℕ) (hl : ∀ key ses,
    m.sessions.lookup key = some ses → s.manager.sessions.lookup key = some ses) :
    Marked P (State.notify sockets { s with manager := m }) := by
  obtain ⟨-,hm,hc,hn,-,hs,hd⟩ := notify_frame { s with manager := m } sockets
  refine h.quiet (sidOf_notify sockets _) hn (fun key ses hk => ?_)
    (fun c call hk => ⟨c,call,hc ▸ hk,rfl,rfl,rfl⟩) (fun e he => .inl (hs ▸ he))
    (fun d he => .inl (hd ▸ he))
  rw [hm] at hk
  exact ⟨ses,hl key ses hk,rfl⟩

theorem alter (m : ℕ) (f : ReplyTask T → ReplyTask T) (hf : ∀ task, (f task).sid = task.sid) :
    Marked P (s.alter m f) :=
  h.quiet (sidOf_alter s m f hf) rfl (fun _ ses hl => ⟨ses,hl,rfl⟩)
    (fun c call hc => ⟨c,call,hc,rfl,rfl,rfl⟩) (fun _ => .inl) (fun _ => .inl)

theorem forward (ip : T → IpAddr) (c : ℕ) (u : T) (dg : Datagram) (now : ℕ) (bind : Bool)
    (hP : P u dg) : Marked P (s.forward ip c u dg now bind) := by
  rcases forward_cases ip s c u dg now bind with ⟨ses,hl,he⟩ | ⟨p,g,he⟩ | ⟨e,he⟩ <;> rw [he]
  · have hs := h.session _ ses hl
    refine ⟨h.unborn,fun key new hk => ?_,fun k call hk => ?_,h.sent,h.delivered⟩
    · rcases Table.lookup_insert_cases hk with ⟨rfl,rfl⟩ | ⟨-,hk⟩
      · exact hs
      · exact h.session key new hk
    · rcases Table.update_cases hk with ⟨-,⟨⟩⟩ | ⟨-,hk⟩
      · exact ⟨hs,hP⟩
      · exact h.call k call hk
  · have hold : ∀ n sid, sidOf s n = some sid → n ≠ s.nextSocket := by
      rintro n sid hn rfl
      simp [h.unborn _ le_rfl] at hn
    have hsid : ∀ n sid, sidOf s n = some sid → (Function.update s.tasks s.nextSocket
        (some ⟨u,dg.sessionId,false,true⟩) n).map (·.sid) = some sid := by
      intro n sid hn
      rw [Function.update_of_ne (hold n sid hn)]
      exact hn
    refine ⟨fun n hn => ?_,fun key new hk => ?_,fun k call hk => ?_,fun e he => ?_,fun d hd => ?_⟩
    · simp only at hn
      have hne : n ≠ s.nextSocket := by omega
      simp only [sidOf, Function.update_of_ne hne]
      exact h.unborn n (by omega)
    · rcases Table.lookup_insert_cases hk with ⟨rfl,rfl⟩ | ⟨-,hk⟩
      · simp [sidOf]
      · exact hsid _ _ (h.session key new hk)
    · rcases Table.update_cases hk with ⟨-,⟨⟩⟩ | ⟨-,hk⟩
      · exact ⟨by simp [sidOf],hP⟩
      · exact ⟨hsid _ _ (h.call k call hk).1,(h.call k call hk).2⟩
    · exact ⟨hsid _ _ (h.sent e he).1,(h.sent e he).2⟩
    · exact ⟨hsid _ _ (h.delivered d hd).1,(h.delivered d hd).2⟩
  · exact h.finish c _

theorem sendTo (c : ℕ) (call : Call T) (ok : Bool) (hc : s.calls c = some call) :
    Marked P (s.sendTo c call ok) := by
  cases ok with
  | false => exact h.enter c call .removing hc
  | true =>
    have hsent : Marked P { s with sent := s.sent++[(call.socket,call.tunnel,call.dg)] } := by
      refine h.quiet (fun _ => rfl) rfl (fun _ ses hl => ⟨ses,hl,rfl⟩)
        (fun k new hk => ⟨k,new,hk,rfl,rfl,rfl⟩) (fun e he => ?_) (fun _ => .inl)
      rcases List.mem_append.mp he with he | he
      · exact .inl he
      · obtain rfl := List.mem_singleton.mp he
        exact .inr (h.call c call hc)
    exact hsent.finish c (.ok ())

theorem receive (n : ℕ) (task : ReplyTask T) (source : SocketAddr) (payload : Bytes) (ok : Bool)
    (ht : s.tasks n = some task) : Marked P (s.receive n task source payload ok) := by
  have hd : Marked P { s with delivered := s.delivered++
      [(n,task.upstream,Datagram.new task.sid (.ip source.1 source.2) payload)] } := by
    refine h.quiet (fun _ => rfl) rfl (fun _ ses hl => ⟨ses,hl,rfl⟩)
      (fun k new hk => ⟨k,new,hk,rfl,rfl,rfl⟩) (fun _ => .inl) (fun d he => ?_)
    rcases List.mem_append.mp he with he | he
    · exact .inl he
    · obtain rfl := List.mem_singleton.mp he
      exact .inr ⟨by simp [sidOf, ht, Datagram.new],source,payload,rfl⟩
  exact hd.alter n (fun task => { task with running := ok }) fun _ => rfl

end Marked

theorem step_marked (P : T → Datagram → Prop) (ip : T → IpAddr) (s : Udp.State T) (a : Udp.Act T)
    (t : Udp.State T) (h : Marked P s)
    (hP : ∀ c u dg now bind, a = .forward c u dg now bind → P u dg)
    (hst : Udp.step ip s a = some t) : Marked P t := by
  cases Udp.moves_of_step ip s t a hst with
  | forward c u dg now bind => exact h.forward ip c u dg now bind (hP c u dg now bind rfl)
  | resolve c l call hc =>
    unfold State.resolve
    split
    · exact h.finish c _
    · exact h.enter c call _ hc
  | sendTo c ok call target hc => exact h.sendTo c call ok hc
  | remove c call =>
    exact (h.fewer _ _ fun key ses hk => UdpManager.removeSession_lookup _ _ _ _ hk).finish c _
  | sweep now =>
    refine h.fewer _ _ fun key ses hk => ?_
    have hs := UdpManager.lookup_sweep s.manager now key
    rw [UdpManager.sweep] at hs
    exact (Option.filter_eq_some_iff.mp (hs.symm.trans hk)).1
  | receive n source payload ok task ht => exact h.receive n task source payload ok ht
  | stop n | socketError n =>
    exact h.alter n (fun task => { task with running := false }) fun _ => rfl

theorem Marked.mono {P Q : T → Datagram → Prop} {s : Udp.State T} (h : Marked P s)
    (hPQ : ∀ u dg, P u dg → Q u dg) : Marked Q s where
  unborn := h.unborn
  session := h.session
  call c call hc := (h.call c call hc).imp_right (hPQ _ _)
  sent e he := (h.sent e he).imp_right (hPQ _ _)
  delivered := h.delivered

/-- What was handed to a tunnel stays on record. -/
theorem step_delivered (ip : T → IpAddr) (s : Udp.State T) (a : Udp.Act T) (t : Udp.State T)
    (hst : Udp.step ip s a = some t) : s.delivered <+: t.delivered := by
  cases Udp.moves_of_step ip s t a hst with
  | forward c u dg now bind =>
    rcases forward_cases ip s c u dg now bind with ⟨ses,-,he⟩ | ⟨p,g,he⟩ | ⟨e,he⟩ <;> rw [he] <;>
      exact List.prefix_rfl
  | resolve c l call =>
    obtain ⟨r,he | ⟨phase,he⟩⟩ := resolve_quiet s c call l <;> rw [he] <;> exact List.prefix_rfl
  | sendTo c ok call => cases ok <;> exact List.prefix_rfl
  | remove c call =>
    have hd := (notify_frame { s with manager := (s.manager.removeSession call.key).2 }
      (s.manager.removeSession call.key).1).2.2.2.2.2.2
    exact hd ▸ List.prefix_rfl
  | sweep now =>
    have hd := (notify_frame { s with manager := (s.manager.sweep now).2 }
      (s.manager.sweep now).1).2.2.2.2.2.2
    exact hd ▸ List.prefix_rfl
  | receive n source payload ok task => exact List.prefix_append _ _
  | stop n | socketError n => exact List.prefix_rfl

end Server

section Network
variable {ip : T → IpAddr} {owner : T → C}

def Asked (s : Network C T) (c : C) (k : ℕ) (dg : Datagram) : Prop :=
  ∃ source, (k,source,dg) ∈ (s.clients c).forwarded

def Answered (s : Network C T) (owner : T → C) (c : C) (r : ℕ × SocketAddr × Bytes)
    (d : ℕ × T × Datagram) : Prop :=
  d ∈ s.server.delivered ∧ owner d.2.1 = c ∧ d.2.2.sessionId = UdpRelay.idOf r.1 ∧
    r.2.2 = [0,0,0]++d.2.2.address.encode++d.2.2.payload

structure Sound (owner : T → C) (s : Network C T) : Prop where
  linked : ∀ c, owner (s.link c) = c
  numbered : ∀ c, UdpRelay.Numbered (s.clients c)
  traced : ∀ c, Traced (s.clients c)
  carried : ∀ p ∈ s.up, ∃ k dg, Asked s (owner p.1) k dg ∧ p.2 = dg.encode
  marked : Marked (fun u dg => ∃ k, Asked s (owner u) k dg) s.server
  replied : ∀ c, ∀ r ∈ (s.clients c).replies, ∃ d, Answered s owner c r d

theorem init_sound (handles : C → UdpRelay.TunnelHandle) (link : C → T) (maxSessions maxPerIp : ℕ)
    (hl : ∀ c, owner (link c) = c) : Sound owner (.init handles link maxSessions maxPerIp) where
  linked := hl
  numbered c := UdpRelay.init_numbered _
  traced c := init_traced _
  carried _ h := by cases h
  marked := init_marked _ maxSessions maxPerIp
  replied _ _ h := by cases h

section Step
variable [DecidableEq C]

theorem Sound.moveClient {s t : Network C T} (h : Sound owner s) (c : C) (v : UdpRelay.State)
    (hclients : t.clients = Function.update s.clients c v) (hserver : t.server = s.server)
    (hn : UdpRelay.Numbered v) (ht : Traced v) (hf : (s.clients c).forwarded <+: v.forwarded)
    (hr : ∀ r ∈ v.replies, r ∈ (s.clients c).replies ∨ ∃ d, Answered s owner c r d)
    (hl : ∀ c, owner (t.link c) = c) (hu : ∀ p ∈ t.up, p ∈ s.up ∨
      owner p.1 = c ∧ ∃ f ∈ v.forwarded, p.2 = f.2.2.encode) : Sound owner t := by
  have hself : t.clients c = v := by rw [hclients, Function.update_self]
  have hother : ∀ b, b ≠ c → t.clients b = s.clients b := fun b hb => by
    rw [hclients, Function.update_of_ne hb]
  have hasked : ∀ b k dg, Asked s b k dg → Asked t b k dg := by
    rintro b k dg ⟨source,hm⟩
    by_cases hb : b = c
    · subst hb
      exact ⟨source,hself ▸ hf.subset hm⟩
    · exact ⟨source,(hother b hb).symm ▸ hm⟩
  refine ⟨hl,fun b => ?_,fun b => ?_,fun p hp => ?_,?_,fun b r hrb => ?_⟩
  · by_cases hb : b = c
    · rwa [hb, hself]
    · rw [hother b hb]
      exact h.numbered b
  · by_cases hb : b = c
    · rwa [hb, hself]
    · rw [hother b hb]
      exact h.traced b
  · rcases hu p hp with hp | ⟨ho,f,hf,he⟩
    · obtain ⟨k,dg,ha,he⟩ := h.carried p hp
      exact ⟨k,dg,hasked _ k dg ha,he⟩
    · exact ⟨f.1,f.2.2,⟨f.2.1,by rwa [ho, hself]⟩,he⟩
  · rw [hserver]
    exact h.marked.mono fun u dg ⟨k,ha⟩ => ⟨k,hasked _ k dg ha⟩
  · have hold : r ∈ (s.clients b).replies ∨ ∃ d, Answered s owner b r d := by
      by_cases hb : b = c
      · subst hb
        exact hr r (hself ▸ hrb)
      · exact .inl (hother b hb ▸ hrb)
    obtain ⟨d,hd⟩ := hold.elim (h.replied b r) id
    exact ⟨d,by rw [hserver]; exact hd.1,hd.2⟩

end Step

theorem Sound.moveServer {s : Network C T} (h : Sound owner s) (a : Udp.Act T) (v : Udp.State T)
    (hst : Udp.step ip s.server a = some v)
    (hP : ∀ c u dg now bind, a = .forward c u dg now bind → ∃ k, Asked s (owner u) k dg) :
    Sound owner { s with server := v } where
  linked := h.linked
  numbered := h.numbered
  traced := h.traced
  carried := h.carried
  marked := step_marked _ ip s.server a v h.marked hP hst
  replied c r hr := by
    obtain ⟨d,hd⟩ := h.replied c r hr
    exact ⟨d,(step_delivered ip _ a v hst).subset hd.1,hd.2⟩

/-- The datagrams of the reply tasks come out of the tunnels as they went in. -/
theorem Marked.decodes {P : T → Datagram → Prop} {s : Udp.State T} (h : Marked P s)
    (d : ℕ × T × Datagram) (hd : d ∈ s.delivered) :
    Datagram.decode d.2.2.encode = .ok (d.2.2,d.2.2.encode.length) := by
  obtain ⟨-,source,payload,he⟩ := h.delivered d hd
  rw [he]
  exact Datagram.decode_encode _ trivial

theorem routeReply_answers (s : Network C T) (d : ℕ × T × Datagram)
    (hd : d ∈ s.server.delivered) (hn : UdpRelay.Numbered (s.clients (owner d.2.1)))
    (r : ℕ × SocketAddr × Bytes) (hr : r ∈ ((s.clients (owner d.2.1)).routeReply d.2.2).replies) :
    r ∈ (s.clients (owner d.2.1)).replies ∨ ∃ d', Answered s owner (owner d.2.1) r d' := by
  unfold UdpRelay.State.routeReply at hr
  split at hr
  · rename_i socket addr hl
    rcases List.mem_append.mp hr with hr | hr
    · exact .inl hr
    · obtain rfl := List.mem_singleton.mp hr
      exact .inr ⟨d,hd,rfl,hn.session _ _ hl,rfl⟩
  · exact .inl hr

theorem step_sound [DecidableEq C] (s : Network C T) (a : Act C T) (t : Network C T)
    (h : Sound owner s) (hst : s.step ip owner a = some t) : Sound owner t := by
  cases a with
  | client c a =>
    simp only [Network.step] at hst
    split_ifs at hst with hloc
    obtain ⟨v,hv,rfl⟩ := Option.map_eq_some_iff.mp hst
    obtain ⟨hf,hr⟩ := step_records _ a v hv
    have hrep : ∀ dg, a ≠ .routeReply dg := by
      rintro dg rfl
      cases hloc
    refine h.moveClient c v rfl rfl (UdpRelay.step_numbered _ a v (h.numbered c) hv)
      (step_traced _ a v (h.numbered c) (h.traced c) ?_ hv) hf
      (fun r hm => .inl (hr hrep ▸ hm)) h.linked fun p hp => ?_
    · rintro k source bytes rfl
      simpa [isLocal] using hloc
    · rcases List.mem_append.mp hp with hp | hp
      · exact .inl hp
      · obtain ⟨bytes,hb,rfl⟩ := List.mem_map.mp hp
        obtain ⟨f,hf,rfl⟩ := List.mem_map.mp hb
        exact .inr ⟨h.linked c,f,List.mem_of_mem_drop hf,rfl⟩
  | reconnect c u tunnel =>
    simp only [Network.step] at hst
    split_ifs at hst with ho
    obtain ⟨v,hv,rfl⟩ := Option.map_eq_some_iff.mp hst
    obtain ⟨hf,hr⟩ := step_records _ _ v hv
    refine h.moveClient c v rfl rfl (UdpRelay.step_numbered _ _ v (h.numbered c) hv)
      (step_traced _ _ v (h.numbered c) (h.traced c) (fun _ _ _ he => by cases he) hv) hf
      (fun r hm => .inl (hr (fun _ he => by cases he) ▸ hm)) (fun b => ?_) fun _ => .inl
    by_cases hb : b = c
    · simpa [Network.setClient, hb] using ho
    · simpa [Network.setClient, hb] using h.linked b
  | arrive i call now bind =>
    obtain ⟨p,hp,hst⟩ := Option.bind_eq_some_iff.mp hst
    obtain ⟨k,dg,⟨source,hf⟩,he⟩ := h.carried p (List.mem_of_getElem? hp)
    rw [he, (((h.traced _).forwarded _ hf).2.2 : Datagram.decode dg.encode = _)] at hst
    obtain ⟨v,hv,rfl⟩ := Option.map_eq_some_iff.mp hst
    refine h.moveServer _ v hv fun _ _ _ _ _ ha => ?_
    cases ha
    exact ⟨k,source,hf⟩
  | server a =>
    simp only [Network.step] at hst
    split_ifs at hst with hown
    obtain ⟨v,hv,rfl⟩ := Option.map_eq_some_iff.mp hst
    refine h.moveServer a v hv ?_
    rintro c u dg now bind rfl
    cases hown
  | reply i =>
    obtain ⟨d,hd,hst⟩ := Option.bind_eq_some_iff.mp hst
    have hm := List.mem_of_getElem? hd
    rw [h.marked.decodes d hm] at hst
    obtain ⟨v,hv,rfl⟩ := Option.map_eq_some_iff.mp hst
    obtain ⟨hf,-⟩ := step_records _ _ v hv
    have hn := UdpRelay.step_numbered _ _ v (h.numbered (owner d.2.1)) hv
    have ht := step_traced _ _ v (h.numbered (owner d.2.1)) (h.traced _) (fun _ _ _ he => by cases he) hv
    cases hv
    exact h.moveClient (owner d.2.1) _ rfl rfl hn ht hf
      (fun r hr => routeReply_answers s d hm (h.numbered _) r hr) h.linked fun _ => .inl

def Apart (ip : T → IpAddr) (s : Network C T) : Act C T → Prop
  | .arrive i call now bind => ∀ p dg n, s.up[i]? = some p → Datagram.decode p.2 = .ok (dg,n) →
    Udp.FindsOwn ip s.server (.forward call p.1 dg now bind)
  | _ => True

structure Split (s : Network C T) : Prop where
  owned : Udp.Owned s.server
  calls : Udp.CallsOwn s.server

theorem step_split [DecidableEq C] (s : Network C T) (a : Act C T) (t : Network C T)
    (h : Split s) (hap : Apart ip s a) (hst : s.step ip owner a = some t) : Split t := by
  have hmove : ∀ (b : Udp.Act T) (v : Udp.State T), Udp.FindsOwn ip s.server b →
      Udp.step ip s.server b = some v → Split { s with server := v } := fun b v hb hv =>
    ⟨Udp.step_owned ip _ b v h.owned (Udp.callsOwn_sends ip _ b h.calls hb) hv,
      Udp.step_callsOwn ip _ b v h.calls hb hv⟩
  cases a with
  | client c a =>
    simp only [Network.step] at hst
    split_ifs at hst
    obtain ⟨v,-,rfl⟩ := Option.map_eq_some_iff.mp hst
    exact ⟨h.owned,h.calls⟩
  | reconnect c u tunnel =>
    simp only [Network.step] at hst
    split_ifs at hst
    obtain ⟨v,-,rfl⟩ := Option.map_eq_some_iff.mp hst
    exact ⟨h.owned,h.calls⟩
  | arrive i call now bind =>
    obtain ⟨p,hp,hst⟩ := Option.bind_eq_some_iff.mp hst
    split at hst
    · cases hst
    · rename_i dg n hdec
      obtain ⟨v,hv,rfl⟩ := Option.map_eq_some_iff.mp hst
      exact hmove _ v (hap p dg n hp hdec) hv
  | server a =>
    simp only [Network.step] at hst
    split_ifs at hst with hown
    obtain ⟨v,hv,rfl⟩ := Option.map_eq_some_iff.mp hst
    refine hmove a v ?_ hv
    cases a with
    | forward => cases hown
    | _ => trivial
  | reply i =>
    obtain ⟨d,-,hst⟩ := Option.bind_eq_some_iff.mp hst
    split at hst
    · cases hst
    · obtain ⟨v,-,rfl⟩ := Option.map_eq_some_iff.mp hst
      exact ⟨h.owned,h.calls⟩

theorem parse_reply (source : SocketAddr) (payload : Bytes) :
    Socks5.parseUdpPacket ([0,0,0]++(Address.ip source.1 source.2).encode++payload) =
      .ok (.ip source.1 source.2,payload) := by
  have hlen : 7 ≤ (Address.ip source.1 source.2).encode.length := by
    obtain ⟨ip | ip,port⟩ := source
    · exact (Address.encode_v4_length ip port).ge
    · exact (by decide : 7 ≤ 19).trans (Address.encode_v6_length ip port).ge
  have hdrop : ([0,0,0]++(Address.ip source.1 source.2).encode++payload).drop 3 =
      (Address.ip source.1 source.2).encode++payload := rfl
  have hpay : ([0,0,0]++(Address.ip source.1 source.2).encode++payload).drop
      (3+(Address.ip source.1 source.2).encode.length) = payload := by
    rw [← List.drop_drop, hdrop, List.drop_left]
  rw [Socks5.parseUdpPacket, if_neg (by simp; omega), hdrop,
    Address.decode_encode (.ip source.1 source.2) payload trivial]
  simp only [bind, Except.bind, pure, Except.pure, hpay]
  rfl

/-- What an association's application gets is what a peer sent to one socket of the exit
node, and everything that ever left that socket was asked for by that same association. -/
theorem replies_reach_asker [DecidableEq C] (handles : C → UdpRelay.TunnelHandle) (link : C → T)
    (maxSessions maxPerIp : ℕ) (hl : ∀ c, owner (link c) = c) (acts : List (Act C T))
    (s : Network C T)
    (hr : run (Network.step ip owner) acts (.init handles link maxSessions maxPerIp) = some s)
    (hap : Meets (Network.step ip owner) (Apart ip) acts
      (.init handles link maxSessions maxPerIp))
    (c : C) (hid : (s.clients c).nextCall ≤ 2^32) (r : ℕ × SocketAddr × Bytes)
    (hmem : r ∈ (s.clients c).replies) :
    ∃ (n : ℕ) (u : T) (source : SocketAddr) (payload : Bytes),
      (n,u,Datagram.new (UdpRelay.idOf r.1) (.ip source.1 source.2) payload) ∈
        s.server.delivered ∧ owner u = c ∧
      Socks5.parseUdpPacket r.2.2 = .ok (.ip source.1 source.2,payload) ∧
      ∀ e ∈ s.server.sent, e.1 = n → e.2.1 = u ∧ Asked s c r.1 e.2.2 := by
  have h : Sound owner s :=
    run_preserves step_sound acts _ s hr (init_sound handles link maxSessions maxPerIp hl)
  have hs : Split s := run_preserves_where step_split acts _ s hap hr
    ⟨Udp.init_owned maxSessions maxPerIp,⟨fun _ _ => rfl,fun _ _ hc => by cases hc⟩⟩
  obtain ⟨⟨n,u,dg⟩,hd,ho,hsid,hbytes⟩ := h.replied c r hmem
  obtain ⟨hmark,source,payload,hdg⟩ := h.marked.delivered _ hd
  simp only at ho hsid hbytes hmark hdg
  rw [hsid] at hmark hdg
  subst hdg
  refine ⟨n,u,source,payload,hd,ho,?_,?_⟩
  · rw [hbytes]
    exact parse_reply source payload
  · rintro ⟨m,v,dg⟩ he rfl
    have hv : v = u := by
      have hsent := hs.owned.sent _ he
      rw [hs.owned.delivered _ hd] at hsent
      exact (Option.some.inj hsent).symm
    subst hv
    obtain ⟨hm,k,source',hf⟩ := h.marked.sent _ he
    simp only at hm hf
    rw [ho] at hf
    -- the ids of the two associations agree, and the counter has not come round
    have hk : k = r.1 := by
      have hkid := ((h.traced c).forwarded _ hf).2.1
      have hlt := ((h.traced c).forwarded _ hf).1
      have hrlt := (h.traced c).replies r hmem
      rw [hmark, Option.some.injEq] at hm
      have := (UdpRelay.idOf_eq_iff r.1 k).mp (hm.trans hkid)
      simp only at hlt
      omega
    exact ⟨rfl,source',hk ▸ hf⟩

theorem apart_single [DecidableEq C] [Subsingleton T] (handles : C → UdpRelay.TunnelHandle)
    (link : C → T) (maxSessions maxPerIp : ℕ) (hl : ∀ c, owner (link c) = c)
    (acts : List (Act C T)) : Meets (Network.step ip owner) (Apart ip) acts
      (.init handles link maxSessions maxPerIp) := by
  refine meets_always step_sound (fun s a h => ?_) acts _
    (init_sound handles link maxSessions maxPerIp hl)
  cases a with
  | arrive i call now bind =>
    intro p dg n _ _ ses hs
    obtain ⟨task,ht,-⟩ := Option.map_eq_some_iff.mp (h.marked.session _ ses hs)
    simp only [Udp.State.handle, ht, Option.map_some]
    exact congrArg some (Subsingleton.elim _ _)
  | _ => trivial

def lookupRun : List (Act Unit Unit) :=
  [.client () (.associate true),.client () (.insert 0),.client () (.reply 0 true),
    .client () (.spawn 0),.client () (.packet 0 (Udp.natAddr,5000) [0,0,0,1,127,0,0,1,0,53,42]),
    .arrive 0 0 0 true,.server (.resolve 0 (.ok [])),.server (.sendTo 0 true),
    .server (.receive 0 (Udp.natAddr,53) [43] true),.reply 0]

theorem lookupRun_replies : (run (Network.step (fun _ => Udp.natAddr) fun _ => ()) lookupRun
    (.init (fun _ => .ws true true) (fun _ => ()) 4 4)).map (fun s =>
      ((s.clients ()).replies.length,(s.clients ()).nextCall)) = some (1,1) := by decide +kernel

theorem lookup_answered : ∃ (s : Network Unit Unit) (r : ℕ × SocketAddr × Bytes),
    run (Network.step (fun _ => Udp.natAddr) fun _ => ()) lookupRun
      (.init (fun _ => .ws true true) (fun _ => ()) 4 4) = some s ∧
    r ∈ (s.clients ()).replies ∧ ∃ (n : ℕ) (u : Unit) (source : SocketAddr) (payload : Bytes),
      (n,u,Datagram.new (UdpRelay.idOf r.1) (.ip source.1 source.2) payload) ∈
        s.server.delivered := by
  obtain ⟨s,hr,hs⟩ := Option.map_eq_some_iff.mp lookupRun_replies
  obtain ⟨hlen,hcalls⟩ := Prod.mk.inj hs
  obtain ⟨r,hmem⟩ := List.exists_mem_of_length_pos (hlen ▸ Nat.one_pos)
  obtain ⟨n,u,source,payload,hd,-⟩ := replies_reach_asker
    (fun _ => .ws true true) (fun _ => ()) 4 4 (fun _ => rfl) lookupRun s hr
    (apart_single _ _ 4 4 (fun _ => rfl) lookupRun) () (hcalls ▸ by decide) r hmem
  exact ⟨s,r,hr,hmem,n,u,source,payload,hd⟩

end Network
end Hydr.UdpRoundTrip
