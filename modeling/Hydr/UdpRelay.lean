import Mathlib
import Hydr.Library.Transition
import Hydr.Socks5
import Hydr.Udp

/-!
# The UDP relay of the client

Each UDP ASSOCIATE call binds a socket, enters a session, answers on its
control connection, starts the task that reads the socket, and then waits for
the control connection to end. Calls and tasks are named by the order of the
calls; a session carries the socket of the call that entered it. An index into
the table that finds nothing is a panic, which ends the task at hand.
-/

set_option autoImplicit false

namespace Hydr.UdpRelay
open Message Udp

/-- The tunnel behind the lock: a QUIC connection with its datagram limit, or a
run loop with or without room in its command channel. -/
inductive TunnelHandle where
  | quic (up : Bool) (limit : ℕ)
  | ws (up : Bool) (room : Bool)

/-- Whether the datagram was handed on; a full command channel loses it quietly. -/
def TunnelHandle.sendDatagram (t : TunnelHandle) (dg : Datagram) : Result Bool :=
  match t with
  | .quic up limit => if up ∧ dg.encode.length ≤ limit then .ok true else .error .io
  | .ws up room => if up then .ok room else .error .streamClosed

inductive Outcome where
  | skipped
  | sent (dg : Datagram) (handed : Bool)
  | failed (dg : Datagram)

def relayPacket (sid : UInt32) (t : TunnelHandle) (packet : Bytes) : Outcome :=
  match Socks5.parseUdpPacket packet with
  | .error _ => .skipped
  | .ok (target,payload) =>
    let dg := Datagram.new sid target payload
    match t.sendDatagram dg with
    | .ok handed => .sent dg handed
    | .error _ => .failed dg

def relayTask (sid : UInt32) : List (TunnelHandle × Bytes) → List Datagram
  | [] => []
  | (t,packet)::rest =>
    match relayPacket sid t packet with
    | .skipped => relayTask sid rest
    | .sent dg handed => (if handed then [dg] else [])++relayTask sid rest
    | .failed _ => []

structure RelaySession where
  socket : ℕ
  clientAddr : Option SocketAddr

inductive Stage where
  | inserting
  | replying
  | spawning
  | watching
  deriving DecidableEq

structure Call where
  sid : UInt32
  stage : Stage

inductive Phase where
  | running
  | removing
  | ended
  | panicked
  deriving DecidableEq

structure Task where
  sid : UInt32
  socket : ℕ
  phase : Phase

/-- `calls` are the calls in progress, and so the live control connections. The
last three fields are history: what each task read and the tunnel there was, what
was forwarded for which task, and what was sent back through which socket. -/
structure State where
  tunnel : TunnelHandle
  sessions : AList (fun _ : UInt32 => RelaySession)
  nextSession : UInt32
  nextCall : ℕ
  calls : AList (fun _ : ℕ => Call)
  tasks : ℕ → Option Task
  read : ℕ → List (TunnelHandle × Bytes)
  forwarded : List (ℕ × SocketAddr × Datagram)
  replies : List (ℕ × SocketAddr × Bytes)

inductive Act where
  | associate (bound : Bool)
  | insert (c : ℕ)
  | reply (c : ℕ) (ok : Bool)
  | spawn (c : ℕ)
  | controlEnd (c : ℕ)
  | packet (c : ℕ) (source : SocketAddr) (bytes : Bytes)
  | recvError (c : ℕ)
  | remove (c : ℕ)
  | routeReply (dg : Datagram)
  | reconnect (t : TunnelHandle)

namespace State

def init (t : TunnelHandle) : State where
  tunnel := t
  sessions := ∅
  nextSession := 1
  nextCall := 0
  calls := ∅
  tasks _ := none
  read _ := []
  forwarded := []
  replies := []

def setTask (s : State) (c : ℕ) (task : Task) : State :=
  { s with tasks := Function.update s.tasks c (some task) }

def setCall (s : State) (c : ℕ) (call : Call) : State :=
  { s with calls := s.calls.insert c call }

def finish (s : State) (c : ℕ) : State := { s with calls := s.calls.erase c }

def associate (s : State) : State :=
  { s.setCall s.nextCall ⟨s.nextSession,.inserting⟩ with
    nextSession := s.nextSession+1
    nextCall := s.nextCall+1 }

def enter (s : State) (c : ℕ) (call : Call) : State :=
  { s.setCall c { call with stage := .replying } with
    sessions := s.sessions.insert call.sid ⟨c,none⟩ }

def spawn (s : State) (c : ℕ) (call : Call) : State :=
  match s.sessions.lookup call.sid with
  | none => s.finish c
  | some ses =>
    (s.setCall c { call with stage := .watching }).setTask c ⟨call.sid,ses.socket,.running⟩

def mark (s : State) (sid : UInt32) (ses : RelaySession) (source : SocketAddr) : State :=
  { s with
    sessions := s.sessions.insert sid { ses with clientAddr := some (ses.clientAddr.getD source) } }

def receive (s : State) (c : ℕ) (task : Task) (source : SocketAddr) (bytes : Bytes) : State :=
  let s := { s with read := Function.update s.read c (s.read c++[(s.tunnel,bytes)]) }
  match relayPacket task.sid s.tunnel bytes, s.sessions.lookup task.sid with
  | .skipped, _ => s
  | _, none => s.setTask c { task with phase := .panicked }
  | .sent dg handed, some ses =>
    let s := s.mark task.sid ses source
    if handed then { s with forwarded := s.forwarded++[(c,source,dg)] } else s
  | .failed _, some ses => (s.mark task.sid ses source).setTask c { task with phase := .removing }

def remove (s : State) (c : ℕ) (task : Task) : State :=
  { s.setTask c { task with phase := .ended } with sessions := s.sessions.erase task.sid }

def routeReply (s : State) (dg : Datagram) : State :=
  match s.sessions.lookup dg.sessionId with
  | some ⟨socket,some addr⟩ =>
    { s with replies := s.replies++[(socket,addr,[0,0,0]++dg.address.encode++dg.payload)] }
  | _ => s

end State

def step (s : State) : Act → Option State
  | .associate bound => some (if bound then s.associate else s)
  | .insert c =>
    match s.calls.lookup c with
    | some call => if call.stage = .inserting then some (s.enter c call) else none
    | none => none
  | .reply c ok =>
    match s.calls.lookup c with
    | some call =>
      if call.stage = .replying then
        some (if ok then s.setCall c { call with stage := .spawning } else s.finish c)
      else none
    | none => none
  | .spawn c =>
    match s.calls.lookup c with
    | some call => if call.stage = .spawning then some (s.spawn c call) else none
    | none => none
  | .controlEnd c =>
    match s.calls.lookup c with
    | some call => if call.stage = .watching then some (s.finish c) else none
    | none => none
  | .packet c source bytes =>
    match s.tasks c with
    | some task => if task.phase = .running then some (s.receive c task source bytes) else none
    | none => none
  | .recvError c =>
    match s.tasks c with
    | some task =>
      if task.phase = .running then some (s.setTask c { task with phase := .removing }) else none
    | none => none
  | .remove c =>
    match s.tasks c with
    | some task => if task.phase = .removing then some (s.remove c task) else none
    | none => none
  | .routeReply dg => some (s.routeReply dg)
  | .reconnect t => some { s with tunnel := t }

inductive Moves (s : State) : Act → State → Prop where
  | refuse : Moves s (.associate false) s
  | associate : Moves s (.associate true) s.associate
  | insert (c : ℕ) (call : Call) (hc : s.calls.lookup c = some call)
      (hs : call.stage = .inserting) : Moves s (.insert c) (s.enter c call)
  | reply (c : ℕ) (call : Call) (hc : s.calls.lookup c = some call) (hs : call.stage = .replying) :
    Moves s (.reply c true) (s.setCall c { call with stage := .spawning })
  | replyFail (c : ℕ) (call : Call) (hc : s.calls.lookup c = some call)
      (hs : call.stage = .replying) : Moves s (.reply c false) (s.finish c)
  | spawn (c : ℕ) (call : Call) (hc : s.calls.lookup c = some call)
      (hs : call.stage = .spawning) : Moves s (.spawn c) (s.spawn c call)
  | controlEnd (c : ℕ) (call : Call) (hc : s.calls.lookup c = some call)
      (hs : call.stage = .watching) : Moves s (.controlEnd c) (s.finish c)
  | packet (c : ℕ) (source : SocketAddr) (bytes : Bytes) (task : Task)
      (ht : s.tasks c = some task) (hp : task.phase = .running) :
    Moves s (.packet c source bytes) (s.receive c task source bytes)
  | recvError (c : ℕ) (task : Task) (ht : s.tasks c = some task) (hp : task.phase = .running) :
    Moves s (.recvError c) (s.setTask c { task with phase := .removing })
  | remove (c : ℕ) (task : Task) (ht : s.tasks c = some task) (hp : task.phase = .removing) :
    Moves s (.remove c) (s.remove c task)
  | routeReply (dg : Datagram) : Moves s (.routeReply dg) (s.routeReply dg)
  | reconnect (t : TunnelHandle) : Moves s (.reconnect t) { s with tunnel := t }

theorem moves_of_step (s t : State) (a : Act) (h : step s a = some t) : Moves s a t := by
  cases a with
  | associate bound =>
    cases bound <;> cases h
    · exact .refuse
    · exact .associate
  | insert c =>
    simp only [step] at h
    split at h
    · rename_i call hc
      split_ifs at h with hs
      cases h
      exact .insert c call hc hs
    · cases h
  | reply c ok =>
    simp only [step] at h
    split at h
    · rename_i call hc
      split_ifs at h with hs hok <;> cases h
      · subst hok
        exact .reply c call hc hs
      · obtain rfl := Bool.eq_false_iff.mpr hok
        exact .replyFail c call hc hs
    · cases h
  | spawn c =>
    simp only [step] at h
    split at h
    · rename_i call hc
      split_ifs at h with hs
      cases h
      exact .spawn c call hc hs
    · cases h
  | controlEnd c =>
    simp only [step] at h
    split at h
    · rename_i call hc
      split_ifs at h with hs
      cases h
      exact .controlEnd c call hc hs
    · cases h
  | packet c source bytes =>
    simp only [step] at h
    split at h
    · rename_i task ht
      split_ifs at h with hp
      cases h
      exact .packet c source bytes task ht hp
    · cases h
  | recvError c =>
    simp only [step] at h
    split at h
    · rename_i task ht
      split_ifs at h with hp
      cases h
      exact .recvError c task ht hp
    · cases h
  | remove c =>
    simp only [step] at h
    split at h
    · rename_i task ht
      split_ifs at h with hp
      cases h
      exact .remove c task ht hp
    · cases h
  | routeReply dg =>
    cases h
    exact .routeReply dg
  | reconnect t =>
    cases h
    exact .reconnect t

end Hydr.UdpRelay
