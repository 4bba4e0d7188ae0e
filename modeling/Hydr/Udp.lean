import Mathlib
import Hydr.Library.Transition
import Hydr.Message

/-!
# UDP sessions of an exit node

Sessions are keyed by client address and client-chosen id. A session owns a
socket and a reply task, and the task holds the tunnel of the call that created
the session. A forward call runs in pieces: the section under the session lock,
the name lookup, the send, and the removal of the session after a failed send.
Other calls, sweeps and incoming packets fall between the pieces.
-/

set_option autoImplicit false

namespace Hydr.Udp
open Message Address

def sessionTimeout : ℕ := 120*10^9

def defaultMaxUdpSessions : ℕ := 4096
def defaultMaxUdpSessionsPerIp : ℕ := 64

structure UdpSession where
  socket : ℕ
  lastActive : ℕ
  owner : IpAddr

abbrev SessionKey : Type := IpAddr × UInt32

structure UdpManager where
  sessions : AList (fun _ : SessionKey => UdpSession)
  perIp : AList (fun _ : IpAddr => ℕ)
  maxSessions : ℕ
  maxPerIp : ℕ
  sessionsCurrent : ℕ

abbrev SocketAddr : Type := IpAddr × UInt16

def rateLimited (msg : String) : Error := .message (ascii "[code 2] " ++ ascii msg)

/-- The system's answer is used for a domain only. -/
def resolveTarget (addr : Address) (lookupHost : Result (List SocketAddr)) : Result SocketAddr :=
  match addr with
  | .ip host port => .ok (host,port)
  | .domain _ _ => do
    let found ← lookupHost
    match found with
    | [] => .error (.invalidData "no address for domain")
    | target::_ => .ok target

def decrementPerIp (perIp : AList (fun _ : IpAddr => ℕ)) (ip : IpAddr) :
    AList (fun _ : IpAddr => ℕ) :=
  match perIp.lookup ip with
  | none => perIp
  | some n => if n-1 = 0 then perIp.erase ip else perIp.insert ip (n-1)

namespace UdpManager

def withLimits (maxSessions maxPerIp : ℕ) : UdpManager where
  sessions := ∅
  perIp := ∅
  maxSessions := if maxSessions = 0 then defaultMaxUdpSessions else maxSessions
  maxPerIp := if maxPerIp = 0 then defaultMaxUdpSessionsPerIp else maxPerIp
  sessionsCurrent := 0

def removeSession (m : UdpManager) (key : SessionKey) : List ℕ × UdpManager :=
  match m.sessions.lookup key with
  | none => ([],m)
  | some s => ([s.socket],{ m with
      sessions := m.sessions.erase key
      perIp := decrementPerIp m.perIp s.owner
      sessionsCurrent := (m.sessionsCurrent+2^64-1)%2^64 })

def stale (m : UdpManager) (now : ℕ) : List SessionKey :=
  (m.sessions.entries.filter fun e => sessionTimeout < now-e.2.lastActive).map Sigma.fst

def removeAll : List SessionKey → UdpManager → List ℕ × UdpManager
  | [], m => ([],m)
  | key::keys, m =>
    let (stopped,m) := m.removeSession key
    let (more,m) := removeAll keys m
    (stopped++more,m)

def sweep (m : UdpManager) (now : ℕ) : List ℕ × UdpManager := removeAll (m.stale now) m

/-- The locked section of `forward`: the socket to use, and whether it is the
one just bound. `bound` is none when the system refuses to bind. -/
def acquire (m : UdpManager) (ip : IpAddr) (sid : UInt32) (now : ℕ) (bound : Option ℕ) :
    Result (ℕ × Bool) × UdpManager :=
  match m.sessions.lookup (ip,sid) with
  | some s => (.ok (s.socket,false),{ m with
      sessions := m.sessions.insert (ip,sid) { s with lastActive := now } })
  | none =>
    if m.maxSessions ≤ m.sessions.entries.length then
      (.error (rateLimited "udp session table full"),m)
    else if m.maxPerIp ≤ (m.perIp.lookup ip).getD 0 then
      (.error (rateLimited "too many udp sessions for this ip"),m)
    else
      match bound with
      | none => (.error .io,m)
      | some socket => (.ok (socket,true),{ m with
          sessions := m.sessions.insert (ip,sid) ⟨socket,now,ip⟩
          perIp := m.perIp.insert ip ((m.perIp.lookup ip).getD 0+1)
          sessionsCurrent := (m.sessionsCurrent+1)%2^64 })

theorem removeSession_lookup (m : UdpManager) (key k : SessionKey) (ses : UdpSession)
    (h : (m.removeSession key).2.sessions.lookup k = some ses) :
    m.sessions.lookup k = some ses := by
  unfold removeSession at h
  cases hk : m.sessions.lookup key with
  | none => rwa [hk] at h
  | some s =>
    rw [hk] at h
    rcases eq_or_ne k key with rfl | hne
    · simp only [AList.lookup_erase] at h
      cases h
    · simpa only [AList.lookup_erase_ne hne] using h

theorem acquire_cases (m : UdpManager) (ip : IpAddr) (sid : UInt32) (now : ℕ) (bound : Option ℕ) :
    (∃ s, m.sessions.lookup (ip,sid) = some s ∧ m.acquire ip sid now bound =
      (.ok (s.socket,false),{ m with
        sessions := m.sessions.insert (ip,sid) { s with lastActive := now } })) ∨
    (∃ socket, m.sessions.lookup (ip,sid) = none ∧ bound = some socket ∧
      m.acquire ip sid now bound = (.ok (socket,true),{ m with
        sessions := m.sessions.insert (ip,sid) ⟨socket,now,ip⟩
        perIp := m.perIp.insert ip ((m.perIp.lookup ip).getD 0+1)
        sessionsCurrent := (m.sessionsCurrent+1)%2^64 })) ∨
    ∃ e, m.sessions.lookup (ip,sid) = none ∧ m.acquire ip sid now bound = (.error e,m) := by
  unfold acquire
  cases hs : m.sessions.lookup (ip,sid) with
  | some s => exact Or.inl ⟨s,rfl,rfl⟩
  | none =>
    right
    by_cases hm : m.maxSessions ≤ m.sessions.entries.length
    · exact Or.inr ⟨_,rfl,if_pos hm⟩
    · rw [if_neg hm]
      by_cases hp : m.maxPerIp ≤ (m.perIp.lookup ip).getD 0
      · exact Or.inr ⟨_,rfl,if_pos hp⟩
      · rw [if_neg hp]
        cases bound with
        | none => exact Or.inr ⟨_,rfl,rfl⟩
        | some socket => exact Or.inl ⟨socket,rfl,rfl,rfl⟩

end UdpManager

structure ReplyTask (T : Type) where
  upstream : T
  sid : UInt32
  done : Bool
  running : Bool

inductive Phase where
  | resolving
  | sending (target : SocketAddr)
  | removing

structure Call (T : Type) where
  tunnel : T
  key : SessionKey
  dg : Datagram
  socket : ℕ
  phase : Phase

/-- The manager with its tasks and calls, and what has happened so far: which
call got which socket, what went out and what was handed to which tunnel. -/
structure State (T : Type) where
  manager : UdpManager
  tasks : ℕ → Option (ReplyTask T)
  calls : ℕ → Option (Call T)
  nextSocket : ℕ
  assigned : List (ℕ × T)
  sent : List (ℕ × T × Datagram)
  delivered : List (ℕ × T × Datagram)
  results : List (ℕ × Result Unit)

inductive Act (T : Type) where
  | forward (c : ℕ) (upstream : T) (dg : Datagram) (now : ℕ) (bind : Bool)
  | resolve (c : ℕ) (lookupHost : Result (List SocketAddr))
  | sendTo (c : ℕ) (ok : Bool)
  | remove (c : ℕ)
  | sweep (now : ℕ)
  | receive (socket : ℕ) (source : SocketAddr) (payload : Bytes) (ok : Bool)
  | stop (socket : ℕ)
  | socketError (socket : ℕ)

namespace State

variable {T : Type}

def init (maxSessions maxPerIp : ℕ) : State T where
  manager := .withLimits maxSessions maxPerIp
  tasks _ := none
  calls _ := none
  nextSocket := 0
  assigned := []
  sent := []
  delivered := []
  results := []

def alter (s : State T) (socket : ℕ) (f : ReplyTask T → ReplyTask T) : State T :=
  { s with tasks := Function.update s.tasks socket ((s.tasks socket).map f) }

def notify : List ℕ → State T → State T
  | [], s => s
  | socket::sockets, s => notify sockets (s.alter socket fun task => { task with done := true })

def finish (s : State T) (c : ℕ) (r : Result Unit) : State T :=
  { s with calls := Function.update s.calls c none, results := s.results++[(c,r)] }

def enter (s : State T) (c : ℕ) (call : Call T) : State T :=
  { s with calls := Function.update s.calls c (some call) }

def handle (s : State T) (socket : ℕ) : Option T := (s.tasks socket).map ReplyTask.upstream

def forward (ip : T → IpAddr) (s : State T) (c : ℕ) (upstream : T) (dg : Datagram) (now : ℕ)
    (bind : Bool) : State T :=
  let bound := if bind then some s.nextSocket else none
  match s.manager.acquire (ip upstream) dg.sessionId now bound with
  | (.error e,m) => { s with manager := m }.finish c (.error e)
  | (.ok (socket,created),m) =>
    let call : Call T := ⟨upstream,(ip upstream,dg.sessionId),dg,socket,.resolving⟩
    let s := { s with manager := m, assigned := s.assigned++[(socket,upstream)] }.enter c call
    if created then
      { s with
        tasks := Function.update s.tasks socket (some ⟨upstream,dg.sessionId,false,true⟩)
        nextSocket := s.nextSocket+1 }
    else s

def resolve (s : State T) (c : ℕ) (call : Call T) (lookupHost : Result (List SocketAddr)) :
    State T :=
  match resolveTarget call.dg.address lookupHost with
  | .error e => s.finish c (.error e)
  | .ok target => s.enter c { call with phase := .sending target }

def sendTo (s : State T) (c : ℕ) (call : Call T) (ok : Bool) : State T :=
  if ok then
    { s with sent := s.sent++[(call.socket,call.tunnel,call.dg)] }.finish c (.ok ())
  else s.enter c { call with phase := .removing }

def remove (s : State T) (c : ℕ) (call : Call T) : State T :=
  let (stopped,m) := s.manager.removeSession call.key
  (notify stopped { s with manager := m }).finish c (.error .io)

def sweep (s : State T) (now : ℕ) : State T :=
  let (stopped,m) := s.manager.sweep now
  notify stopped { s with manager := m }

def receive (s : State T) (socket : ℕ) (task : ReplyTask T) (source : SocketAddr)
    (payload : Bytes) (ok : Bool) : State T :=
  let out := Datagram.new task.sid (.ip source.1 source.2) payload
  { s with delivered := s.delivered++[(socket,task.upstream,out)] }.alter socket
    fun task => { task with running := ok }

def endTask (s : State T) (socket : ℕ) : State T :=
  s.alter socket fun task => { task with running := false }

end State

section Step
variable {T : Type}

def step (ip : T → IpAddr) (s : State T) : Act T → Option (State T)
  | .forward c upstream dg now bind =>
    if (s.calls c).isSome then none else some (s.forward ip c upstream dg now bind)
  | .resolve c lookupHost =>
    match s.calls c with
    | some call => match call.phase with
      | .resolving => some (s.resolve c call lookupHost)
      | _ => none
    | none => none
  | .sendTo c ok =>
    match s.calls c with
    | some call => match call.phase with
      | .sending _ => some (s.sendTo c call ok)
      | _ => none
    | none => none
  | .remove c =>
    match s.calls c with
    | some call => match call.phase with
      | .removing => some (s.remove c call)
      | _ => none
    | none => none
  | .sweep now => some (s.sweep now)
  | .receive socket source payload ok =>
    match s.tasks socket with
    | some task => if task.running then some (s.receive socket task source payload ok) else none
    | none => none
  | .stop socket =>
    match s.tasks socket with
    | some task => if task.running ∧ task.done then some (s.endTask socket) else none
    | none => none
  | .socketError socket =>
    match s.tasks socket with
    | some task => if task.running then some (s.endTask socket) else none
    | none => none

end Step
end Hydr.Udp
