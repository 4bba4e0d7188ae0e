import Mathlib
import Hydr.Udp

/-!
# Which tunnel gets a UDP reply

A reply goes to the tunnel whose call created the session, for the reply task
holds that tunnel. Tunnels behind one address that choose one session id share
the session, so isolation holds exactly as long as every datagram leaves
through a socket whose task belongs to the sending tunnel.
-/

set_option autoImplicit false

namespace Hydr.Udp
open Message Transition State

variable {T : Type}

section Frames
variable (s : State T)

@[simp] theorem handle_alter (socket n : ℕ) (f : ReplyTask T → ReplyTask T)
    (hf : ∀ task, (f task).upstream = task.upstream) :
    (s.alter socket f).handle n = s.handle n := by
  unfold handle alter
  rcases eq_or_ne n socket with rfl | hn
  · simp only [Function.update_self]
    cases s.tasks n <;> simp [hf]
  · simp only [Function.update_of_ne hn]

@[simp] theorem handle_finish (c n : ℕ) (r : Result Unit) :
    (s.finish c r).handle n = s.handle n := rfl

@[simp] theorem handle_enter (c n : ℕ) (call : Call T) :
    (s.enter c call).handle n = s.handle n := rfl

theorem notify_frame (sockets : List ℕ) :
    (∀ n, (notify sockets s).handle n = s.handle n) ∧
    (notify sockets s).manager = s.manager ∧ (notify sockets s).calls = s.calls ∧
    (notify sockets s).nextSocket = s.nextSocket ∧ (notify sockets s).assigned = s.assigned ∧
    (notify sockets s).sent = s.sent ∧ (notify sockets s).delivered = s.delivered := by
  induction sockets generalizing s with
  | nil => exact ⟨fun _ => rfl,rfl,rfl,rfl,rfl,rfl,rfl⟩
  | cons socket sockets ih =>
    obtain ⟨hh,hm,hc,hn,ha,hs,hd⟩ := ih (s.alter socket fun task => { task with done := true })
    exact ⟨fun n => (hh n).trans (handle_alter s socket n _ fun _ => rfl),hm,hc,hn,ha,hs,hd⟩

end Frames

structure Owned (s : State T) : Prop where
  unborn : ∀ n, s.nextSocket ≤ n → s.handle n = none
  opened : ∀ n t, s.handle n = some t → (n,t) ∈ s.assigned
  sent : ∀ e ∈ s.sent, s.handle e.1 = some e.2.1
  delivered : ∀ d ∈ s.delivered, s.handle d.1 = some d.2.1

structure Isolated (s : State T) : Prop where
  origin : ∀ d ∈ s.delivered, (d.1,d.2.1) ∈ s.assigned
  handed : ∀ d ∈ s.delivered, ∀ e ∈ s.sent, e.1 = d.1 → e.2.1 = d.2.1
  answered : ∀ e ∈ s.sent, s.handle e.1 = some e.2.1

theorem Owned.isolated {s : State T} (h : Owned s) : Isolated s where
  origin d hd := h.opened _ _ (h.delivered d hd)
  handed d hd e he hs := by
    have hd := h.delivered d hd
    rw [← hs, h.sent e he] at hd
    exact Option.some.inj hd
  answered := h.sent

theorem init_owned (maxSessions maxPerIp : ℕ) : Owned (init maxSessions maxPerIp : State T) :=
  ⟨fun _ _ => rfl,fun _ _ h => by simp [init, handle] at h,fun _ h => by simp [init] at h,
    fun _ h => by simp [init] at h⟩

theorem Owned.quiet {s t : State T} (h : Owned s) (hh : ∀ n, t.handle n = s.handle n)
    (hn : t.nextSocket = s.nextSocket) (ha : t.assigned = s.assigned)
    (hs : ∀ e ∈ t.sent, e ∈ s.sent ∨ s.handle e.1 = some e.2.1)
    (hd : ∀ d ∈ t.delivered, d ∈ s.delivered ∨ s.handle d.1 = some d.2.1) : Owned t where
  unborn n hle := (hh n).trans (h.unborn n (hn ▸ hle))
  opened n u hu := ha ▸ h.opened n u ((hh n).symm.trans hu)
  sent e he := (hh _).trans ((hs e he).elim (h.sent e) id)
  delivered d he := (hh _).trans ((hd d he).elim (h.delivered d) id)

def SendsOwn (s : State T) : Act T → Prop
  | .sendTo c true => ∀ call target, s.calls c = some call → call.phase = .sending target →
    s.handle call.socket = some call.tunnel
  | _ => True

def FindsOwn (ip : T → Address.IpAddr) (s : State T) : Act T → Prop
  | .forward _ upstream dg _ _ => ∀ ses,
    s.manager.sessions.lookup (ip upstream,dg.sessionId) = some ses →
      s.handle ses.socket = some upstream
  | _ => True

section Forward
variable (ip : T → Address.IpAddr) (s : State T) (c : ℕ) (upstream : T) (dg : Datagram)
  (now : ℕ) (bind : Bool)

theorem forward_cases :
    (∃ ses, s.manager.sessions.lookup (ip upstream,dg.sessionId) = some ses ∧
      s.forward ip c upstream dg now bind = { s with
        manager := { s.manager with
          sessions := s.manager.sessions.insert (ip upstream,dg.sessionId)
            { ses with lastActive := now } }
        assigned := s.assigned++[(ses.socket,upstream)] }.enter c
          ⟨upstream,(ip upstream,dg.sessionId),dg,ses.socket,.resolving⟩) ∨
    (∃ perIp current, s.forward ip c upstream dg now bind = { s with
        manager := { s.manager with
          sessions := s.manager.sessions.insert (ip upstream,dg.sessionId)
            ⟨s.nextSocket,now,ip upstream⟩
          perIp := perIp
          sessionsCurrent := current }
        assigned := s.assigned++[(s.nextSocket,upstream)]
        calls := Function.update s.calls c
          (some ⟨upstream,(ip upstream,dg.sessionId),dg,s.nextSocket,.resolving⟩)
        tasks := Function.update s.tasks s.nextSocket (some ⟨upstream,dg.sessionId,false,true⟩)
        nextSocket := s.nextSocket+1 }) ∨
    ∃ e, s.forward ip c upstream dg now bind = s.finish c (.error e) := by
  rcases UdpManager.acquire_cases s.manager (ip upstream) dg.sessionId now
    (if bind then some s.nextSocket else none) with ⟨ses,hl,ha⟩ | ⟨socket,-,hb,ha⟩ | ⟨e,-,ha⟩
  · exact Or.inl ⟨ses,hl,by rw [State.forward, ha]; rfl⟩
  · have hs : socket = s.nextSocket := by cases bind <;> simp_all
    subst hs
    exact Or.inr (Or.inl ⟨_,_,by rw [State.forward, ha]; rfl⟩)
  · exact Or.inr (Or.inr ⟨e,by rw [State.forward, ha]⟩)

/-- The handle of a fresh socket is the tunnel it was opened for. -/
theorem handle_open (task : ReplyTask T) (n : ℕ) (m : UdpManager) (as : List (ℕ × T))
    (cs : ℕ → Option (Call T)) :
    ({ s with
      manager := m
      assigned := as
      calls := cs
      tasks := Function.update s.tasks s.nextSocket (some task)
      nextSocket := s.nextSocket+1 } : State T).handle n =
      if n = s.nextSocket then some task.upstream else s.handle n := by
  unfold handle
  rcases eq_or_ne n s.nextSocket with rfl | hn
  · simp
  · simp [hn]

theorem forward_owned (h : Owned s) : Owned (s.forward ip c upstream dg now bind) := by
  rcases forward_cases ip s c upstream dg now bind with ⟨ses,-,he⟩ | ⟨p,g,he⟩ | ⟨e,he⟩ <;> rw [he]
  · exact ⟨h.unborn,fun n t ht => List.mem_append_left _ (h.opened n t ht),h.sent,h.delivered⟩
  · have hk : ∀ n t, s.handle n = some t → n ≠ s.nextSocket := by
      rintro _ t ht rfl
      simp [h.unborn _ le_rfl] at ht
    refine ⟨fun n hn => ?_,fun n t ht => ?_,fun e he => ?_,fun d hd => ?_⟩
    · rw [handle_open, if_neg (by simp only at hn; omega)]
      exact h.unborn n (by simp only at hn; omega)
    · rw [handle_open] at ht
      by_cases hn : n = s.nextSocket
      · rw [if_pos hn] at ht
        obtain rfl := Option.some.inj ht
        exact List.mem_append_right _ (by simp [hn])
      · rw [if_neg hn] at ht
        exact List.mem_append_left _ (h.opened n t ht)
    · rw [handle_open, if_neg (hk _ _ (h.sent e he))]
      exact h.sent e he
    · rw [handle_open, if_neg (hk _ _ (h.delivered d hd))]
      exact h.delivered d hd
  · exact h.quiet (fun _ => rfl) rfl rfl (fun _ => Or.inl) (fun _ => Or.inl)

end Forward

theorem receive_owned (s : State T) (h : Owned s) (socket : ℕ) (task : ReplyTask T)
    (source : SocketAddr) (payload : Bytes) (ok : Bool) (ht : s.tasks socket = some task) :
    Owned (s.receive socket task source payload ok) := by
  refine h.quiet (fun n => handle_alter _ socket n _ fun _ => rfl) rfl rfl (fun _ => Or.inl)
    (fun d hd => ?_)
  rcases List.mem_append.mp hd with hd | hd
  · exact Or.inl hd
  · obtain rfl := List.mem_singleton.mp hd
    exact Or.inr (by simp [handle, ht])

inductive Moves (ip : T → Address.IpAddr) (s : State T) : Act T → State T → Prop where
  | forward (c : ℕ) (u : T) (dg : Datagram) (now : ℕ) (bind : Bool) :
    Moves ip s (.forward c u dg now bind) (s.forward ip c u dg now bind)
  | resolve (c : ℕ) (l : Result (List SocketAddr)) (call : Call T) (hc : s.calls c = some call) :
    Moves ip s (.resolve c l) (s.resolve c call l)
  | sendTo (c : ℕ) (ok : Bool) (call : Call T) (target : SocketAddr) (hc : s.calls c = some call)
      (hp : call.phase = .sending target) : Moves ip s (.sendTo c ok) (s.sendTo c call ok)
  | remove (c : ℕ) (call : Call T) (hc : s.calls c = some call) :
    Moves ip s (.remove c) (s.remove c call)
  | sweep (now : ℕ) : Moves ip s (.sweep now) (s.sweep now)
  | receive (n : ℕ) (source : SocketAddr) (payload : Bytes) (ok : Bool) (task : ReplyTask T)
      (ht : s.tasks n = some task) :
    Moves ip s (.receive n source payload ok) (s.receive n task source payload ok)
  | stop (n : ℕ) : Moves ip s (.stop n) (s.endTask n)
  | socketError (n : ℕ) : Moves ip s (.socketError n) (s.endTask n)

theorem moves_of_step (ip : T → Address.IpAddr) (s t : State T) (a : Act T)
    (h : step ip s a = some t) : Moves ip s a t := by
  cases a with
  | forward c u dg now bind =>
    simp only [step] at h
    split_ifs at h
    cases h
    exact .forward c u dg now bind
  | resolve c l =>
    simp only [step] at h
    split at h
    · rename_i call hc
      split at h
      · cases h
        exact .resolve c l call hc
      · cases h
    · cases h
  | sendTo c ok =>
    simp only [step] at h
    split at h
    · rename_i call hc
      split at h
      · rename_i target hp
        cases h
        exact .sendTo c ok call target hc hp
      · cases h
    · cases h
  | remove c =>
    simp only [step] at h
    split at h
    · rename_i call hc
      split at h
      · cases h
        exact .remove c call hc
      · cases h
    · cases h
  | sweep now =>
    cases h
    exact .sweep now
  | receive n f p ok =>
    simp only [step] at h
    split at h
    · rename_i task ht
      split_ifs at h
      cases h
      exact .receive n f p ok task ht
    · cases h
  | stop n =>
    simp only [step] at h
    split at h
    · split_ifs at h
      cases h
      exact .stop n
    · cases h
  | socketError n =>
    simp only [step] at h
    split at h
    · split_ifs at h
      cases h
      exact .socketError n
    · cases h

theorem resolve_quiet (s : State T) (c : ℕ) (call : Call T) (l : Result (List SocketAddr)) :
    ∃ r, s.resolve c call l = s.finish c r ∨
      ∃ phase, s.resolve c call l = s.enter c { call with phase := phase } := by
  unfold State.resolve
  cases resolveTarget call.dg.address l with
  | error e => exact ⟨.error e,Or.inl rfl⟩
  | ok target => exact ⟨.ok (),Or.inr ⟨_,rfl⟩⟩

theorem resolve_owned (s : State T) (h : Owned s) (c : ℕ) (call : Call T)
    (l : Result (List SocketAddr)) : Owned (s.resolve c call l) := by
  obtain ⟨r,he | ⟨phase,he⟩⟩ := resolve_quiet s c call l <;> rw [he] <;>
    exact h.quiet (fun _ => rfl) rfl rfl (fun _ => Or.inl) (fun _ => Or.inl)

theorem sendTo_owned (s : State T) (h : Owned s) (c : ℕ) (call : Call T) (ok : Bool)
    (ho : ok = true → s.handle call.socket = some call.tunnel) :
    Owned (s.sendTo c call ok) := by
  unfold sendTo
  cases ok with
  | false => exact h.quiet (fun _ => rfl) rfl rfl (fun _ => Or.inl) (fun _ => Or.inl)
  | true =>
    refine h.quiet (fun _ => rfl) rfl rfl (fun e he => ?_) (fun _ => Or.inl)
    rcases List.mem_append.mp he with he | he
    · exact Or.inl he
    · obtain rfl := List.mem_singleton.mp he
      exact Or.inr (ho rfl)

theorem notify_owned (s : State T) (h : Owned s) (m : UdpManager) (sockets : List ℕ) :
    Owned (notify sockets { s with manager := m }) := by
  obtain ⟨hh,-,-,hn,ha,hs,hd⟩ := notify_frame { s with manager := m } sockets
  exact h.quiet hh hn ha (fun e he => Or.inl (hs ▸ he)) (fun d he => Or.inl (hd ▸ he))

theorem step_owned (ip : T → Address.IpAddr) (s : State T) (a : Act T) (t : State T)
    (h : Owned s) (hc : SendsOwn s a) (hst : step ip s a = some t) : Owned t := by
  cases moves_of_step ip s t a hst with
  | forward c u dg now bind => exact forward_owned ip s c u dg now bind h
  | resolve c l call => exact resolve_owned s h c call l
  | sendTo c ok call target hcall hp =>
    apply sendTo_owned s h c call ok
    rintro rfl
    exact hc call target hcall hp
  | remove c call =>
    exact (notify_owned s h _ _).quiet (fun _ => rfl) rfl rfl (fun _ => Or.inl) (fun _ => Or.inl)
  | sweep now => exact notify_owned s h _ _
  | receive n f p ok task ht => exact receive_owned s h n task f p ok ht
  | stop n | socketError n =>
    exact h.quiet (fun n' => handle_alter s n n' _ fun _ => rfl) rfl rfl (fun _ => Or.inl)
      (fun _ => Or.inl)

structure CallsOwn (s : State T) : Prop where
  unborn : ∀ n, s.nextSocket ≤ n → s.handle n = none
  call : ∀ c call, s.calls c = some call → s.handle call.socket = some call.tunnel

theorem CallsOwn.quiet {s t : State T} (h : CallsOwn s) (hh : ∀ n, t.handle n = s.handle n)
    (hn : t.nextSocket = s.nextSocket)
    (hc : ∀ c call, t.calls c = some call → s.handle call.socket = some call.tunnel) :
    CallsOwn t where
  unborn n hle := (hh n).trans (h.unborn n (hn ▸ hle))
  call c call hcall := (hh _).trans (hc c call hcall)

theorem finish_callsOwn (s : State T) (h : CallsOwn s) (c : ℕ) (r : Result Unit) :
    CallsOwn (s.finish c r) := by
  refine h.quiet (fun _ => rfl) rfl (fun c' call hc => ?_)
  rcases eq_or_ne c' c with rfl | hne
  · simp [State.finish] at hc
  · exact h.call c' call (by simpa [State.finish, hne] using hc)

theorem enter_callsOwn (s : State T) (h : CallsOwn s) (c : ℕ) (call : Call T)
    (ho : s.handle call.socket = some call.tunnel) : CallsOwn (s.enter c call) := by
  refine h.quiet (fun _ => rfl) rfl (fun c' call' hc => ?_)
  rcases eq_or_ne c' c with rfl | hne
  · obtain rfl : call = call' := by simpa [State.enter] using hc
    exact ho
  · exact h.call c' call' (by simpa [State.enter, hne] using hc)

theorem forward_callsOwn (ip : T → Address.IpAddr) (s : State T) (c : ℕ) (u : T) (dg : Datagram)
    (now : ℕ) (bind : Bool) (h : CallsOwn s) (hc : FindsOwn ip s (.forward c u dg now bind)) :
    CallsOwn (s.forward ip c u dg now bind) := by
  rcases forward_cases ip s c u dg now bind with ⟨ses,hl,he⟩ | ⟨p,g,he⟩ | ⟨e,he⟩ <;> rw [he]
  · apply enter_callsOwn
    · exact ⟨h.unborn,h.call⟩
    · exact hc ses hl
  · refine ⟨fun n hn => ?_,fun c' call hcall => ?_⟩
    · rw [handle_open, if_neg (by simp only at hn; omega)]
      exact h.unborn n (by simp only at hn; omega)
    · rw [handle_open]
      rcases eq_or_ne c' c with rfl | hne
      · simp only [Function.update_self, Option.some.injEq] at hcall
        subst hcall
        rw [if_pos rfl]
      · simp only [Function.update_of_ne hne] at hcall
        have ho := h.call c' call hcall
        rw [if_neg, ho]
        intro hs
        rw [hs, h.unborn _ le_rfl] at ho
        cases ho
  · exact finish_callsOwn s h c _

theorem step_callsOwn (ip : T → Address.IpAddr) (s : State T) (a : Act T) (t : State T)
    (h : CallsOwn s) (hc : FindsOwn ip s a) (hst : step ip s a = some t) : CallsOwn t := by
  have hnotify : ∀ (m : UdpManager) (sockets : List ℕ),
      CallsOwn (notify sockets { s with manager := m }) := by
    intro m sockets
    obtain ⟨hh,-,hcalls,hn,-⟩ := notify_frame { s with manager := m } sockets
    exact h.quiet hh hn (fun c call hcall => h.call c call (hcalls ▸ hcall))
  cases moves_of_step ip s t a hst with
  | forward c u dg now bind => exact forward_callsOwn ip s c u dg now bind h hc
  | resolve c l call hcall =>
    obtain ⟨r,he | ⟨phase,he⟩⟩ := resolve_quiet s c call l <;> rw [he]
    · exact finish_callsOwn s h c r
    · exact enter_callsOwn s h c _ (h.call c call hcall)
  | sendTo c ok call target hcall =>
    cases ok with
    | false => exact enter_callsOwn s h c _ (h.call c call hcall)
    | true =>
      apply finish_callsOwn
      exact ⟨h.unborn,h.call⟩
  | remove c call => exact finish_callsOwn _ (hnotify _ _) c _
  | sweep now => exact hnotify _ _
  | receive n | stop n | socketError n =>
    exact h.quiet (fun n' => handle_alter _ n n' _ fun _ => rfl) rfl h.call

theorem callsOwn_sends (ip : T → Address.IpAddr) (s : State T) (a : Act T) (h : CallsOwn s)
    (_ : FindsOwn ip s a) : SendsOwn s a := by
  cases a with
  | sendTo c ok =>
    cases ok with
    | false => trivial
    | true => exact fun call _ hcall _ => h.call c call hcall
  | _ => trivial

def Isolates (ip : T → Address.IpAddr) (s : State T) (a : Act T) : Prop :=
  ∀ t, step ip s a = some t → Isolated t

/-- A datagram sent through another tunnel's socket breaks the isolation at once. -/
theorem isolates_sendsOwn (ip : T → Address.IpAddr) (s : State T) (a : Act T)
    (h : Isolates ip s a) : SendsOwn s a := by
  cases a with
  | sendTo c ok =>
    cases ok with
    | false => trivial
    | true =>
      intro call target hcall hp
      have ht := (h (s.sendTo c call true) (by simp [step, hcall, hp])).answered
      exact ht (call.socket,call.tunnel,call.dg) (by simp [sendTo, finish])
  | _ => trivial

/-- Every state of a run is isolated exactly when each datagram leaves through
a socket of its own tunnel; it is enough that each call that finds a session
comes from the tunnel that opened it. -/
theorem udp_isolation_iff (ip : T → Address.IpAddr) (maxSessions maxPerIp : ℕ) (as : List (Act T)) :
    (Meets (step ip) (Isolates ip) as (init maxSessions maxPerIp) ↔
      Meets (step ip) SendsOwn as (init maxSessions maxPerIp)) ∧
    (Meets (step ip) (FindsOwn ip) as (init maxSessions maxPerIp) →
      Meets (step ip) SendsOwn as (init maxSessions maxPerIp)) := by
  refine ⟨⟨meets_mono (isolates_sendsOwn ip) as _,fun h => ?_⟩,fun h => ?_⟩
  · exact meets_of_invariant (step_owned ip)
      (fun s a hi hc t ht => (step_owned ip s a t hi hc ht).isolated) as _ h
      (init_owned maxSessions maxPerIp)
  · exact meets_of_invariant (step_callsOwn ip) (callsOwn_sends ip) as _ h
      ⟨fun _ _ => rfl,fun _ _ hc => by simp [init] at hc⟩

def natAddr : Address.IpAddr := .v4 (.replicate 4 10)

def natDatagram : Datagram := .new 7 (.ip natAddr 53) [1]

def natRun : List (Act Bool) :=
  [.forward 0 false natDatagram 0 true,.forward 1 true natDatagram 1 true,
    .resolve 1 (.ok []),.sendTo 1 true,.receive 0 (natAddr,53) [2] true]

/-- The second tunnel's datagram is answered to the first one. -/
theorem shared_session_leaks :
    ¬∀ (ip : Bool → Address.IpAddr) (as : List (Act Bool)) (s : State Bool),
      run (step ip) as (init 0 0) = some s → Isolated s := by
  intro h
  have hr : ∃ s, run (step fun _ => natAddr) natRun (init 0 0) = some s ∧
      (0,true,natDatagram) ∈ s.sent ∧ (0,false,Datagram.new 7 (.ip natAddr 53) [2]) ∈ s.delivered :=
    ⟨_,rfl,by decide,by decide⟩
  obtain ⟨s,hr,hs,hd⟩ := hr
  exact absurd ((h _ natRun s hr).handed _ hd _ hs rfl) (by decide)

end Hydr.Udp
