import Mathlib
import Hydr.UdpLiveness
import Hydr.UdpRecreation

/-!
# How long an idle session is kept

The sweeper wakes up every half a minute and removes what has been idle for two. Here the
manager runs under a clock: a tick comes at most `lag` after it was due, and the client's
datagrams, not the replies, are what keeps a session.
-/

set_option autoImplicit false

namespace Hydr.Udp
open Transition Message
open Address (IpAddr)

def sweepInterval : ℕ := 30*10^9

variable {T : Type}

structure Timed (T : Type) where
  state : State T
  now : ℕ
  due : ℕ
  heard : SessionKey → Option ℕ

inductive TimedAct (T : Type) where
  | wait (d : ℕ)
  | act (a : Act T)

namespace Timed

def init (maxSessions maxPerIp : ℕ) : Timed T where
  state := .init maxSessions maxPerIp
  now := 0
  due := sweepInterval
  heard _ := none

/-- A late tick does not move the ticks that follow it. -/
def step (ip : T → IpAddr) (lag : ℕ) (s : Timed T) : TimedAct T → Option (Timed T)
  | .wait d => if s.now+d ≤ s.due+lag then some { s with now := s.now+d } else none
  | .act (.forward c u dg now bind) =>
    if now = s.now then
      (Udp.step ip s.state (.forward c u dg now bind)).map fun t => { s with
        state := t
        heard := Function.update s.heard (ip u,dg.sessionId) (some now) }
    else none
  | .act (.sweep now) =>
    if s.due ≤ now ∧ now ≤ s.now then
      (Udp.step ip s.state (.sweep now)).map fun t =>
        { s with state := t, due := s.due+sweepInterval }
    else none
  | .act a => (Udp.step ip s.state a).map fun t => { s with state := t }

end Timed

inductive TimedMoves (ip : T → IpAddr) (lag : ℕ) (s : Timed T) : TimedAct T → Timed T → Prop where
  | wait (d : ℕ) (h : s.now+d ≤ s.due+lag) : TimedMoves ip lag s (.wait d) { s with now := s.now+d }
  | forward (c : ℕ) (u : T) (dg : Datagram) (bind : Bool) :
    TimedMoves ip lag s (.act (.forward c u dg s.now bind)) { s with
      state := s.state.forward ip c u dg s.now bind
      heard := Function.update s.heard (ip u,dg.sessionId) (some s.now) }
  | sweep (now : ℕ) (hd : s.due ≤ now) (hn : now ≤ s.now) :
    TimedMoves ip lag s (.act (.sweep now))
      { s with state := s.state.sweep now, due := s.due+sweepInterval }
  | remove (c : ℕ) (call : Call T) (hc : s.state.calls c = some call) :
    TimedMoves ip lag s (.act (.remove c)) { s with state := s.state.remove c call }
  | quiet (a : Act T) (t : State T) (ha : Udp.step ip s.state a = some t)
    (hm : t.manager = s.state.manager) (hs : ∀ now, a ≠ .sweep now) (hr : ∀ c, a ≠ .remove c) :
    TimedMoves ip lag s (.act a) { s with state := t }

theorem timedMoves_of_step (ip : T → IpAddr) (lag : ℕ) (s t : Timed T) (a : TimedAct T)
    (h : s.step ip lag a = some t) : TimedMoves ip lag s a t := by
  cases a with
  | wait d =>
    simp only [Timed.step] at h
    split_ifs at h with hd
    cases h
    exact .wait d hd
  | act a =>
    cases a with
    | forward c u dg now bind =>
      simp only [Timed.step] at h
      split_ifs at h with hn
      subst hn
      obtain ⟨v,hv,rfl⟩ := Option.map_eq_some_iff.mp h
      cases moves_of_step ip s.state v _ hv
      exact .forward c u dg bind
    | sweep now =>
      simp only [Timed.step] at h
      split_ifs at h with hn
      cases h
      exact .sweep now hn.1 hn.2
    | remove c =>
      obtain ⟨v,hv,rfl⟩ := Option.map_eq_some_iff.mp h
      cases moves_of_step ip s.state v _ hv with
      | remove c call hc => exact .remove c call hc
    | resolve c l =>
      obtain ⟨v,hv,rfl⟩ := Option.map_eq_some_iff.mp h
      refine .quiet _ v hv ?_ (fun _ h => by cases h) (fun _ h => by cases h)
      cases moves_of_step ip s.state v _ hv with
      | resolve c l call =>
        obtain ⟨r,he | ⟨phase,he⟩⟩ := resolve_quiet s.state c call l <;> rw [he] <;> rfl
    | sendTo c ok =>
      obtain ⟨v,hv,rfl⟩ := Option.map_eq_some_iff.mp h
      refine .quiet _ v hv ?_ (fun _ h => by cases h) (fun _ h => by cases h)
      cases moves_of_step ip s.state v _ hv with
      | sendTo c ok call => cases ok <;> rfl
    | receive n source payload ok =>
      obtain ⟨v,hv,rfl⟩ := Option.map_eq_some_iff.mp h
      refine .quiet _ v hv ?_ (fun _ h => by cases h) (fun _ h => by cases h)
      cases moves_of_step ip s.state v _ hv
      rfl
    | stop n =>
      obtain ⟨v,hv,rfl⟩ := Option.map_eq_some_iff.mp h
      refine .quiet _ v hv ?_ (fun _ h => by cases h) (fun _ h => by cases h)
      cases moves_of_step ip s.state v _ hv
      rfl
    | socketError n =>
      obtain ⟨v,hv,rfl⟩ := Option.map_eq_some_iff.mp h
      refine .quiet _ v hv ?_ (fun _ h => by cases h) (fun _ h => by cases h)
      cases moves_of_step ip s.state v _ hv
      rfl

theorem Timed.step_state {ip : T → IpAddr} {lag : ℕ} {s t : Timed T} {a : Act T}
    (h : s.step ip lag (.act a) = some t) : Udp.step ip s.state a = some t.state := by
  cases a with
  | forward c u dg now bind =>
    simp only [Timed.step] at h
    split_ifs at h
    obtain ⟨v,hv,rfl⟩ := Option.map_eq_some_iff.mp h
    exact hv
  | sweep now =>
    simp only [Timed.step] at h
    split_ifs at h
    obtain ⟨v,hv,rfl⟩ := Option.map_eq_some_iff.mp h
    exact hv
  | _ =>
    obtain ⟨v,hv,rfl⟩ := Option.map_eq_some_iff.mp h
    exact hv

theorem forward_manager (ip : T → IpAddr) (s : State T) (c : ℕ) (u : T) (dg : Datagram) (now : ℕ)
    (bind : Bool) : (s.forward ip c u dg now bind).manager =
      (s.manager.acquire (ip u) dg.sessionId now (if bind then some s.nextSocket else none)).2 := by
  unfold State.forward
  dsimp only
  generalize (if bind then some s.nextSocket else none) = bound
  split
  · rename_i e m he
    rw [he]
    rfl
  · rename_i socket created m he
    rw [he]
    split_ifs <;> rfl

/-- The locked section stamps the session that it finds or opens, and no other. -/
theorem acquire_stamps {m : UdpManager} {ip : IpAddr} {sid : UInt32} {now : ℕ} {bound : Option ℕ}
    {key : SessionKey} {ses : UdpSession}
    (h : (m.acquire ip sid now bound).2.sessions.lookup key = some ses) :
    key = (ip,sid) ∧ ses.lastActive = now ∨
      key ≠ (ip,sid) ∧ m.sessions.lookup key = some ses := by
  rcases m.acquire_cases ip sid now bound with ⟨old,-,ha⟩ | ⟨socket,-,-,ha⟩ | ⟨e,hl,ha⟩ <;>
    rw [ha] at h
  · rcases Table.lookup_insert_cases h with ⟨rfl,rfl⟩ | h
    · exact .inl ⟨rfl,rfl⟩
    · exact .inr h
  · rcases Table.lookup_insert_cases h with ⟨rfl,rfl⟩ | h
    · exact .inl ⟨rfl,rfl⟩
    · exact .inr h
  · refine .inr ⟨?_,h⟩
    rintro rfl
    simp [hl] at h

def Accounted (s : State T) : Prop :=
  ∀ n task, s.tasks n = some task → task.done = false →
    ∃ key ses, s.manager.sessions.lookup key = some ses ∧ ses.socket = n

theorem notify_done (sockets : List ℕ) (s : State T) (n : ℕ) (h : n ∈ sockets)
    (task : ReplyTask T) (ht : (State.notify sockets s).tasks n = some task) :
    task.done = true := by
  induction sockets generalizing s with
  | nil => cases h
  | cons socket sockets ih =>
    by_cases hn : n ∈ sockets
    · exact ih _ hn ht
    · obtain rfl : n = socket := by simpa [hn] using h
      rw [State.notify, notify_tasks _ _ _ hn] at ht
      simp only [State.alter, Function.update_self, Option.map_eq_some_iff] at ht
      obtain ⟨old,-,rfl⟩ := ht
      rfl

theorem removeAll_tells (keys : List SessionKey) (m : UdpManager) (key : SessionKey)
    (ses : UdpSession) (hk : key ∈ keys) (hs : m.sessions.lookup key = some ses) :
    ses.socket ∈ (UdpManager.removeAll keys m).1 := by
  induction keys generalizing m with
  | nil => cases hk
  | cons k keys ih =>
    simp only [UdpManager.removeAll, List.mem_append]
    by_cases he : key = k
    · subst he
      refine .inl ?_
      unfold UdpManager.removeSession
      rw [hs]
      exact List.mem_singleton_self _
    · refine .inr (ih _ (by simpa [he] using hk) ?_)
      rw [UdpManager.lookup_removeSession, if_neg he]
      exact hs

theorem Accounted.removeAll {s : State T} (h : Accounted s) (keys : List SessionKey) :
    Accounted (State.notify (UdpManager.removeAll keys s.manager).1
      { s with manager := (UdpManager.removeAll keys s.manager).2 }) := by
  intro n task ht hd
  by_cases hn : n ∈ (UdpManager.removeAll keys s.manager).1
  · rw [notify_done _ _ n hn task ht] at hd
    cases hd
  · rw [notify_tasks _ _ _ hn] at ht
    obtain ⟨key,ses,hs,rfl⟩ := h n task ht hd
    refine ⟨key,ses,?_,rfl⟩
    rw [(notify_frame _ _).2.1, UdpManager.lookup_removeAll, if_neg]
    · exact hs
    · exact fun hk => hn (removeAll_tells keys s.manager key ses hk hs)

theorem Accounted.alter {s : State T} (h : Accounted s) (n : ℕ) (f : ReplyTask T → ReplyTask T)
    (hf : ∀ task, (f task).done = task.done) : Accounted (s.alter n f) := by
  intro k task ht hd
  rcases Table.update_cases ht with ⟨rfl,ht⟩ | ⟨-,ht⟩
  · obtain ⟨old,ho,rfl⟩ := Option.map_eq_some_iff.mp ht
    exact h k old ho ((hf old).symm.trans hd)
  · exact h k task ht hd

theorem forward_accounted (ip : T → IpAddr) (s : State T) (c : ℕ) (u : T) (dg : Datagram)
    (now : ℕ) (bind : Bool) (h : Accounted s) : Accounted (s.forward ip c u dg now bind) := by
  have hkeep := s.manager.acquire_keeps (ip u) dg.sessionId now
    (if bind then some s.nextSocket else none)
  rw [← forward_manager ip s c u dg now bind] at hkeep
  have hold : ∀ n task, s.tasks n = some task → task.done = false → ∃ key ses,
      (s.forward ip c u dg now bind).manager.sessions.lookup key = some ses ∧ ses.socket = n := by
    intro n task ht hd
    obtain ⟨key,ses,hs,rfl⟩ := h n task ht hd
    obtain ⟨new,hn,hsock,-⟩ := hkeep key ses hs
    exact ⟨key,new,hn,hsock⟩
  intro n task ht hd
  rcases forward_cases ip s c u dg now bind with ⟨ses,-,he⟩ | ⟨p,g,he⟩ | ⟨e,he⟩
  · rw [he] at ht
    exact hold n task ht hd
  · rw [he] at ht ⊢
    rcases Table.update_cases ht with ⟨rfl,-⟩ | ⟨-,ht⟩
    · exact ⟨_,_,AList.lookup_insert _,rfl⟩
    · obtain ⟨key,ses,hs,hn⟩ := hold n task ht hd
      rw [he] at hs
      exact ⟨key,ses,hs,hn⟩
  · rw [he] at ht
    exact hold n task ht hd

theorem step_accounted (ip : T → IpAddr) (s : State T) (a : Act T) (t : State T)
    (h : Accounted s) (hst : Udp.step ip s a = some t) : Accounted t := by
  cases moves_of_step ip s t a hst with
  | forward c u dg now bind => exact forward_accounted ip s c u dg now bind h
  | resolve c l call =>
    obtain ⟨r,he | ⟨phase,he⟩⟩ := resolve_quiet s c call l <;> rw [he] <;> exact h
  | sendTo c ok call => cases ok <;> exact h
  | remove c call =>
    have hr := h.removeAll [call.key]
    simp only [UdpManager.removeAll, List.append_nil] at hr
    exact hr
  | sweep now => exact h.removeAll _
  | receive n source payload ok task => exact h.alter n _ fun _ => rfl
  | stop n | socketError n => exact h.alter n _ fun _ => rfl

theorem Timed.run_state {ip : T → IpAddr} {lag : ℕ} {I : State T → Prop}
    (hI : ∀ s a t, I s → Udp.step ip s a = some t → I t) (as : List (TimedAct T)) (s t : Timed T)
    (hr : run (Timed.step ip lag) as s = some t) (h : I s.state) : I t.state := by
  refine run_preserves (I := fun s : Timed T => I s.state) (fun s a t h hst => ?_) as s t hr h
  cases a with
  | wait d =>
    cases timedMoves_of_step ip lag s t _ hst
    exact h
  | act a => exact hI s.state a t.state h (Timed.step_state hst)

structure Fresh (lag : ℕ) (s : Timed T) : Prop where
  prompt : s.now ≤ s.due+lag
  ahead : s.due ≤ s.now+sweepInterval
  heard : ∀ key ses, s.state.manager.sessions.lookup key = some ses →
    s.heard key = some ses.lastActive
  young : ∀ key ses, s.state.manager.sessions.lookup key = some ses →
    s.due ≤ ses.lastActive+sessionTimeout+sweepInterval

theorem init_fresh (lag maxSessions maxPerIp : ℕ) :
    Fresh lag (.init maxSessions maxPerIp : Timed T) where
  prompt := Nat.zero_le _
  ahead := Nat.le_add_left _ _
  heard _ _ h := by cases h
  young _ _ h := by cases h

theorem Fresh.tick {lag : ℕ} {s t : Timed T} (h : Fresh lag s) (now : ℕ) (hd : s.due ≤ now)
    (hn : now ≤ s.now) (ht : t.now = s.now) (hdue : t.due = s.due+sweepInterval)
    (hheard : t.heard = s.heard) (hl : ∀ key ses,
      t.state.manager.sessions.lookup key = some ses →
        s.state.manager.sessions.lookup key = some ses ∧ now-ses.lastActive ≤ sessionTimeout) :
    Fresh lag t where
  prompt := by
    have := h.prompt
    omega
  ahead := by omega
  heard key ses hs := hheard ▸ h.heard key ses (hl key ses hs).1
  young key ses hs := by
    have := (hl key ses hs).2
    omega

theorem step_fresh (ip : T → IpAddr) (lag : ℕ) (s : Timed T) (a : TimedAct T) (t : Timed T)
    (h : Fresh lag s) (hst : s.step ip lag a = some t) : Fresh lag t := by
  cases timedMoves_of_step ip lag s t a hst with
  | wait d hd => exact ⟨hd,h.ahead.trans (by dsimp only; omega),h.heard,h.young⟩
  | forward c u dg bind =>
    refine ⟨h.prompt,h.ahead,fun key ses hs => ?_,fun key ses hs => ?_⟩ <;>
      simp only [forward_manager] at hs <;>
      rcases acquire_stamps hs with ⟨rfl,he⟩ | ⟨hne,hs⟩
    · simp [he]
    · simp only [Function.update_of_ne hne]
      exact h.heard key ses hs
    · have := h.ahead
      dsimp only
      omega
    · exact h.young key ses hs
  | sweep now hd hn =>
    refine h.tick now hd hn rfl rfl rfl fun key ses hs => ?_
    rw [sweep_manager, UdpManager.lookup_sweep] at hs
    simpa using Option.filter_eq_some_iff.mp hs
  | remove c call hc =>
    have hleft : ∀ key ses, (s.state.remove c call).manager.sessions.lookup key = some ses →
        s.state.manager.sessions.lookup key = some ses := by
      intro key ses hs
      rw [remove_manager] at hs
      exact UdpManager.removeSession_lookup _ _ _ _ hs
    exact ⟨h.prompt,h.ahead,fun key ses hs => h.heard key ses (hleft key ses hs),
      fun key ses hs => h.young key ses (hleft key ses hs)⟩
  | quiet b v hb hm =>
    exact ⟨h.prompt,h.ahead,fun key ses hs => h.heard key ses (hm ▸ hs),
      fun key ses hs => h.young key ses (hm ▸ hs)⟩

/-- Whatever the clients and the replies do: a session in the table was used by its client
within two minutes, a period of the sweeper and its delay, and every reply task that was not
told to stop has such a session. -/
theorem idle_sessions_go (ip : T → IpAddr) (lag maxSessions maxPerIp : ℕ)
    (as : List (TimedAct T)) (s : Timed T)
    (hr : run (Timed.step ip lag) as (.init maxSessions maxPerIp) = some s) :
    (∀ key ses, s.state.manager.sessions.lookup key = some ses → ∃ t,
      s.heard key = some t ∧ s.now ≤ t+sessionTimeout+sweepInterval+lag) ∧
    ∀ n task, s.state.tasks n = some task → task.done = false → ∃ key ses,
      s.state.manager.sessions.lookup key = some ses ∧ ses.socket = n := by
  have h : Fresh lag s :=
    run_preserves (step_fresh ip lag) as _ s hr (init_fresh lag maxSessions maxPerIp)
  refine ⟨fun key ses hs => ⟨ses.lastActive,h.heard key ses hs,?_⟩,
    Timed.run_state (step_accounted ip) as _ s hr fun _ _ h => by cases h⟩
  have hp := h.prompt
  have hy := h.young key ses hs
  omega

def twoDatagrams : List (TimedAct Bool) :=
  [.act (.forward 0 false natDatagram 0 true),.wait sweepInterval,.act (.sweep sweepInterval),
    .act (.forward 1 false natDatagram sweepInterval false)]

def natSocket (s : Timed Bool) : Option ℕ :=
  (s.state.manager.sessions.lookup (natAddr,natDatagram.sessionId)).map (·.socket)

theorem two_datagrams_tabled :
    (run (Timed.step (fun _ => natAddr) 0) twoDatagrams (.init 4 4)).map natSocket =
      some (some 0) := by decide +kernel

theorem silent_client_still_tabled : ∃ s : Timed Bool,
    run (Timed.step (fun _ => natAddr) 0) twoDatagrams (.init 4 4) = some s ∧
    ∃ key ses, s.state.manager.sessions.lookup key = some ses ∧ ∃ t, s.heard key = some t ∧
      s.now ≤ t+sessionTimeout+sweepInterval := by
  obtain ⟨s,hr,hs⟩ := Option.map_eq_some_iff.mp two_datagrams_tabled
  obtain ⟨ses,hs,-⟩ := Option.map_eq_some_iff.mp hs
  exact ⟨s,hr,_,ses,hs,(idle_sessions_go (fun _ => natAddr) 0 4 4 twoDatagrams s hr).1 _ ses hs⟩

def Keeps (key : SessionKey) (s : Timed T) : TimedAct T → Prop
  | .act (.sweep now) => ∀ t, s.heard key = some t → now-t ≤ sessionTimeout
  | .act (.remove c) => ∀ call, s.state.calls c = some call → call.key ≠ key
  | _ => True

def HasSocket (key : SessionKey) (socket : ℕ) (s : State T) : Prop :=
  ∃ ses, s.manager.sessions.lookup key = some ses ∧ ses.socket = socket

/-- Sockets are not used again, so that a session that came back has another. -/
theorem forward_hasSocket {ip : T → IpAddr} {s : State T} {c : ℕ} {u : T} {dg : Datagram}
    {now : ℕ} {bind : Bool} {key : SessionKey} {socket : ℕ} (hb : socket < s.nextSocket) :
    HasSocket key socket (s.forward ip c u dg now bind) ↔ HasSocket key socket s := by
  constructor
  · rintro ⟨ses,hs,rfl⟩
    rcases (forward_accounts c u dg now bind).session key ses hs with
      ⟨old,ho,he⟩ | ⟨_,_,_,_,_,-,-,-,he,-⟩
    · exact ⟨old,ho,he⟩
    · omega
  · rintro ⟨ses,hs,rfl⟩
    obtain ⟨new,hn,he,-⟩ := s.manager.acquire_keeps (ip u) dg.sessionId now
      (if bind then some s.nextSocket else none) key ses hs
    exact ⟨new,by rwa [forward_manager],he⟩

theorem step_hasSocket (ip : T → IpAddr) (lag : ℕ) (key : SessionKey) (socket : ℕ) (s : Timed T)
    (a : TimedAct T) (t : Timed T) (h : Fresh lag s) (hb : socket < s.state.nextSocket)
    (hst : s.step ip lag a = some t) :
    HasSocket key socket t.state ↔ HasSocket key socket s.state ∧ Keeps key s a := by
  cases timedMoves_of_step ip lag s t a hst with
  | wait d hd => simp [Keeps]
  | forward c u dg bind => simp [Keeps, forward_hasSocket hb]
  | sweep now hd hn =>
    simp only [HasSocket, sweep_manager, UdpManager.lookup_sweep, Option.filter_eq_some_iff, Keeps,
      decide_eq_true_eq]
    constructor
    · rintro ⟨ses,⟨hs,ho⟩,rfl⟩
      refine ⟨⟨ses,hs,rfl⟩,fun u hu => ?_⟩
      obtain rfl := Option.some.inj (hu.symm.trans (h.heard key ses hs))
      exact ho
    · rintro ⟨⟨ses,hs,rfl⟩,hk⟩
      exact ⟨ses,⟨hs,hk _ (h.heard key ses hs)⟩,rfl⟩
  | remove c call hc =>
    simp only [HasSocket, remove_manager, UdpManager.lookup_removeSession, Keeps, hc,
      Option.some.injEq, forall_eq']
    by_cases hk : key = call.key
    · simp [hk]
    · simp [hk, Ne.symm hk]
  | quiet b v hb hm hsw hrm =>
    have hk : Keeps key s (.act b) := by
      cases b with
      | sweep now => exact absurd rfl (hsw now)
      | remove c => exact absurd rfl (hrm c)
      | _ => trivial
    simp [HasSocket, hm, hk]

def fiveTicks : List (TimedAct Bool) :=
  (List.range 5).flatMap fun i =>
    [.wait sweepInterval,.act (.sweep ((i+2)*sweepInterval))]

theorem five_ticks_run : (((run (Timed.step (fun _ => natAddr) 0) twoDatagrams (.init 4 4)).bind
    (run (Timed.step (fun _ => natAddr) 0) fiveTicks)).map natSocket) = some none := by
  decide +kernel

end Hydr.Udp
