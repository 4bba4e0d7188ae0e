import Mathlib
import Hydr.UdpTable

/-!
# Which session a failed send removes

The removal after a failed send takes the session that is under the key by then.
It is the call's own as long as no session is opened under a key while another
call on the key is in progress; otherwise that call can still fail and take
the new session away.
-/

set_option autoImplicit false

namespace Hydr.Udp
open Transition Message

variable {T : Type}

def RemovesOwn (ip : T → Address.IpAddr) (s : State T) : Act T → Prop
  | .remove c => ∀ t call, step ip s (.remove c) = some t → s.calls c = some call →
    ∀ key ses, s.manager.sessions.lookup key = some ses →
      t.manager.sessions.lookup key = some ses ∨ ses.socket = call.socket
  | _ => True

def Opens (ip : T → Address.IpAddr) (s : State T) (upstream : T) (dg : Datagram) (bind : Bool) :
    Prop :=
  s.manager.sessions.lookup (ip upstream,dg.sessionId) = none ∧
    s.manager.sessions.entries.length < s.manager.maxSessions ∧
    (s.manager.perIp.lookup (ip upstream)).getD 0 < s.manager.maxPerIp ∧ bind = true

def Settled (ip : T → Address.IpAddr) (s : State T) : Act T → Prop
  | .forward _ upstream dg _ bind => Opens ip s upstream dg bind →
    ∀ c call, s.calls c = some call → call.key ≠ (ip upstream,dg.sessionId)
  | _ => True

section Forward

variable (ip : T → Address.IpAddr) (s : State T) (c : ℕ) (upstream : T) (dg : Datagram)
  (now : ℕ) (bind : Bool)

theorem forward_opening (h : Opens ip s upstream dg bind) :
    (s.forward ip c upstream dg now bind).calls = Function.update s.calls c
        (some ⟨upstream,(ip upstream,dg.sessionId),dg,s.nextSocket,.resolving⟩) ∧
      (s.forward ip c upstream dg now bind).manager.sessions = s.manager.sessions.insert
        (ip upstream,dg.sessionId) ⟨s.nextSocket,now,ip upstream⟩ ∧
      (s.forward ip c upstream dg now bind).nextSocket = s.nextSocket+1 := by
  obtain ⟨hn,hm,hp,rfl⟩ := h
  have ha : s.manager.acquire (ip upstream) dg.sessionId now (some s.nextSocket) =
      (.ok (s.nextSocket,true),{ s.manager with
        sessions := s.manager.sessions.insert (ip upstream,dg.sessionId)
          ⟨s.nextSocket,now,ip upstream⟩
        perIp := s.manager.perIp.insert (ip upstream)
          ((s.manager.perIp.lookup (ip upstream)).getD 0+1)
        sessionsCurrent := (s.manager.sessionsCurrent+1)%2^64 }) := by
    rw [UdpManager.acquire, hn]
    exact (if_neg (not_le.mpr hm)).trans (if_neg (not_le.mpr hp))
  rw [State.forward, if_pos rfl, ha]
  exact ⟨rfl,rfl,rfl⟩

theorem forward_not_opening (h : ¬Opens ip s upstream dg bind) :
    (∃ ses, s.manager.sessions.lookup (ip upstream,dg.sessionId) = some ses ∧
      s.forward ip c upstream dg now bind = { s with
        manager := { s.manager with
          sessions := s.manager.sessions.insert (ip upstream,dg.sessionId)
            { ses with lastActive := now } }
        assigned := s.assigned++[(ses.socket,upstream)] }.enter c
          ⟨upstream,(ip upstream,dg.sessionId),dg,ses.socket,.resolving⟩) ∨
    ∃ e, s.forward ip c upstream dg now bind = s.finish c (.error e) := by
  cases hn : s.manager.sessions.lookup (ip upstream,dg.sessionId) with
  | some ses => exact Or.inl ⟨ses,rfl,by simp only [State.forward, UdpManager.acquire, hn]; rfl⟩
  | none =>
    have ha : ∃ e, s.manager.acquire (ip upstream) dg.sessionId now
        (if bind then some s.nextSocket else none) = (.error e,s.manager) := by
      simp only [UdpManager.acquire, hn]
      split_ifs with hm hp hb
      · exact ⟨_,rfl⟩
      · exact ⟨_,rfl⟩
      · exact absurd ⟨hn,not_le.mp hm,not_le.mp hp,hb⟩ h
      · exact ⟨_,rfl⟩
    obtain ⟨e,ha⟩ := ha
    exact Or.inr ⟨e,by rw [State.forward, ha]⟩

end Forward

section Step

variable (ip : T → Address.IpAddr) (s t : State T) (a : Act T)

def Session (key : SessionKey) (ses : UdpSession) : Prop :=
  (∃ old, s.manager.sessions.lookup key = some old ∧ old.socket = ses.socket) ∨
    ∃ c upstream dg now bind, a = .forward c upstream dg now bind ∧
      key = (ip upstream,dg.sessionId) ∧ Opens ip s upstream dg bind ∧
      ses.socket = s.nextSocket ∧ t.nextSocket = s.nextSocket+1

def InProgress (c : ℕ) (call : Call T) : Prop :=
  (∃ old, s.calls c = some old ∧ old.key = call.key ∧ old.socket = call.socket) ∨
    ∃ ses, t.manager.sessions.lookup call.key = some ses ∧ ses.socket = call.socket

structure Accounts : Prop where
  session : ∀ key ses, t.manager.sessions.lookup key = some ses → Session ip s t a key ses
  call : ∀ c call, t.calls c = some call → InProgress s t c call
  next : s.nextSocket ≤ t.nextSocket

variable {ip s t a}

theorem Accounts.shrink
    (hl : ∀ key ses, t.manager.sessions.lookup key = some ses →
      s.manager.sessions.lookup key = some ses)
    (hc : ∀ c call, t.calls c = some call →
      ∃ old, s.calls c = some old ∧ old.key = call.key ∧ old.socket = call.socket)
    (hn : t.nextSocket = s.nextSocket) : Accounts ip s t a where
  session key ses hs := Or.inl ⟨ses,hl key ses hs,rfl⟩
  call c call h := Or.inl (hc c call h)
  next := hn.ge

theorem calls_update (s : State T) (c : ℕ) (call : Call T) (x : Option (Call T))
    (hc : s.calls c = some call)
    (hx : ∀ new, x = some new → new.key = call.key ∧ new.socket = call.socket) (c' : ℕ)
    (call' : Call T) (h : Function.update s.calls c x c' = some call') :
    ∃ old, s.calls c' = some old ∧ old.key = call'.key ∧ old.socket = call'.socket := by
  rcases Table.update_cases h with ⟨rfl,he⟩ | ⟨-,he⟩
  · exact ⟨call,hc,(hx call' he).1.symm,(hx call' he).2.symm⟩
  · exact ⟨call',he,rfl,rfl⟩

theorem finish_calls (s : State T) (c : ℕ) (r : Result Unit) (c' : ℕ) (call' : Call T)
    (h : (s.finish c r).calls c' = some call') : s.calls c' = some call' := by
  rcases eq_or_ne c' c with rfl | hne
  · simp [State.finish] at h
  · simpa [State.finish, hne] using h

theorem forward_accounts (c : ℕ) (upstream : T) (dg : Datagram) (now : ℕ) (bind : Bool) :
    Accounts ip s (s.forward ip c upstream dg now bind) (.forward c upstream dg now bind) := by
  by_cases ho : Opens ip s upstream dg bind
  · obtain ⟨hc,hl,hn⟩ := forward_opening ip s c upstream dg now bind ho
    refine ⟨fun key ses hs => ?_,fun c' call hcall => ?_,by omega⟩
    · rw [hl] at hs
      rcases Table.lookup_insert_cases hs with ⟨rfl,rfl⟩ | ⟨-,hs⟩
      · exact Or.inr ⟨c,upstream,dg,now,bind,rfl,rfl,ho,rfl,hn⟩
      · exact Or.inl ⟨ses,hs,rfl⟩
    · rw [hc] at hcall
      rcases Table.update_cases hcall with ⟨rfl,⟨⟩⟩ | ⟨-,hold⟩
      · exact Or.inr ⟨_,by rw [hl]; exact AList.lookup_insert _,rfl⟩
      · exact Or.inl ⟨call,hold,rfl,rfl⟩
  · rcases forward_not_opening ip s c upstream dg now bind ho with ⟨ses,hl,he⟩ | ⟨e,he⟩ <;> rw [he]
    · refine ⟨fun key ses' hs => ?_,fun c' call hcall => ?_,le_rfl⟩
      · rcases Table.lookup_insert_cases hs with ⟨rfl,rfl⟩ | ⟨-,hs⟩
        · exact Or.inl ⟨ses,hl,rfl⟩
        · exact Or.inl ⟨ses',hs,rfl⟩
      · rcases Table.update_cases hcall with ⟨rfl,⟨⟩⟩ | ⟨-,hold⟩
        · exact Or.inr ⟨_,AList.lookup_insert _,rfl⟩
        · exact Or.inl ⟨call,hold,rfl,rfl⟩
    · exact .shrink (fun _ _ hs => hs)
        (fun c' call h => ⟨call,finish_calls s c _ c' call h,rfl,rfl⟩) rfl

theorem step_accounts (hst : step ip s a = some t) : Accounts ip s t a := by
  cases moves_of_step ip s t a hst with
  | forward c u dg now bind => exact forward_accounts c u dg now bind
  | resolve c l call hc =>
    obtain ⟨r,he | ⟨phase,he⟩⟩ := resolve_quiet s c call l <;> rw [he]
    · exact .shrink (fun _ _ hs => hs)
        (fun c' call' h => ⟨call',finish_calls s c r c' call' h,rfl,rfl⟩) rfl
    · refine .shrink (fun _ _ hs => hs) (calls_update s c call _ hc ?_) rfl
      rintro _ ⟨⟩
      exact ⟨rfl,rfl⟩
  | sendTo c ok call target hc =>
    cases ok with
    | true => exact .shrink (fun _ _ hs => hs) (calls_update s c call none hc nofun) rfl
    | false =>
      refine .shrink (fun _ _ hs => hs)
        (calls_update s c call (some { call with phase := .removing }) hc ?_) rfl
      rintro _ ⟨⟩
      exact ⟨rfl,rfl⟩
  | remove c call hc =>
    obtain ⟨-,-,hcalls,hn,-⟩ := notify_frame
      { s with manager := (s.manager.removeSession call.key).2 } (s.manager.removeSession call.key).1
    refine .shrink (fun key ses hs => ?_) (fun c' call' h => ?_) hn
    · rw [remove_manager] at hs
      exact UdpManager.removeSession_lookup s.manager call.key key ses hs
    · exact ⟨call',(congrFun hcalls c').symm.trans (finish_calls _ c _ c' call' h),rfl,rfl⟩
  | sweep now =>
    obtain ⟨-,-,hcalls,hn,-⟩ := notify_frame
      { s with manager := (s.manager.sweep now).2 } (s.manager.sweep now).1
    refine .shrink (fun key ses hs => ?_)
      (fun c' call' h => ⟨call',(congrFun hcalls c').symm.trans h,rfl,rfl⟩) hn
    rw [sweep_manager, UdpManager.lookup_sweep] at hs
    exact (Option.filter_eq_some_iff.mp hs).1
  | receive | stop | socketError =>
    exact .shrink (fun _ _ hs => hs) (fun c' call' h => ⟨call',h,rfl,rfl⟩) rfl

end Step

structure Born (s : State T) : Prop where
  session : ∀ key ses, s.manager.sessions.lookup key = some ses → ses.socket < s.nextSocket
  call : ∀ c call, s.calls c = some call → call.socket < s.nextSocket

def Agrees (s : State T) : Prop :=
  ∀ c call ses, s.calls c = some call → s.manager.sessions.lookup call.key = some ses →
    ses.socket = call.socket

section Invariants

variable (ip : T → Address.IpAddr) (s : State T) (a : Act T) (t : State T)

theorem step_born (h : Born s) (hst : step ip s a = some t) : Born t := by
  have ha := step_accounts hst
  have hs : ∀ key ses, t.manager.sessions.lookup key = some ses → ses.socket < t.nextSocket := by
    intro key ses hl
    have hn := ha.next
    rcases ha.session key ses hl with ⟨old,ho,he⟩ | ⟨_,_,_,_,_,-,-,-,he,hnext⟩
    · have := h.session key old ho
      omega
    · omega
  refine ⟨hs,fun c call hc => ?_⟩
  rcases ha.call c call hc with ⟨old,ho,-,he⟩ | ⟨ses,hl,he⟩
  · have := h.call c old ho
    have := ha.next
    omega
  · exact he ▸ hs call.key ses hl

theorem step_agrees (h : Agrees s) (hc : Settled ip s a) (hst : step ip s a = some t) :
    Agrees t := by
  intro c call ses hcall hses
  have ha := step_accounts hst
  rcases ha.call c call hcall with ⟨old,ho,hk,he⟩ | ⟨found,hl,he⟩
  · rcases ha.session call.key ses hses with ⟨prev,hp,hs⟩ | ⟨_,_,_,_,_,rfl,hkey,hopen,-⟩
    · rw [← hs, ← he]
      exact h c old prev ho (hk ▸ hp)
    · exact absurd (hk.trans hkey) (hc hopen c old ho)
  · rw [← he]
    exact congrArg UdpSession.socket (Option.some.inj (hses.symm.trans hl))

theorem agrees_removes (h : Agrees s) (_ : Settled ip s a) : RemovesOwn ip s a := by
  cases a with
  | remove c =>
    intro t call hst hc key ses hses
    cases moves_of_step ip s t _ hst with
    | remove _ call' hc' =>
      obtain rfl := Option.some.inj (hc.symm.trans hc')
      rw [remove_manager, UdpManager.lookup_removeSession]
      rcases eq_or_ne key call.key with rfl | hne
      · exact Or.inr (h c call ses hc hses)
      · exact Or.inl (by rw [if_neg hne, hses])
  | _ => trivial

theorem init_agrees (maxSessions maxPerIp : ℕ) : Agrees (.init maxSessions maxPerIp : State T) :=
  fun _ _ _ h => (by cases h)

theorem init_born (maxSessions maxPerIp : ℕ) : Born (.init maxSessions maxPerIp : State T) :=
  ⟨fun _ _ h => (by cases h),fun _ _ h => (by cases h)⟩

end Invariants

section Continuations

variable (ip : T → Address.IpAddr) (s : State T) (c : ℕ) (call : Call T) (ses : UdpSession)

theorem not_meets_cons {C : State T → Act T → Prop} (a : Act T) (as : List (Act T)) (t : State T)
    (hst : step ip s a = some t) (h : ¬Meets (step ip) C as t) : ¬Meets (step ip) C (a::as) s :=
  fun hm => h (hm.2 t hst)

/-- A call in progress takes the session away that is under its key, whosever it
is, if its send fails. -/
theorem failing_send_breaks (hc : s.calls c = some call)
    (hl : s.manager.sessions.lookup call.key = some ses) (hne : ses.socket ≠ call.socket) :
    ∃ as, ¬Meets (step ip) (RemovesOwn ip) as s := by
  have hremove : ∀ (u : State T) (call' : Call T), u.calls c = some call' →
      call'.phase = .removing → call'.key = call.key → call'.socket = call.socket →
      u.manager = s.manager → ¬Meets (step ip) (RemovesOwn ip) [.remove c] u := by
    intro u call' hcall hp hk hs hm h
    have hst : step ip u (.remove c) = some (u.remove c call') := by simp [step, hcall, hp]
    rcases h.1 _ call' hst hcall call.key ses (by rw [hm, hl]) with hr | hr
    · rw [remove_manager, UdpManager.lookup_removeSession, if_pos hk.symm] at hr
      cases hr
    · exact hne (hr.trans hs)
  have hsend : ∀ (u : State T) (call' : Call T) (target : SocketAddr), u.calls c = some call' →
      call'.phase = .sending target → call'.key = call.key → call'.socket = call.socket →
      u.manager = s.manager →
      ¬Meets (step ip) (RemovesOwn ip) [.sendTo c false,.remove c] u := by
    intro u call' target hcall hp hk hs hm
    have hst : step ip u (.sendTo c false) = some (u.enter c { call' with phase := .removing }) := by
      simp [step, hcall, hp, State.sendTo]
    refine not_meets_cons ip u _ _ _ hst ?_
    exact hremove _ { call' with phase := .removing } (Function.update_self ..) rfl hk hs hm
  cases hp : call.phase with
  | removing => exact ⟨_,hremove s call hc hp rfl rfl rfl⟩
  | sending target => exact ⟨_,hsend s call target hc hp rfl rfl rfl⟩
  | resolving =>
    obtain ⟨target,ht⟩ : ∃ target, resolveTarget call.dg.address (.ok [(natAddr,53)]) = .ok target := by
      cases call.dg.address with
      | ip host port => exact ⟨_,rfl⟩
      | domain => exact ⟨_,rfl⟩
    have hst : step ip s (.resolve c (.ok [(natAddr,53)])) =
        some (s.enter c { call with phase := .sending target }) := by
      simp [step, hc, hp, State.resolve, ht]
    exact ⟨_,not_meets_cons ip s _ _ _ hst
      (hsend _ { call with phase := .sending target } target (Function.update_self ..) rfl rfl rfl rfl)⟩

end Continuations

/-- An opened session has a socket that no call before it has. -/
theorem opened_apart (ip : T → Address.IpAddr) (s t : State T) (a : Act T) (h : Born s)
    (hst : step ip s a = some t) (key : SessionKey) (ses : UdpSession)
    (hs : s.manager.sessions.lookup key = none) (ht : t.manager.sessions.lookup key = some ses)
    (c : ℕ) (call : Call T) (hc : s.calls c = some call) : ses.socket ≠ call.socket := by
  have hb := h.call c call hc
  rcases (step_accounts hst).session key ses ht with ⟨old,ho,-⟩ | ⟨_,_,_,_,_,-,-,-,he,-⟩
  · rw [hs] at ho
    cases ho
  · omega

/-- A session opened over a call in progress can be lost to that call. -/
theorem unsettled_breaks (ip : T → Address.IpAddr) (s t : State T) (a : Act T) (h : Born s)
    (hst : step ip s a = some t) (hs : ¬Settled ip s a) :
    ∃ as, ¬Meets (step ip) (RemovesOwn ip) as t := by
  cases moves_of_step ip s t a hst with
  | forward c upstream dg now bind =>
    simp only [Settled, not_forall, not_not] at hs
    obtain ⟨ho,c',call,hc,hk⟩ := hs
    obtain ⟨hcalls,hl,-⟩ := forward_opening ip s c upstream dg now bind ho
    have hfree : s.calls c = none := by
      by_contra hsome
      simp [step, Option.isSome_iff_ne_none.mpr hsome] at hst
    have hne : c' ≠ c := by
      rintro rfl
      rw [hfree] at hc
      cases hc
    refine failing_send_breaks ip _ c' call ⟨s.nextSocket,now,ip upstream⟩ ?_ ?_
      (h.call c' call hc).ne'
    · rw [hcalls, Function.update_of_ne hne, hc]
    · rw [hl, hk, AList.lookup_insert]
  | _ => exact absurd trivial hs

/-- As long as no session is opened under the key of a call in progress, a failed
send removes the session it was given or none; such an opening can always be
followed by a send that fails and removes the new session. -/
theorem removes_own_where (ip : T → Address.IpAddr) (maxSessions maxPerIp : ℕ)
    (as : List (Act T)) :
    (Meets (step ip) (Settled ip) as (.init maxSessions maxPerIp) →
      Meets (step ip) (RemovesOwn ip) as (.init maxSessions maxPerIp)) ∧
    ∀ s, run (step ip) as (.init maxSessions maxPerIp) = some s → ∀ a t, step ip s a = some t →
      (¬Settled ip s a → ∃ bs, ¬Meets (step ip) (RemovesOwn ip) bs t) ∧
      ∀ key ses, s.manager.sessions.lookup key = none → t.manager.sessions.lookup key = some ses →
        ∀ c call, s.calls c = some call → ses.socket ≠ call.socket := by
  refine ⟨fun h => ?_,fun s hr a t hst => ?_⟩
  · exact meets_of_invariant (step_agrees ip) (agrees_removes ip) as _ h
      (init_agrees maxSessions maxPerIp)
  · have hb : Born s := run_preserves (step_born ip) as _ s hr (init_born maxSessions maxPerIp)
    exact ⟨unsettled_breaks ip s t a hb hst,opened_apart ip s t a hb hst⟩

def recreation : List (Act Bool) :=
  [.forward 0 false natDatagram 0 true,.forward 1 false natDatagram 0 true,
    .resolve 1 (.ok []),.sendTo 1 false,.remove 1,.forward 2 false natDatagram 1 true,
    .resolve 0 (.ok []),.sendTo 0 false,.remove 0]

/-- The first call's failure destroys the session of the third. -/
theorem recreated_session_destroyed :
    ¬∀ (ip : Bool → Address.IpAddr) (maxSessions maxPerIp : ℕ) (as : List (Act Bool)),
      Meets (step ip) (RemovesOwn ip) as (.init maxSessions maxPerIp) := by
  intro h
  have hr : ∃ s t : State Bool, ∃ call,
      run (step fun _ => natAddr) (recreation.take 8) (.init 0 0) = some s ∧
      step (fun _ => natAddr) s (.remove 0) = some t ∧ s.calls 0 = some call ∧
      call.socket = 0 ∧ s.manager.sessions.lookup (natAddr,7) = some ⟨1,1,natAddr⟩ ∧
      t.manager.sessions.lookup (natAddr,7) = none := ⟨_,_,_,rfl,rfl,rfl,rfl,rfl,rfl⟩
  obtain ⟨s,t,call,hr,hst,hc,hsock,hl,hn⟩ := hr
  have hm := meets_at (recreation.take 8) [] (.remove 0) _ s (h (fun _ => natAddr) 0 0 recreation) hr
  rcases hm t call hst hc (natAddr,7) _ hl with he | he
  · rw [hn] at he
    cases he
  · rw [hsock] at he
    cases he

end Hydr.Udp
