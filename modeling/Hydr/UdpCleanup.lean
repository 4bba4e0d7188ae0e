import Mathlib
import Hydr.UdpTable

/-!
# What a failed forward call leaves behind

A call that opened a session can fail when its target is resolved and when the
packet is sent. Only the second failure is followed by a removal, and the removal
goes by the key of the session, not by the socket that the call was given.
-/

set_option autoImplicit false

namespace Hydr.Udp
open Transition Message

variable {T : Type}

def State.returned (s : State T) (c : ℕ) : List (Result Unit) :=
  s.results.filterMap fun r => if r.1 = c then some r.2 else none

def UdpManager.others (m : UdpManager) (key : SessionKey) :
    List ((_ : SessionKey) × UdpSession) :=
  m.sessions.entries.filter fun e => e.1 ≠ key

structure Traceless (key : SessionKey) (m : UdpManager) : Prop where
  table : m.sessions.lookup key = none
  perIp : ∀ a, (m.perIp.lookup a).getD 0 = (m.others key).countP fun e => e.2.owner = a
  gauge : m.sessionsCurrent = (m.others key).length

structure SameBooks (m n : UdpManager) : Prop where
  sessions : ∀ key, n.sessions.lookup key = m.sessions.lookup key
  perIp : ∀ a, n.perIp.lookup a = m.perIp.lookup a
  gauge : n.sessionsCurrent = m.sessionsCurrent

def Undisturbed (ip : T → Address.IpAddr) (c : ℕ) (key : SessionKey) (s : State T) : Act T → Prop
  | .forward c' upstream dg _ _ => c' ≠ c ∧ (ip upstream,dg.sessionId) ≠ key
  | .remove c' => c' ≠ c → ∀ call, s.calls c' = some call → call.key ≠ key
  | _ => True

def Own (c : ℕ) : Act T → Prop
  | .resolve c' _ => c' = c
  | .sendTo c' _ => c' = c
  | .remove c' => c' = c
  | _ => False

def Resolves (c : ℕ) (addr : Address) (as : List (Act T)) : Prop :=
  ∀ lookupHost, .resolve c lookupHost ∈ as → (resolveTarget addr lookupHost).isOk

def SweptAfter (now : ℕ) (as : List (Act T)) : Prop :=
  ∃ later, .sweep later ∈ as ∧ sessionTimeout < later-now

section Books

variable {maxSessions maxPerIp : ℕ} {m n : UdpManager}

theorem Tabled.traceless_iff (h : Tabled maxSessions maxPerIp m) (key : SessionKey) :
    Traceless key m ↔ m.sessions.lookup key = none := by
  refine ⟨Traceless.table,fun hk => ?_⟩
  have ho : m.others key = m.sessions.entries := by
    refine List.filter_eq_self.mpr fun e he => decide_eq_true ?_
    rintro rfl
    rw [show m.sessions.lookup e.1 = some e.2 from AList.mem_lookup_iff.mpr he] at hk
    cases hk
  exact ⟨hk,fun a => ho ▸ h.counted a,ho ▸ h.gauge⟩

/-- The counters and the gauge are determined by the sessions. -/
theorem Tabled.sameBooks (h : Tabled maxSessions maxPerIp m) (h' : Tabled maxSessions maxPerIp n)
    (hl : ∀ key, n.sessions.lookup key = m.sessions.lookup key) : SameBooks m n := by
  have hp : n.sessions.entries.Perm m.sessions.entries := by
    refine List.lookup_ext n.sessions.nodupKeys m.sessions.nodupKeys fun key ses => ?_
    exact Iff.of_eq (congrArg (ses ∈ ·) (hl key))
  have ho : ∀ a, n.owned a = m.owned a := fun a => hp.countP_eq _
  refine ⟨hl,fun a => ?_,?_⟩
  · rw [h.counts, h'.counts, ho]
  · rw [h.gauge, h'.gauge, hp.length_eq]

end Books

section Returned

variable (s : State T) (c : ℕ)

theorem returned_finish (c' : ℕ) (r : Result Unit) :
    (s.finish c' r).returned c = s.returned c++if c' = c then [r] else [] := by
  simp only [State.returned, State.finish, List.filterMap_append]
  split_ifs with h <;> simp [h]

theorem notify_results (sockets : List ℕ) : (State.notify sockets s).results = s.results := by
  induction sockets generalizing s with
  | nil => rfl
  | cons socket sockets ih => exact ih (s.alter socket fun task => { task with done := true })

theorem returned_remove (c' : ℕ) (call : Call T) :
    (s.remove c' call).returned c = s.returned c++if c' = c then [.error .io] else [] := by
  have hr := notify_results { s with manager := (s.manager.removeSession call.key).2 }
    (s.manager.removeSession call.key).1
  unfold State.remove
  rw [returned_finish]
  simp only [State.returned, hr]

end Returned

section Away

variable (now c : ℕ) (key : SessionKey)

structure Away (s : State T) (a : Act T) (t : State T) : Prop where
  calls : t.calls c = s.calls c
  returned : t.returned c = s.returned c
  kept : ∀ ses, t.manager.sessions.lookup key = some ses → s.manager.sessions.lookup key = some ses
  gone : t.manager.sessions.lookup key = none ↔
    s.manager.sessions.lookup key = none ∨ SweptAfter now [a]

variable {now c key}

theorem Away.of_lookup {s t : State T} {a : Act T} (hc : t.calls c = s.calls c)
    (hr : t.returned c = s.returned c)
    (hl : t.manager.sessions.lookup key = s.manager.sessions.lookup key)
    (ha : ∀ later, a ≠ .sweep later) : Away now c key s a t := by
  refine ⟨hc,hr,fun ses hs => hl ▸ hs,?_⟩
  rw [hl]
  constructor
  · exact Or.inl
  · rintro (h | ⟨later,hm,-⟩)
    · exact h
    · exact absurd (List.mem_singleton.mp hm).symm (ha later)

theorem forward_away (ip : T → Address.IpAddr) (s : State T) (c' : ℕ) (u : T) (dg : Datagram)
    (at' : ℕ) (bind : Bool) (hc : c' ≠ c) (hk : (ip u,dg.sessionId) ≠ key) :
    Away now c key s (.forward c' u dg at' bind) (s.forward ip c' u dg at' bind) := by
  have hu : ∀ call, Function.update s.calls c' call c = s.calls c := fun call =>
    Function.update_of_ne hc.symm _ _
  rcases forward_cases ip s c' u dg at' bind with ⟨ses,-,he⟩ | ⟨p,g,he⟩ | ⟨e,he⟩ <;> rw [he]
  · exact .of_lookup (hu _) rfl (AList.lookup_insert_ne hk.symm) nofun
  · exact .of_lookup (hu _) rfl (AList.lookup_insert_ne hk.symm) nofun
  · refine .of_lookup (hu _) ?_ rfl nofun
    rw [returned_finish, if_neg hc, List.append_nil]

theorem step_away (ip : T → Address.IpAddr) (s t : State T) (a : Act T)
    (hst : step ip s a = some t) (hu : Undisturbed ip c key s a) (ho : ¬Own c a)
    (hn : ∀ ses, s.manager.sessions.lookup key = some ses → ses.lastActive = now) :
    Away now c key s a t := by
  cases moves_of_step ip s t a hst with
  | forward c' u dg at' bind => exact forward_away ip s c' u dg at' bind hu.1 hu.2
  | resolve c' l call =>
    have hne : c' ≠ c := ho
    have hf : ∀ x, Function.update s.calls c' x c = s.calls c := fun x =>
      Function.update_of_ne hne.symm _ _
    obtain ⟨r,he | ⟨phase,he⟩⟩ := resolve_quiet s c' call l <;> rw [he]
    · refine .of_lookup (hf _) ?_ rfl nofun
      rw [returned_finish, if_neg hne, List.append_nil]
    · exact .of_lookup (hf _) rfl rfl nofun
  | sendTo c' ok call =>
    have hne : c' ≠ c := ho
    have hf : ∀ x, Function.update s.calls c' x c = s.calls c := fun x =>
      Function.update_of_ne hne.symm _ _
    cases ok with
    | false => exact .of_lookup (hf _) rfl rfl nofun
    | true =>
      refine .of_lookup (hf _) ?_ rfl nofun
      show (State.finish _ c' (.ok ())).returned c = _
      rw [returned_finish, if_neg hne, List.append_nil]
      rfl
  | remove c' call hcall =>
    have hne : c' ≠ c := ho
    have hk : key ≠ call.key := (hu hne call hcall).symm
    refine .of_lookup ?_ ?_ ?_ nofun
    · rw [State.remove]
      refine (Function.update_of_ne hne.symm _ _).trans ?_
      exact congrFun (notify_frame _ _).2.2.1 c
    · rw [returned_remove, if_neg hne, List.append_nil]
    · rw [remove_manager, UdpManager.lookup_removeSession, if_neg hk]
  | sweep later =>
    have hl := s.manager.lookup_sweep later key
    rw [← sweep_manager] at hl
    refine ⟨congrFun (notify_frame _ _).2.2.1 c,?_,fun ses hs => ?_,?_⟩
    · simp only [State.returned, State.sweep, notify_results]
    · rw [hl] at hs
      exact (Option.filter_eq_some_iff.mp hs).1
    · rw [hl]
      cases hs : s.manager.sessions.lookup key with
      | none => simp
      | some ses =>
        have hsw : SweptAfter now [(.sweep later : Act T)] ↔ sessionTimeout < later-now := by
          simp [SweptAfter]
        rw [hsw, ← hn ses hs, Option.filter_some]
        by_cases hl : later-ses.lastActive ≤ sessionTimeout
        · simp [hl]
        · simp [hl, not_le.mp hl]
  | receive | stop | socketError => exact .of_lookup rfl rfl rfl nofun

theorem SweptAfter.cons_iff (a : Act T) (as : List (Act T)) :
    SweptAfter now (a::as) ↔ SweptAfter now [a] ∨ SweptAfter now as := by
  simp only [SweptAfter, List.mem_cons, List.not_mem_nil, or_false, or_and_right, exists_or]

theorem Own.not_swept {a : Act T} (h : Own c a) : ¬SweptAfter now [a] := by
  rintro ⟨later,hm,-⟩
  rw [← List.mem_singleton.mp hm] at h
  exact h

theorem Resolves.cons_iff (addr : Address) (a : Act T) (as : List (Act T)) :
    Resolves c addr (a::as) ↔ Resolves c addr [a] ∧ Resolves c addr as := by
  simp only [Resolves, List.mem_cons, List.not_mem_nil, or_false, or_imp, forall_and]

theorem resolves_other {addr : Address} {a : Act T} (h : ∀ l, a ≠ .resolve c l) :
    Resolves c addr [a] := fun l hm => absurd (List.mem_singleton.mp hm).symm (h l)

theorem resolves_of_not_own {addr : Address} {a : Act T} (h : ¬Own c a) : Resolves c addr [a] :=
  resolves_other fun _ ha => h (ha ▸ rfl)

theorem own_in_progress (ip : T → Address.IpAddr) (s t : State T) (a : Act T)
    (hst : step ip s a = some t) (ho : Own c a) : ∃ call, s.calls c = some call := by
  cases moves_of_step ip s t a hst with
  | resolve c' l call hc => exact ⟨call,(show c' = c from ho) ▸ hc⟩
  | sendTo c' ok call target hc => exact ⟨call,(show c' = c from ho) ▸ hc⟩
  | remove c' call hc => exact ⟨call,(show c' = c from ho) ▸ hc⟩
  | forward | sweep | receive | stop | socketError => cases ho

/-- Once the call has returned, only a sweep takes its session away. -/
theorem run_landed (ip : T → Address.IpAddr) (as : List (Act T)) (s t : State T)
    (hr : run (step ip) as s = some t) (hu : Meets (step ip) (Undisturbed ip c key) as s)
    (hc : s.calls c = none)
    (hn : ∀ ses, s.manager.sessions.lookup key = some ses → ses.lastActive = now) :
    (∀ addr, Resolves c addr as) ∧ t.returned c = s.returned c ∧
      (t.manager.sessions.lookup key = none ↔
        s.manager.sessions.lookup key = none ∨ SweptAfter now as) := by
  induction as generalizing s with
  | nil =>
    cases hr
    exact ⟨fun _ _ hm => (by cases hm),rfl,by simp [SweptAfter]⟩
  | cons a as ih =>
    obtain ⟨u,hst,hr⟩ := run_cons.mp hr
    have ho : ¬Own c a := by
      intro ho
      obtain ⟨call,hcall⟩ := own_in_progress ip s u a hst ho
      rw [hc] at hcall
      cases hcall
    have ha := step_away ip s u a hst hu.1 ho hn
    obtain ⟨hres,hret,hgone⟩ := ih u hr (hu.2 u hst) (ha.calls.trans hc) fun ses hs =>
      hn ses (ha.kept ses hs)
    refine ⟨fun addr => ?_,hret.trans ha.returned,?_⟩
    · exact (Resolves.cons_iff addr a as).mpr ⟨resolves_of_not_own ho,hres addr⟩
    · rw [hgone, ha.gone, SweptAfter.cons_iff a as, or_assoc]

/-- A call in progress that fails in the end: its session is gone exactly when the
target was resolved, or a sweep came late enough. -/
theorem run_failed (ip : T → Address.IpAddr) (as : List (Act T)) (s t : State T) (call : Call T)
    (e : Error) (hr : run (step ip) as s = some t)
    (hu : Meets (step ip) (Undisturbed ip c key) as s) (hc : s.calls c = some call)
    (hk : call.key = key)
    (hn : ∀ ses, s.manager.sessions.lookup key = some ses → ses.lastActive = now)
    (he : t.returned c = s.returned c++[.error e]) :
    t.manager.sessions.lookup key = none ↔
      Resolves c call.dg.address as ∨ s.manager.sessions.lookup key = none ∨ SweptAfter now as := by
  induction as generalizing s call with
  | nil =>
    cases hr
    simp at he
  | cons a as ih =>
    obtain ⟨u,hst,hr⟩ := run_cons.mp hr
    have hu' := hu.2 u hst
    rw [Resolves.cons_iff, SweptAfter.cons_iff a as]
    by_cases ho : Own c a
    · rw [or_iff_right ho.not_swept]
      cases moves_of_step ip s u a hst with
      | resolve c' l call' hc' =>
        obtain rfl : c' = c := ho
        obtain rfl := Option.some.inj (hc.symm.trans hc')
        have hl : Resolves c' call.dg.address [.resolve (T := T) c' l] ↔
            (resolveTarget call.dg.address l).isOk := by
          simp [Resolves]
        rw [hl]
        unfold State.resolve at hr hu'
        cases hres : resolveTarget call.dg.address l with
        | error e' =>
          rw [hres] at hr hu'
          obtain ⟨-,-,hgone⟩ := run_landed ip as _ t hr hu' (Function.update_self ..) hn
          rw [hgone]
          simp [Except.isOk, Except.toBool, State.finish]
        | ok target =>
          rw [hres] at hr hu'
          have hi := ih _ { call with phase := .sending target } hr hu' (Function.update_self ..)
            hk hn he
          rw [hi]
          simp [Except.isOk, Except.toBool, State.enter]
      | sendTo c' ok call' target hc' =>
        obtain rfl : c' = c := ho
        obtain rfl := Option.some.inj (hc.symm.trans hc')
        have hl : Resolves c' call.dg.address [.sendTo (T := T) c' ok] := by simp [Resolves]
        rw [and_iff_right hl]
        cases ok with
        | false =>
          exact ih (s.sendTo c' call false) { call with phase := .removing } hr hu' (Function.update_self ..) hk hn he
        | true =>
          obtain ⟨-,hret,-⟩ := run_landed ip as _ t hr hu' (Function.update_self ..) hn
          have hf : (s.sendTo c' call true).returned c' = s.returned c'++[.ok ()] :=
            (returned_finish _ c' c' _).trans (by rw [if_pos rfl]; rfl)
          rw [hret, hf] at he
          cases List.append_cancel_left he
      | remove c' call' hc' =>
        obtain rfl : c' = c := ho
        obtain rfl := Option.some.inj (hc.symm.trans hc')
        have hl : Resolves c' call.dg.address [.remove (T := T) c'] := by simp [Resolves]
        have hnone : (s.remove c' call).manager.sessions.lookup key = none := by
          rw [remove_manager, UdpManager.lookup_removeSession, if_pos hk.symm]
        have hn' : ∀ ses, (s.remove c' call).manager.sessions.lookup key = some ses →
            ses.lastActive = now := by
          intro ses hs
          rw [hnone] at hs
          cases hs
        obtain ⟨hres,-,hgone⟩ := run_landed ip as _ t hr hu' (Function.update_self ..) hn'
        rw [hgone]
        exact iff_of_true (Or.inl hnone) (Or.inl ⟨hl,hres _⟩)
      | forward | sweep | receive | stop | socketError => cases ho
    · have ha := step_away ip s u a hst hu.1 ho hn
      have hi := ih u call hr hu' (ha.calls.trans hc) hk (fun ses hs => hn ses (ha.kept ses hs))
        (by rw [he, ha.returned])
      rw [hi, ha.gone, and_iff_right (resolves_of_not_own ho), or_assoc]

theorem own_elsewhere (ip : T → Address.IpAddr) (as : List (Act T)) (s t : State T)
    (hr : run (step ip) as s = some t) (ho : ∀ a ∈ as, Own c a)
    (hc : ∀ call, s.calls c = some call → call.key = key) (k : SessionKey) (hne : k ≠ key) :
    t.manager.sessions.lookup k = s.manager.sessions.lookup k := by
  induction as generalizing s with
  | nil =>
    cases hr
    rfl
  | cons a as ih =>
    obtain ⟨u,hst,hr⟩ := run_cons.mp hr
    have hown : Own c a := ho a (List.mem_cons_self ..)
    have hrest : ∀ b ∈ as, Own c b := fun b hb => ho b (List.mem_cons_of_mem _ hb)
    have hend : ∀ (v : State T) (x : Option (Call T)), v.calls = Function.update s.calls c x →
        (∀ call, x = some call → call.key = key) → ∀ call, v.calls c = some call →
          call.key = key := by
      intro v x hv hx call hcall
      rw [hv, Function.update_self] at hcall
      exact hx call hcall
    cases moves_of_step ip s u a hst with
    | resolve c' l call hcall =>
      obtain rfl : c' = c := hown
      obtain ⟨r,he | ⟨phase,he⟩⟩ := resolve_quiet s c' call l <;> rw [he] at hr
      · exact ih (s.finish c' r) hr hrest (hend _ none rfl nofun)
      · refine ih (s.enter c' { call with phase := phase }) hr hrest
          (hend _ (some { call with phase := phase }) rfl ?_)
        rintro _ ⟨⟩
        exact hc call hcall
    | sendTo c' ok call target hcall =>
      obtain rfl : c' = c := hown
      cases ok with
      | true => exact ih (s.sendTo c' call true) hr hrest (hend _ none rfl nofun)
      | false =>
        refine ih (s.sendTo c' call false) hr hrest
          (hend _ (some { call with phase := .removing }) rfl ?_)
        rintro _ ⟨⟩
        exact hc call hcall
    | remove c' call hcall =>
      obtain rfl : c' = c := hown
      rw [ih _ hr hrest (hend _ none ?_ nofun), remove_manager, UdpManager.lookup_removeSession,
        hc call hcall, if_neg hne]
      rw [State.remove]
      exact congrArg (Function.update · c' none) (notify_frame _ _).2.2.1
    | forward | sweep | receive | stop | socketError => cases hown

end Away

def FailsAfter (ip : T → Address.IpAddr) (c : ℕ) (upstream : T) (dg : Datagram) (now : ℕ)
    (as : List (Act T)) (s t : State T) : Prop :=
  ∃ bind u e, step ip s (.forward c upstream dg now bind) = some u ∧
    s.manager.sessions.lookup (ip upstream,dg.sessionId) = none ∧
    u.manager.sessions.lookup (ip upstream,dg.sessionId) ≠ none ∧
    run (step ip) as u = some t ∧ Meets (step ip) (Undisturbed ip c (ip upstream,dg.sessionId)) as u ∧
    t.returned c = s.returned c++[.error e]

theorem forward_opens (ip : T → Address.IpAddr) (s u : State T) (c : ℕ) (upstream : T)
    (dg : Datagram) (now : ℕ) (bind : Bool)
    (hst : step ip s (.forward c upstream dg now bind) = some u)
    (hs : s.manager.sessions.lookup (ip upstream,dg.sessionId) = none)
    (hu : u.manager.sessions.lookup (ip upstream,dg.sessionId) ≠ none) :
    u.returned c = s.returned c ∧
      u.calls c = some ⟨upstream,(ip upstream,dg.sessionId),dg,s.nextSocket,.resolving⟩ ∧
      ∀ key, u.manager.sessions.lookup key = if key = (ip upstream,dg.sessionId)
        then some ⟨s.nextSocket,now,ip upstream⟩ else s.manager.sessions.lookup key := by
  simp only [step] at hst
  split_ifs at hst
  cases hst
  rcases forward_cases ip s c upstream dg now bind with ⟨ses,hl,-⟩ | ⟨p,g,he⟩ | ⟨e,he⟩
  · rw [hs] at hl
    cases hl
  · rw [he]
    refine ⟨rfl,Function.update_self ..,fun key => ?_⟩
    split_ifs with hk
    · rw [hk]
      exact AList.lookup_insert _
    · exact AList.lookup_insert_ne hk
  · rw [he] at hu
    exact absurd hs hu

/-- A failed call leaves no trace exactly when its target was resolved, until a
sweep finds what it left; and if nothing else happens in between, everything
is then as it was before. -/
theorem failed_forward_iff (ip : T → Address.IpAddr) (maxSessions maxPerIp : UInt64)
    (as bs : List (Act T)) (s t : State T) (c : ℕ) (upstream : T) (dg : Datagram) (now : ℕ)
    (hr : run (step ip) as (.init maxSessions.toNat maxPerIp.toNat) = some s)
    (hf : FailsAfter ip c upstream dg now bs s t) :
    Traceless (ip upstream,dg.sessionId) s.manager ∧
      (Traceless (ip upstream,dg.sessionId) t.manager ↔
        Resolves c dg.address bs ∨ SweptAfter now bs) ∧
      ((∀ a ∈ bs, Own c a) → (SameBooks s.manager t.manager ↔ Resolves c dg.address bs)) := by
  obtain ⟨bind,u,e,hst,hs,hu,hb,hm,he⟩ := hf
  have htab : ∀ v as, run (step ip) as (.init maxSessions.toNat maxPerIp.toNat) = some v →
      Tabled _ _ v.manager := fun v as hv =>
    (session_table_invariant ip maxSessions maxPerIp as v hv).1
  have hts := htab s as hr
  have htt := htab t (as++.forward c upstream dg now bind::bs) (by
    rw [run_append, hr]
    exact run_cons.mpr ⟨u,hst,hb⟩)
  obtain ⟨hret,hcall,hl⟩ := forward_opens ip s u c upstream dg now bind hst hs hu
  have hnow : ∀ ses, u.manager.sessions.lookup (ip upstream,dg.sessionId) = some ses →
      ses.lastActive = now := by
    intro ses hses
    rw [hl, if_pos rfl] at hses
    cases hses
    rfl
  have hgone := run_failed ip bs u t _ e hb hm hcall rfl hnow (by rw [hret, he])
  rw [or_iff_right hu] at hgone
  refine ⟨(hts.traceless_iff _).mpr hs,(htt.traceless_iff _).trans hgone,fun ho => ?_⟩
  have hsw : ¬SweptAfter now bs := by
    rintro ⟨later,hmem,-⟩
    exact ho _ hmem
  rw [or_iff_left hsw] at hgone
  constructor
  · intro h
    exact hgone.mp ((h.sessions _).trans hs)
  · intro h
    refine hts.sameBooks htt fun key => ?_
    rcases eq_or_ne key (ip upstream,dg.sessionId) with rfl | hne
    · exact (hgone.mpr h).trans hs.symm
    · have hkey : ∀ call, u.calls c = some call → call.key = (ip upstream,dg.sessionId) := by
        intro call hc
        rw [hcall] at hc
        cases hc
        rfl
      rw [own_elsewhere ip bs u t hb ho hkey key hne, hl, if_neg hne]

def nameDatagram : Datagram := .new 7 (.domain (ascii "gone") 53) [1]

/-- The target is known and the send fails: the session is removed again. -/
theorem refused_send_restores :
    ∃ s t : State Bool, FailsAfter (fun _ => natAddr) 0 false natDatagram 0
        [.resolve 0 (.ok []),.sendTo 0 false,.remove 0] s t ∧ SameBooks s.manager t.manager := by
  have hr : ∃ u t : State Bool,
      step (fun _ => natAddr) (.init (4096 : UInt64).toNat (64 : UInt64).toNat)
        (.forward 0 false natDatagram 0 true) = some u ∧
      u.manager.sessions.lookup (natAddr,7) ≠ none ∧
      run (step fun _ => natAddr) [.resolve 0 (.ok []),.sendTo 0 false,.remove 0] u = some t ∧
      t.returned 0 = [.error .io] := ⟨_,_,rfl,by decide,rfl,rfl⟩
  obtain ⟨u,t,hst,hu,hb,he⟩ := hr
  have hf : FailsAfter (fun _ => natAddr) 0 false natDatagram 0
      [.resolve 0 (.ok []),.sendTo 0 false,.remove 0]
      (.init (4096 : UInt64).toNat (64 : UInt64).toNat) t :=
    ⟨true,u,.io,hst,rfl,hu,hb,⟨trivial,fun _ _ => ⟨trivial,fun _ _ =>
      ⟨fun h => absurd rfl h,fun _ _ => trivial⟩⟩⟩,he⟩
  refine ⟨_,t,hf,?_⟩
  obtain ⟨-,-,h⟩ := failed_forward_iff (fun _ => natAddr) 4096 64 [] _ _ t 0 false natDatagram 0
    rfl hf
  refine (h (by simp [Own])).mpr fun l _ => ?_
  rfl

/-- The name is unknown: the session stays and counts against the caps. -/
theorem unknown_name_leaves_session :
    ¬∀ (ip : Bool → Address.IpAddr) (maxSessions maxPerIp : UInt64) (as bs : List (Act Bool))
      (s t : State Bool) (c : ℕ) (upstream : Bool) (dg : Datagram) (now : ℕ),
      run (step ip) as (.init maxSessions.toNat maxPerIp.toNat) = some s →
      FailsAfter ip c upstream dg now bs s t → (∀ a ∈ bs, Own c a) →
        SameBooks s.manager t.manager := by
  intro h
  have hr : ∃ u t : State Bool,
      step (fun _ => natAddr) (.init (4096 : UInt64).toNat (64 : UInt64).toNat)
        (.forward 0 false nameDatagram 0 true) = some u ∧
      u.manager.sessions.lookup (natAddr,7) ≠ none ∧
      run (step fun _ => natAddr) [.resolve 0 (.ok [])] u = some t ∧
      t.manager.sessions.lookup (natAddr,7) ≠ none ∧
      t.returned 0 = [.error (.invalidData "no address for domain")] :=
    ⟨_,_,rfl,by decide,rfl,by decide,rfl⟩
  obtain ⟨u,t,hst,hu,hb,ht,he⟩ := hr
  have hf : FailsAfter (fun _ => natAddr) 0 false nameDatagram 0 [.resolve 0 (.ok [])]
      (.init (4096 : UInt64).toNat (64 : UInt64).toNat) t :=
    ⟨true,u,_,hst,rfl,hu,hb,⟨trivial,fun _ _ => trivial⟩,he⟩
  exact ht ((h (fun _ => natAddr) 4096 64 [] _ _ t 0 false nameDatagram 0 rfl hf
    (by simp [Own])).sessions _)

end Hydr.Udp
