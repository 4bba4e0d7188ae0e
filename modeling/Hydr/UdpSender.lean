import Mathlib
import Hydr.UdpAssociation

/-!
# Whose packets a session carries

The first well-formed packet on its socket gives a session its client address,
and the replies go there. The task forwards what it reads without a look at that
address, so that any other local sender gets its packets into the session, whose
answers then go to the first.
-/

set_option autoImplicit false

namespace Hydr.UdpRelay
open Message Udp Transition
open Table (lookup_insert_cases lookup_of_erase)

def flow (s : State) : Act → Option (UInt32 × ℕ × SocketAddr)
  | .packet c source bytes =>
    match s.tasks c with
    | none => none
    | some task =>
      match relayPacket task.sid s.tunnel bytes, s.sessions.lookup task.sid with
      | .sent _ true, some ses => if task.phase = .running then some (task.sid,ses.socket,source) else none
      | _, _ => none
  | _ => none

def flows : List Act → State → List (ℕ × SocketAddr)
  | [], _ => []
  | a::as, s =>
    ((flow s a).map Prod.snd).toList++
      match step s a with
      | none => []
      | some t => flows as t

def ForwardsOwn (s : State) (a : Act) : Prop := ∀ t sid socket source,
  step s a = some t → flow s a = some (sid,socket,source) →
    t.sessions.lookup sid = some ⟨socket,some source⟩

def FromOwner (s : State) : Act → Prop
  | .packet c source bytes => ∀ task ses addr dg, s.tasks c = some task → task.phase = .running →
    relayPacket task.sid s.tunnel bytes = .sent dg true →
    s.sessions.lookup task.sid = some ses → ses.clientAddr = some addr → source = addr
  | _ => True

def Returned (fl : List (ℕ × SocketAddr)) (s : State) : Prop :=
  ∀ f ∈ fl, ∀ r ∈ s.replies, r.1 = f.1 → r.2.1 = f.2

def dealings (fl : List (ℕ × SocketAddr)) (s : State) : List (ℕ × SocketAddr) :=
  fl++s.replies.map fun r => (r.1,r.2.1)

def Known (fl : List (ℕ × SocketAddr)) (s : State) (k : ℕ) : Prop :=
  (∃ p ∈ dealings fl s, p.1 = k) ∨ ∃ sid ses, s.sessions.lookup sid = some ses ∧ ses.socket = k

structure Pinned (fl : List (ℕ × SocketAddr)) (s : State) : Prop where
  agree : ∀ p ∈ dealings fl s, ∀ q ∈ dealings fl s, p.1 = q.1 → p.2 = q.2
  entry : ∀ sid ses, s.sessions.lookup sid = some ses → ∀ p ∈ dealings fl s, p.1 = ses.socket →
    ses.clientAddr = some p.2
  distinct : ∀ sid sid' ses ses', s.sessions.lookup sid = some ses →
    s.sessions.lookup sid' = some ses' → ses.socket = ses'.socket → sid = sid'
  entered : ∀ k, Known fl s k → k < s.nextCall ∧
    ∀ call, s.calls.lookup k = some call → call.stage ≠ .inserting

theorem flow_cases (s : State) (a : Act) (sid : UInt32) (socket : ℕ) (source : SocketAddr)
    (h : flow s a = some (sid,socket,source)) : ∃ c bytes task ses dg, a = .packet c source bytes ∧
      s.tasks c = some task ∧ task.phase = .running ∧ task.sid = sid ∧
      relayPacket sid s.tunnel bytes = .sent dg true ∧
      s.sessions.lookup sid = some ses ∧ ses.socket = socket := by
  cases a with
  | packet c src bytes =>
    simp only [flow] at h
    split at h
    · cases h
    · rename_i task ht
      split at h
      · rename_i dg ses hp hl
        split_ifs at h with hr
        cases h
        exact ⟨c,bytes,task,ses,dg,rfl,ht,hr,rfl,hp,hl,rfl⟩
      · cases h
  | _ => cases h

theorem receive_forwards (s : State) (c : ℕ) (task : Task) (source : SocketAddr) (bytes : Bytes)
    (ses : RelaySession) (dg : Datagram) (hp : relayPacket task.sid s.tunnel bytes = .sent dg true)
    (hl : s.sessions.lookup task.sid = some ses) :
    (s.receive c task source bytes).sessions =
      s.sessions.insert task.sid { ses with clientAddr := some (ses.clientAddr.getD source) } := by
  unfold State.receive
  simp only [hp, hl, State.mark, if_true]

theorem forwardsOwn_iff (s : State) (a : Act) : ForwardsOwn s a ↔ FromOwner s a := by
  constructor
  · intro h
    cases a with
    | packet c source bytes =>
      intro task ses addr dg ht hr hp hl ha
      have hst : step s (.packet c source bytes) = some (s.receive c task source bytes) := by
        simp only [step, ht, hr, if_true]
      have hf : flow s (.packet c source bytes) = some (task.sid,ses.socket,source) := by
        simp only [flow, ht, hp, hl, hr, if_true]
      have hs := h _ _ _ _ hst hf
      rw [receive_forwards s c task source bytes ses dg hp hl, AList.lookup_insert, ha] at hs
      exact (Option.some.inj (congrArg RelaySession.clientAddr (Option.some.inj hs))).symm
    | _ => trivial
  · intro h t sid socket source hst hf
    obtain ⟨c,bytes,task,ses,dg,rfl,ht,hr,rfl,hp,hl,rfl⟩ := flow_cases s a sid socket source hf
    simp only [step, ht, hr, if_true] at hst
    cases hst
    rw [receive_forwards s c task source bytes ses dg hp hl, AList.lookup_insert]
    cases ha : ses.clientAddr with
    | none => rfl
    | some addr =>
      obtain rfl := h task ses addr dg ht hr hp hl ha
      rfl

theorem init_pinned (t : TunnelHandle) : Pinned [] (.init t) where
  agree p hp := by cases hp
  entry _ _ h := by cases h
  distinct _ _ _ _ h := by cases h
  entered k h := by
    rcases h with ⟨p,hp,-⟩ | ⟨sid,ses,hl,-⟩
    · cases hp
    · cases hl

theorem Pinned.unsent {fl : List (ℕ × SocketAddr)} {s t : State} {a : Act} (hf : flow s a = none)
    (h : Pinned fl t) : Pinned (fl++((flow s a).map Prod.snd).toList) t := by
  rw [hf, Option.map_none, Option.toList_none, List.append_nil]
  exact h

namespace Pinned

variable {fl : List (ℕ × SocketAddr)} {s t : State} (h : Pinned fl s)
include h

theorem quiet (hs : t.sessions = s.sessions) (hr : t.replies = s.replies)
    (hn : s.nextCall ≤ t.nextCall) (hc : ∀ k call, t.calls.lookup k = some call →
      call.stage = .inserting → s.calls.lookup k = some call ∨ s.nextCall ≤ k) : Pinned fl t where
  agree := by
    unfold dealings
    rw [hr]
    exact h.agree
  entry := by
    unfold dealings
    rw [hs, hr]
    exact h.entry
  distinct := hs ▸ h.distinct
  entered k hk := by
    have hk' : Known fl s k := by
      unfold Known dealings at hk ⊢
      rwa [hs, hr] at hk
    obtain ⟨hlt,hst⟩ := h.entered k hk'
    refine ⟨hlt.trans_le hn,fun call hl hi => ?_⟩
    rcases hc k call hl hi with hl | hle
    · exact hst call hl hi
    · omega

theorem enter (c : ℕ) (call : Call) (hlt : c < s.nextCall) (hc : s.calls.lookup c = some call)
    (hi : call.stage = .inserting) : Pinned fl (s.enter c call) := by
  have hnew : ¬Known fl s c := fun hk => (h.entered c hk).2 call hc hi
  have hlook (sid : UInt32) (ses : RelaySession) (hl : (s.enter c call).sessions.lookup sid = some ses) :
      sid = call.sid ∧ ses = ⟨c,none⟩ ∨ s.sessions.lookup sid = some ses :=
    (lookup_insert_cases hl).imp_right And.right
  constructor
  · exact h.agree
  · intro sid ses hl p hp he
    rcases hlook sid ses hl with ⟨-,rfl⟩ | hl
    · exact absurd (Or.inl ⟨p,hp,he⟩) hnew
    · exact h.entry sid ses hl p hp he
  · intro sid sid' ses ses' hl hl' he
    rcases hlook sid ses hl with ⟨rfl,rfl⟩ | hl <;> rcases hlook sid' ses' hl' with ⟨rfl,rfl⟩ | hl'
    · rfl
    · exact absurd (Or.inr ⟨sid',ses',hl',he.symm⟩) hnew
    · exact absurd (Or.inr ⟨sid,ses,hl,he⟩) hnew
    · exact h.distinct sid sid' ses ses' hl hl' he
  · intro k hk
    have hk' : k = c ∨ Known fl s k := by
      rcases hk with hp | ⟨sid,ses,hl,rfl⟩
      · exact Or.inr (Or.inl hp)
      · rcases hlook sid ses hl with ⟨-,rfl⟩ | hl
        · exact Or.inl rfl
        · exact Or.inr (Or.inr ⟨sid,ses,hl,rfl⟩)
    refine ⟨hk'.elim (fun he => he ▸ hlt) fun hk => (h.entered k hk).1,fun call' hl => ?_⟩
    rcases lookup_insert_cases hl with ⟨rfl,rfl⟩ | ⟨hne,hl⟩
    · show Stage.replying ≠ Stage.inserting
      decide
    · exact (h.entered k (hk'.resolve_left hne)).2 call' hl

theorem erase (sid : UInt32) : Pinned fl { s with sessions := s.sessions.erase sid } := by
  constructor
  · exact h.agree
  · exact fun k ses hl => h.entry k ses (lookup_of_erase hl)
  · exact fun k k' ses ses' hl hl' =>
      h.distinct k k' ses ses' (lookup_of_erase hl) (lookup_of_erase hl')
  · intro k hk
    refine h.entered k ?_
    rcases hk with hp | ⟨k',ses,hl,he⟩
    · exact Or.inl hp
    · exact Or.inr ⟨k',ses,lookup_of_erase hl,he⟩

/-- A session deals with the address that it has, or with its first. -/
theorem deal {fl' : List (ℕ × SocketAddr)} (sid : UInt32) (ses : RelaySession) (addr : SocketAddr)
    (hl : s.sessions.lookup sid = some ses) (ha : ses.clientAddr.getD addr = addr)
    (hself : t.sessions.lookup sid = some { ses with clientAddr := some addr })
    (hother : ∀ k, k ≠ sid → t.sessions.lookup k = s.sessions.lookup k)
    (hd : ∀ p ∈ dealings fl' t, p ∈ dealings fl s ∨ p = (ses.socket,addr))
    (hn : t.nextCall = s.nextCall) (hc : t.calls = s.calls) : Pinned fl' t := by
  have hold : ∀ p ∈ dealings fl s, p.1 = ses.socket → p.2 = addr := by
    intro p hp he
    have hpin := h.entry sid ses hl p hp he
    rw [hpin] at ha
    exact ha
  have hall : ∀ p ∈ dealings fl' t, p.1 = ses.socket → p.2 = addr := by
    intro p hp he
    rcases hd p hp with hp | rfl
    · exact hold p hp he
    · rfl
  have hlook (k : UInt32) (u : RelaySession) (hk : t.sessions.lookup k = some u) :
      ∃ v, s.sessions.lookup k = some v ∧ v.socket = u.socket := by
    by_cases he : k = sid
    · subst he
      obtain rfl := Option.some.inj (hself.symm.trans hk)
      exact ⟨ses,hl,rfl⟩
    · exact ⟨u,(hother k he).symm.trans hk,rfl⟩
  constructor
  · intro p hp q hq he
    rcases hd p hp with hp' | rfl
    · rcases hd q hq with hq' | rfl
      · exact h.agree p hp' q hq' he
      · exact hall p hp he
    · exact (hall q hq he.symm).symm
  · intro k u hk p hp he
    by_cases hks : k = sid
    · subst hks
      obtain rfl := Option.some.inj (hself.symm.trans hk)
      rw [hall p hp he]
    · have hk' := (hother k hks).symm.trans hk
      rcases hd p hp with hp' | rfl
      · exact h.entry k u hk' p hp' he
      · exact absurd (h.distinct sid k ses u hl hk' he).symm hks
  · intro k k' u u' hk hk' he
    obtain ⟨v,hv,hvu⟩ := hlook k u hk
    obtain ⟨v',hv',hvu'⟩ := hlook k' u' hk'
    exact h.distinct k k' v v' hv hv' (by rw [hvu, hvu', he])
  · intro k hk
    rw [hn, hc]
    refine h.entered k ?_
    rcases hk with ⟨p,hp,he⟩ | ⟨k',u,hu,he⟩
    · rcases hd p hp with hp | rfl
      · exact Or.inl ⟨p,hp,he⟩
      · exact Or.inr ⟨sid,ses,hl,he⟩
    · obtain ⟨v,hv,hvu⟩ := hlook k' u hu
      exact Or.inr ⟨k',v,hv,hvu.trans he⟩

theorem mark (sid : UInt32) (ses : RelaySession) (source : SocketAddr) {fl' : List (ℕ × SocketAddr)}
    (hl : s.sessions.lookup sid = some ses)
    (hs : t.sessions = (s.mark sid ses source).sessions) (hr : t.replies = s.replies)
    (hf : fl' = fl ∨ fl' = fl++[(ses.socket,ses.clientAddr.getD source)])
    (hn : t.nextCall = s.nextCall) (hc : t.calls = s.calls) : Pinned fl' t := by
  refine h.deal sid ses (ses.clientAddr.getD source) hl ?_ ?_ ?_ ?_ hn hc
  · cases ses.clientAddr <;> rfl
  · rw [hs]
    exact AList.lookup_insert _
  · intro k hk
    rw [hs]
    exact AList.lookup_insert_ne hk
  · intro p hp
    unfold dealings at hp ⊢
    rw [hr] at hp
    rcases hf with rfl | rfl
    · exact Or.inl hp
    · rcases List.mem_append.mp hp with hp | hp
      · rcases List.mem_append.mp hp with hp | hp
        · exact Or.inl (List.mem_append_left _ hp)
        · exact Or.inr (List.mem_singleton.mp hp)
      · exact Or.inl (List.mem_append_right _ hp)

theorem receive (c : ℕ) (task : Task) (source : SocketAddr) (bytes : Bytes)
    (ht : s.tasks c = some task) (hp : task.phase = .running)
    (ho : FromOwner s (.packet c source bytes)) :
    Pinned (fl++((flow s (.packet c source bytes)).map Prod.snd).toList)
      (s.receive c task source bytes) := by
  have hq {u : State} (hs : u.sessions = s.sessions) (hr : u.replies = s.replies)
      (hn : u.nextCall = s.nextCall) (hc : u.calls = s.calls) : Pinned fl u :=
    h.quiet hs hr hn.ge fun k call hl _ => Or.inl (hc ▸ hl)
  cases ho' : relayPacket task.sid s.tunnel bytes with
  | skipped =>
    refine unsent (by simp only [flow, ht, ho']) ?_
    simp only [State.receive, ho']
    exact hq rfl rfl rfl rfl
  | failed dg =>
    refine unsent (by simp only [flow, ht, ho']) ?_
    cases hl : s.sessions.lookup task.sid with
    | none =>
      simp only [State.receive, ho', hl]
      exact hq rfl rfl rfl rfl
    | some ses =>
      simp only [State.receive, ho', hl]
      exact h.mark task.sid ses source hl rfl rfl (Or.inl rfl) rfl rfl
  | sent dg handed =>
    cases hl : s.sessions.lookup task.sid with
    | none =>
      refine unsent (by simp only [flow, ht, ho', hl]) ?_
      simp only [State.receive, ho', hl]
      exact hq rfl rfl rfl rfl
    | some ses =>
      cases handed with
      | false =>
        refine unsent (by simp only [flow, ht, ho', hl]) ?_
        simp only [State.receive, ho', hl]
        exact h.mark task.sid ses source hl rfl rfl (Or.inl rfl) rfl rfl
      | true =>
        have ha : ses.clientAddr.getD source = source := by
          cases hc : ses.clientAddr with
          | none => rfl
          | some addr => exact (ho task ses addr dg ht hp ho' hl hc).symm
        simp only [flow, ht, ho', hl, hp, State.receive, if_true, Option.map_some,
          Option.toList_some]
        exact h.mark task.sid ses source hl rfl rfl (Or.inr (by rw [ha])) rfl rfl

theorem routeReply (dg : Datagram) : Pinned fl (s.routeReply dg) := by
  unfold State.routeReply
  split
  · rename_i socket addr hl
    refine h.deal dg.sessionId ⟨socket,some addr⟩ addr hl rfl hl (fun _ _ => rfl) ?_ rfl rfl
    intro p hp
    unfold dealings at hp ⊢
    rw [List.map_append, ← List.append_assoc] at hp
    rcases List.mem_append.mp hp with hp | hp
    · exact Or.inl hp
    · exact Or.inr (List.mem_singleton.mp hp)
  · exact h

end Pinned

theorem step_pinned (fl : List (ℕ × SocketAddr)) (s : State) (a : Act) (t : State) (hg : Logged s)
    (h : Pinned fl s) (ho : FromOwner s a) (hst : step s a = some t) :
    Pinned (fl++((flow s a).map Prod.snd).toList) t := by
  have hset {k c : ℕ} {call call' : Call} (hl : (s.calls.insert c call').lookup k = some call)
      (hi : call.stage = .inserting) (hn : call'.stage ≠ .inserting) : s.calls.lookup k = some call := by
    rcases lookup_insert_cases hl with ⟨-,rfl⟩ | ⟨-,hl⟩
    · exact absurd hi hn
    · exact hl
  cases moves_of_step s t a hst with
  | refuse => exact Pinned.unsent rfl h
  | associate =>
    refine Pinned.unsent rfl (h.quiet rfl rfl (Nat.le_succ _) fun k call hl _ => ?_)
    rcases lookup_insert_cases hl with ⟨rfl,-⟩ | ⟨-,hl⟩
    · exact Or.inr le_rfl
    · exact Or.inl hl
  | insert c call hc hs => exact Pinned.unsent rfl (h.enter c call (hg.lt_of_call c call hc) hc hs)
  | reply c call hc hs =>
    exact Pinned.unsent rfl (h.quiet rfl rfl le_rfl fun k call hl hi => Or.inl (hset hl hi (by simp)))
  | replyFail c call hc hs =>
    exact Pinned.unsent rfl (h.quiet rfl rfl le_rfl fun k call hl _ => Or.inl (lookup_of_erase hl))
  | spawn c call hc hs =>
    refine Pinned.unsent rfl ?_
    unfold State.spawn
    split
    · exact h.quiet rfl rfl le_rfl fun k call hl _ => Or.inl (lookup_of_erase hl)
    · exact h.quiet rfl rfl le_rfl fun k call hl hi => Or.inl (hset hl hi (by simp))
  | controlEnd c call hc hs =>
    exact Pinned.unsent rfl (h.quiet rfl rfl le_rfl fun k call hl _ => Or.inl (lookup_of_erase hl))
  | packet c source bytes task ht hp => exact h.receive c task source bytes ht hp ho
  | recvError c task ht hp =>
    exact Pinned.unsent rfl (h.quiet rfl rfl le_rfl fun k call hl _ => Or.inl hl)
  | remove c task ht hp =>
    have he := h.erase task.sid
    exact Pinned.unsent rfl (he.quiet rfl rfl le_rfl fun k call hl _ => Or.inl hl)
  | routeReply dg => exact Pinned.unsent rfl (h.routeReply dg)
  | reconnect tunnel =>
    exact Pinned.unsent rfl (h.quiet rfl rfl le_rfl fun k call hl _ => Or.inl hl)

theorem run_pinned (as : List Act) (fl : List (ℕ × SocketAddr)) (s t : State) (hg : Logged s)
    (h : Pinned fl s) (hm : Meets step FromOwner as s) (hr : run step as s = some t) :
    Pinned (fl++flows as s) t := by
  induction as generalizing fl s with
  | nil =>
    cases hr
    rwa [flows, List.append_nil]
  | cons a as ih =>
    obtain ⟨u,hu,hr⟩ := run_cons.mp hr
    have hp := step_pinned fl s a u hg h hm.1 hu
    have hn := ih _ u (step_logged s a u hg hu) hp (hm.2 u hu) hr
    rw [flows, hu, ← List.append_assoc]
    exact hn

theorem Pinned.returned {fl : List (ℕ × SocketAddr)} {s : State} (h : Pinned fl s) :
    Returned fl s := by
  intro f hf r hr he
  have hp : (r.1,r.2.1) ∈ dealings fl s :=
    List.mem_append_right _ (List.mem_map_of_mem (f := fun r => (r.1,r.2.1)) hr)
  exact h.agree _ hp f (List.mem_append_left _ hf) he

def RepliesToSender (t : TunnelHandle) (as : List Act) : Prop :=
  Meets step ForwardsOwn as (.init t) ∧
  ∀ bs cs s, as = bs++cs → run step bs (.init t) = some s → Returned (flows bs (.init t)) s

/-- A run returns its replies to their senders exactly when every packet that it
forwards comes from the address that the session has recorded, if any. -/
theorem replies_to_sender_iff (t : TunnelHandle) (as : List Act) :
    RepliesToSender t as ↔ Meets step FromOwner as (.init t) := by
  constructor
  · exact fun h => meets_mono (fun s a hf => (forwardsOwn_iff s a).mp hf) as _ h.1
  · intro h
    refine ⟨meets_mono (fun s a hf => (forwardsOwn_iff s a).mpr hf) as _ h,?_⟩
    intro bs cs s he hr
    subst he
    have hp := run_pinned bs [] _ s (init_logged t) (init_pinned t) (meets_left bs cs _ h) hr
    exact hp.returned

def owner : SocketAddr := (.v4 (.replicate 4 127),4000)

def stranger : SocketAddr := (.v4 (.replicate 4 127),4001)

def strangerRun : List Act :=
  [.associate true,.insert 0,.reply 0 true,.spawn 0,
    .packet 0 owner [0,0,0,1,127,0,0,1,0,53,42],.packet 0 stranger [0,0,0,1,127,0,0,1,0,53,43],
    .routeReply (.new 1 (.domain [] 53) [7])]

theorem stranger_forwarded : ¬∀ t as, RepliesToSender t as := by
  intro h
  have hrun : ∃ s, run step strangerRun (.init (.quic true 1200)) = some s ∧
      (0,stranger) ∈ flows strangerRun (.init (.quic true 1200)) ∧
      s.replies.map (fun r => (r.1,r.2.1)) = [(0,owner)] := ⟨_,rfl,by decide,rfl⟩
  obtain ⟨s,hr,hf,hp⟩ := hrun
  have hm : (0,owner) ∈ s.replies.map fun r => (r.1,r.2.1) := by
    rw [hp]
    exact List.mem_singleton_self _
  obtain ⟨r,hrep,he⟩ := List.mem_map.mp hm
  obtain ⟨h1,h2⟩ := Prod.mk.inj he
  have hs := (h _ _).2 strangerRun [] s (List.append_nil _).symm hr _ hf r hrep h1
  exact absurd (h2.symm.trans hs) (by decide)

end Hydr.UdpRelay
