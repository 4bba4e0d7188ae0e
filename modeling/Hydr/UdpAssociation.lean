import Mathlib
import Hydr.Library.Table
import Hydr.UdpRelay

/-!
# The lifetime of an association

Nothing but the relay task takes a session out of the table, and the task knows
nothing of the control connection. So an association is gone after its call
exactly when its task has ended before; and the task ends with the first send
that fails.
-/

set_option autoImplicit false

namespace Hydr.UdpRelay
open Message Transition Udp

def own (sid : UInt32) (p : TunnelHandle × Bytes) : Option Datagram :=
  match relayPacket sid p.1 p.2 with
  | .sent dg true => some dg
  | _ => none

def Fails (sid : UInt32) (p : TunnelHandle × Bytes) : Prop :=
  ∃ dg, relayPacket sid p.1 p.2 = .failed dg

theorem own_of_fails (sid : UInt32) (p : TunnelHandle × Bytes) (h : Fails sid p) :
    own sid p = none := by
  obtain ⟨dg,h⟩ := h
  simp only [own, h]

theorem relayTask_cons (sid : UInt32) (p : TunnelHandle × Bytes) (ps : List (TunnelHandle × Bytes))
    (h : ¬Fails sid p) : relayTask sid (p::ps) = (own sid p).toList++relayTask sid ps := by
  obtain ⟨t,packet⟩ := p
  cases hr : relayPacket sid t packet with
  | skipped => simp [relayTask, own, hr]
  | sent dg handed => cases handed <;> simp [relayTask, own, hr]
  | failed dg => exact absurd ⟨dg,hr⟩ h

theorem relayTask_fails (sid : UInt32) (p : TunnelHandle × Bytes)
    (ps : List (TunnelHandle × Bytes)) (h : Fails sid p) : relayTask sid (p::ps) = [] := by
  obtain ⟨t,packet⟩ := p
  obtain ⟨dg,h⟩ := h
  simp only [relayTask, h]

theorem relayTask_snoc (sid : UInt32) (ps : List (TunnelHandle × Bytes)) (p : TunnelHandle × Bytes)
    (h : ∀ q ∈ ps, ¬Fails sid q) :
    relayTask sid (ps++[p]) = relayTask sid ps++(own sid p).toList := by
  induction ps with
  | nil =>
    by_cases hp : Fails sid p
    · rw [List.nil_append, relayTask_fails sid p [] hp, own_of_fails sid p hp]
      rfl
    · rw [List.nil_append, relayTask_cons sid p [] hp]
      simp [relayTask]
  | cons q qs ih =>
    rw [List.cons_append, relayTask_cons sid q _ (h q (by simp)), ih fun r hr => h r (by simp [hr]),
      relayTask_cons sid q _ (h q (by simp)), List.append_assoc]

/-- Every packet whose own send succeeds is forwarded exactly when none of them
comes after a packet whose send failed. -/
theorem relayTask_eq_iff (sid : UInt32) (ps : List (TunnelHandle × Bytes)) :
    relayTask sid ps = ps.filterMap (own sid) ↔
      ps.Pairwise fun p q => Fails sid p → own sid q = none := by
  induction ps with
  | nil => simp [relayTask]
  | cons p ps ih =>
    rw [List.pairwise_cons]
    by_cases hp : Fails sid p
    · rw [relayTask_fails sid p ps hp, List.filterMap_cons_none (own_of_fails sid p hp), eq_comm,
        List.filterMap_eq_nil_iff]
      refine ⟨fun h => ⟨fun q hq _ => h q hq,?_⟩,fun h q hq => h.1 q hq hp⟩
      exact List.pairwise_of_forall_mem_list fun q _ r hr _ => h r hr
    · rw [relayTask_cons sid p ps hp]
      have hf : (p::ps).filterMap (own sid) = (own sid p).toList++ps.filterMap (own sid) := by
        cases ho : own sid p <;> simp [ho]
      rw [hf, List.append_cancel_left_eq, ih]
      exact ⟨fun h => ⟨fun q _ hp' => absurd hp' hp,h⟩,And.right⟩

/-- A packet while the tunnel is down, and one after the reconnect. -/
theorem reconnect_finds_no_task :
    ¬∀ (sid : UInt32) (ps : List (TunnelHandle × Bytes)),
      relayTask sid ps = ps.filterMap (own sid) := by
  intro h
  have hb := h 1 [(.quic false 1200,[0,0,0,1,127,0,0,1,0,53,42]),
    (.quic true 1200,[0,0,0,1,127,0,0,1,0,53,42])]
  exact absurd (congrArg List.length hb) (by decide)

structure Released (s : State) (c : ℕ) : Prop where
  task : ∀ task, s.tasks c = some task → task.phase = .ended ∨ task.phase = .panicked
  session : ∀ sid ses, s.sessions.lookup sid = some ses → ses.socket ≠ c

structure Tidy (s : State) : Prop where
  returned : ∀ c, c ∉ s.calls → Released s c
  bounded : s.sessions.entries.length ≤ s.calls.entries.length

theorem Tidy.empty {s : State} (h : Tidy s) (hc : s.calls.entries = []) :
    s.sessions.entries = [] :=
  List.length_eq_zero_iff.mp (Nat.le_zero.mp (h.bounded.trans_eq (by rw [hc]; rfl)))

def ReturnsReleased (s : State) : Act → Prop
  | .controlEnd c => ∀ call, s.calls.lookup c = some call → call.stage = .watching → Released s c
  | .reply c false => ∀ call, s.calls.lookup c = some call → call.stage = .replying → Released s c
  | _ => True

structure Held (s : State) : Prop where
  session : ∀ sid ses, s.sessions.lookup sid = some ses →
    ∃ call, s.calls.lookup ses.socket = some call ∧ call.sid = sid
  task : ∀ c task, s.tasks c = some task →
    (∃ call, s.calls.lookup c = some call ∧ call.stage = .watching) ∨
      c ∉ s.calls ∧ (task.phase = .ended ∨ task.phase = .panicked)
  fresh : ∀ c, s.nextCall ≤ c → c ∉ s.calls ∧ s.tasks c = none

theorem mem_of_lookup {s : State} {c : ℕ} {call : Call} (h : s.calls.lookup c = some call) :
    c ∈ s.calls := AList.lookup_isSome.mp (by simp [h])

theorem ne_of_call {s : State} {c c' : ℕ} {call : Call} (h : s.calls.lookup c = some call)
    (hn : c' ∉ s.calls) : c' ≠ c := by
  rintro rfl
  exact hn (mem_of_lookup h)

theorem notMem_setCall {s : State} {c c' : ℕ} (call : Call) (hne : c' ≠ c) (h : c' ∉ s.calls) :
    c' ∉ (s.setCall c call).calls :=
  fun hm => ((AList.mem_insert _).mp hm).elim hne h

theorem Held.bounded {s : State} (h : Held s) :
    s.sessions.entries.length ≤ s.calls.entries.length := by
  -- each session is sent to the call that entered it, and a call has one id
  have hinj : s.sessions.entries.Pairwise fun a b => a.2.socket ≠ b.2.socket := by
    have hn := s.sessions.nodupKeys
    rw [List.nodupKeys_iff_pairwise] at hn
    refine hn.imp_of_mem fun {a b} ha hb hne he => hne ?_
    obtain ⟨call,hc,hs⟩ := h.session a.1 a.2 (AList.mem_lookup_iff.mpr ha)
    obtain ⟨call',hc',hs'⟩ := h.session b.1 b.2 (AList.mem_lookup_iff.mpr hb)
    rw [he] at hc
    obtain rfl := Option.some.inj (hc.symm.trans hc')
    exact hs.symm.trans hs'
  have hsub : s.sessions.entries.map (fun e => e.2.socket) ⊆ s.calls.keys := by
    intro c hc
    obtain ⟨e,he,rfl⟩ := List.mem_map.mp hc
    obtain ⟨call,hcall,-⟩ := h.session e.1 e.2 (AList.mem_lookup_iff.mpr he)
    exact AList.mem_keys.mpr (mem_of_lookup hcall)
  have hnd : (s.sessions.entries.map fun e => e.2.socket).Nodup := List.pairwise_map.mpr hinj
  have hle := (hnd.subperm hsub).length_le
  simpa [AList.keys, List.keys] using hle

theorem Held.tidy {s : State} (h : Held s) : Tidy s where
  bounded := h.bounded
  returned c hc :=
    { task := fun task ht => by
        rcases h.task c task ht with ⟨call,hcall,-⟩ | ⟨-,hp⟩
        · exact absurd (mem_of_lookup hcall) hc
        · exact hp
      session := fun sid ses hs he => by
        obtain ⟨call,hcall,-⟩ := h.session sid ses hs
        rw [he] at hcall
        exact hc (mem_of_lookup hcall) }

theorem init_held (t : TunnelHandle) : Held (.init t) :=
  ⟨fun _ _ h => (by cases h),fun _ _ h => (by cases h),fun _ _ => ⟨AList.notMem_empty _,rfl⟩⟩

namespace Held

variable {s : State} (h : Held s)
include h

theorem same {t : State} (hc : t.calls = s.calls) (hs : t.sessions = s.sessions)
    (ht : t.tasks = s.tasks) (hn : t.nextCall = s.nextCall) : Held t := by
  constructor
  · rw [hs, hc]
    exact h.session
  · rw [ht, hc]
    exact h.task
  · rw [hn, hc, ht]
    exact h.fresh

theorem setCall (c : ℕ) (call : Call) (stage : Stage) (hc : s.calls.lookup c = some call)
    (hs : call.stage ≠ .watching) : Held (s.setCall c { call with stage := stage }) where
  session sid ses hl := by
    obtain ⟨call',hc',hs'⟩ := h.session sid ses hl
    rcases eq_or_ne ses.socket c with he | hne
    · rw [he] at hc' ⊢
      obtain rfl := Option.some.inj (hc.symm.trans hc')
      exact ⟨_,AList.lookup_insert _,hs'⟩
    · exact ⟨call',(AList.lookup_insert_ne hne).trans hc',hs'⟩
  task c' task ht := by
    rcases h.task c' task ht with ⟨call',hc',hw⟩ | ⟨hn,hp⟩
    · rcases eq_or_ne c' c with rfl | hne
      · obtain rfl := Option.some.inj (hc.symm.trans hc')
        exact absurd hw hs
      · exact Or.inl ⟨call',(AList.lookup_insert_ne hne).trans hc',hw⟩
    · exact Or.inr ⟨notMem_setCall _ (ne_of_call hc hn) hn,hp⟩
  fresh c' hle := by
    have hn := (h.fresh c' hle).1
    exact ⟨notMem_setCall _ (ne_of_call hc hn) hn,(h.fresh c' hle).2⟩

theorem setTask (c : ℕ) (call : Call) (task : Task) (hc : s.calls.lookup c = some call)
    (hw : call.stage = .watching) : Held (s.setTask c task) where
  session := h.session
  task c' task' ht := by
    rcases eq_or_ne c' c with rfl | hne
    · exact Or.inl ⟨call,hc,hw⟩
    · exact h.task c' task' ((Function.update_of_ne hne _ _).symm.trans ht)
  fresh c' hle := by
    have hne : c' ≠ c := ne_of_call hc (h.fresh c' hle).1
    exact ⟨(h.fresh c' hle).1,(Function.update_of_ne hne _ _).trans (h.fresh c' hle).2⟩

theorem finish (c : ℕ) (hr : Released s c) : Held (s.finish c) where
  session sid ses hl := by
    obtain ⟨call,hc,hs⟩ := h.session sid ses hl
    exact ⟨call,(AList.lookup_erase_ne (hr.session sid ses hl)).trans hc,hs⟩
  task c' task ht := by
    rcases eq_or_ne c' c with rfl | hne
    · exact Or.inr ⟨fun hm => (AList.mem_erase.mp hm).1 rfl,hr.task task ht⟩
    · rcases h.task c' task ht with ⟨call,hc,hw⟩ | ⟨hn,hp⟩
      · exact Or.inl ⟨call,(AList.lookup_erase_ne hne).trans hc,hw⟩
      · exact Or.inr ⟨fun hm => hn (AList.mem_erase.mp hm).2,hp⟩
  fresh c' hle := ⟨fun hm => (h.fresh c' hle).1 (AList.mem_erase.mp hm).2,(h.fresh c' hle).2⟩

theorem enterSession (sid : UInt32) (ses : RelaySession) (call : Call)
    (hc : s.calls.lookup ses.socket = some call) (hs : call.sid = sid) :
    Held { s with sessions := s.sessions.insert sid ses } where
  session sid' ses' hl := by
    rcases Table.lookup_insert_cases hl with ⟨rfl,rfl⟩ | ⟨-,hl⟩
    · exact ⟨call,hc,hs⟩
    · exact h.session sid' ses' hl
  task := h.task
  fresh := h.fresh

theorem eraseSession (sid : UInt32) : Held { s with sessions := s.sessions.erase sid } where
  session sid' ses' hl := h.session sid' ses' (Table.lookup_of_erase hl)
  task := h.task
  fresh := h.fresh

theorem associate : Held s.associate where
  session sid ses hl := by
    obtain ⟨call,hc,hs⟩ := h.session sid ses hl
    have hne : ses.socket ≠ s.nextCall := fun he => (h.fresh _ he.ge).1 (mem_of_lookup hc)
    exact ⟨call,(AList.lookup_insert_ne hne).trans hc,hs⟩
  task c task ht := by
    have hne : c ≠ s.nextCall := by
      rintro rfl
      cases (h.fresh _ le_rfl).2.symm.trans ht
    rcases h.task c task ht with ⟨call,hc,hw⟩ | ⟨hn,hp⟩
    · exact Or.inl ⟨call,(AList.lookup_insert_ne hne).trans hc,hw⟩
    · exact Or.inr ⟨notMem_setCall _ hne hn,hp⟩
  fresh c hle := by
    have hlt : s.nextCall < c := hle
    exact ⟨notMem_setCall _ hlt.ne' (h.fresh c hlt.le).1,(h.fresh c hlt.le).2⟩

theorem spawn (c : ℕ) (call : Call) (hc : s.calls.lookup c = some call)
    (hs : call.stage = .spawning) : Held (s.spawn c call) := by
  have hw : call.stage ≠ .watching := by
    rw [hs]
    decide
  unfold State.spawn
  cases hl : s.sessions.lookup call.sid with
  | some ses =>
    exact (h.setCall c call .watching hc hw).setTask c { call with stage := .watching } _
      (AList.lookup_insert _) rfl
  | none =>
    refine h.finish c ⟨fun task ht => ?_,fun sid ses hses he => ?_⟩
    · rcases h.task c task ht with ⟨call',hc',hw'⟩ | ⟨hn,-⟩
      · obtain rfl := Option.some.inj (hc.symm.trans hc')
        exact absurd hw' hw
      · exact absurd (mem_of_lookup hc) hn
    · obtain ⟨call',hc',hs'⟩ := h.session sid ses hses
      rw [he] at hc'
      obtain rfl := Option.some.inj (hc.symm.trans hc')
      rw [← hs', hl] at hses
      cases hses

/-- A task that is not over belongs to a call that watches its connection. -/
theorem watched (c : ℕ) (task : Task) (ht : s.tasks c = some task)
    (hp : ¬(task.phase = .ended ∨ task.phase = .panicked)) :
    ∃ call, s.calls.lookup c = some call ∧ call.stage = .watching := by
  rcases h.task c task ht with hw | ⟨-,he⟩
  · exact hw
  · exact absurd he hp

theorem mark (sid : UInt32) (ses : RelaySession) (source : SocketAddr)
    (hl : s.sessions.lookup sid = some ses) : Held (s.mark sid ses source) := by
  obtain ⟨call,hc,hs⟩ := h.session sid ses hl
  exact h.enterSession sid { ses with clientAddr := some (ses.clientAddr.getD source) } call hc hs

theorem receive (c : ℕ) (task : Task) (source : SocketAddr) (bytes : Bytes)
    (ht : s.tasks c = some task) (hp : task.phase = .running) :
    Held (s.receive c task source bytes) := by
  obtain ⟨call,hc,hw⟩ := h.watched c task ht (by rw [hp]; decide)
  have hr : Held { s with read := Function.update s.read c (s.read c++[(s.tunnel,bytes)]) } :=
    h.same rfl rfl rfl rfl
  unfold State.receive
  dsimp only
  cases relayPacket task.sid s.tunnel bytes with
  | skipped => exact hr
  | sent dg handed =>
    cases hl : s.sessions.lookup task.sid with
    | none => exact hr.setTask c call _ hc hw
    | some ses => cases handed <;> exact (hr.mark task.sid ses source hl).same rfl rfl rfl rfl
  | failed dg =>
    cases hl : s.sessions.lookup task.sid with
    | none => exact hr.setTask c call _ hc hw
    | some ses => exact (hr.mark task.sid ses source hl).setTask c call _ hc hw

end Held

theorem step_held (s : State) (a : Act) (t : State) (h : Held s) (hr : ReturnsReleased s a)
    (hst : step s a = some t) : Held t := by
  cases moves_of_step s t a hst with
  | refuse => exact h
  | associate => exact h.associate
  | insert c call hc hs =>
    have hw : call.stage ≠ .watching := by
      rw [hs]
      decide
    exact (h.setCall c call .replying hc hw).enterSession call.sid ⟨c,none⟩
      { call with stage := .replying } (AList.lookup_insert _) rfl
  | reply c call hc hs =>
    apply h.setCall c call .spawning hc
    rw [hs]
    decide
  | replyFail c call hc hs => exact h.finish c (hr call hc hs)
  | spawn c call hc hs => exact h.spawn c call hc hs
  | controlEnd c call hc hs => exact h.finish c (hr call hc hs)
  | packet c source bytes task ht hp => exact h.receive c task source bytes ht hp
  | recvError c task ht hp =>
    obtain ⟨call,hc,hw⟩ := h.watched c task ht (by rw [hp]; decide)
    exact h.setTask c call _ hc hw
  | remove c task ht hp =>
    obtain ⟨call,hc,hw⟩ := h.watched c task ht (by rw [hp]; decide)
    exact (h.setTask c call _ hc hw).eraseSession task.sid
  | routeReply dg =>
    unfold State.routeReply
    split
    · exact h.same rfl rfl rfl rfl
    · exact h
  | reconnect tunnel => exact h.same rfl rfl rfl rfl

def Tidies (s : State) (a : Act) : Prop := ∀ t, step s a = some t → Tidy t

theorem returnsReleased_of_tidies (s : State) (a : Act) (h : Tidies s a) : ReturnsReleased s a := by
  have hf : ∀ c, Tidy (s.finish c) → Released s c := fun c ht =>
    have hr := ht.returned c fun hm => (AList.mem_erase.mp hm).1 rfl
    ⟨hr.task,hr.session⟩
  cases a with
  | controlEnd c => exact fun call hc hs => hf c (h _ (by simp [step, hc, hs]))
  | reply c ok =>
    cases ok with
    | true => trivial
    | false => exact fun call hc hs => hf c (h _ (by simp [step, hc, hs]))
  | _ => trivial

/-- In every state of a run the associations that have returned are gone, and
there are no more sessions than control connections, exactly when each call
returns only after its task is over and its session has left the table. -/
theorem association_lifetime_iff (t : TunnelHandle) (as : List Act) :
    Meets step Tidies as (.init t) ↔ Meets step ReturnsReleased as (.init t) := by
  refine (meets_iff_along step_held (fun s a h => ⟨fun hr u hu => ?_,?_⟩) as _ (init_held t)).symm
  · exact (step_held s a u h hr hu).tidy
  · exact returnsReleased_of_tidies s a

/-- An association whose control connection ends right after the reply. -/
theorem ended_control_leaks :
    ¬∀ (t : TunnelHandle) (as : List Act) (s : State), run step as (.init t) = some s →
      s.calls.entries = [] → s.sessions.entries = [] := by
  intro h
  have hr : ∃ s, run step [.associate true,.insert 0,.reply 0 true,.spawn 0,.controlEnd 0]
      (.init (.quic true 1200)) = some s ∧ s.calls.entries = [] ∧ s.sessions.entries.length = 1 :=
    ⟨_,rfl,rfl,rfl⟩
  obtain ⟨s,hr,hc,hs⟩ := hr
  rw [h _ _ s hr hc] at hs
  cases hs

def handed (s : State) (c : ℕ) : List Datagram :=
  s.forwarded.filterMap fun e => if e.1 = c then some e.2.2 else none

structure Logged (s : State) : Prop where
  out : ∀ c task, s.tasks c = some task → task.phase ≠ .panicked →
    handed s c = relayTask task.sid (s.read c)
  going : ∀ c task, s.tasks c = some task → task.phase = .running →
    ∀ p ∈ s.read c, ¬Fails task.sid p
  idle : ∀ c, s.tasks c = none → s.read c = [] ∧ handed s c = []
  early : ∀ c call, s.calls.lookup c = some call → call.stage ≠ .watching → s.tasks c = none
  fresh : ∀ c, s.nextCall ≤ c → c ∉ s.calls ∧ s.tasks c = none

theorem init_logged (t : TunnelHandle) : Logged (.init t) :=
  ⟨fun _ _ h => (by cases h),fun _ _ h => (by cases h),fun _ _ => ⟨rfl,rfl⟩,
    fun _ _ h => (by cases h),fun _ _ => ⟨AList.notMem_empty _,rfl⟩⟩

@[simp] theorem setTask_self (s : State) (c : ℕ) (task : Task) :
    (s.setTask c task).tasks c = some task := Function.update_self ..

theorem setTask_ne (s : State) (c c' : ℕ) (task : Task) (h : c' ≠ c) :
    (s.setTask c task).tasks c' = s.tasks c' := Function.update_of_ne h ..

theorem setTask_cases {s : State} {c k : ℕ} {task u : Task}
    (h : (s.setTask c task).tasks k = some u) : k = c ∧ u = task ∨ s.tasks k = some u := by
  by_cases he : k = c
  · subst he
    exact Or.inl ⟨rfl,(Option.some.inj ((setTask_self s k task).symm.trans h)).symm⟩
  · exact Or.inr ((setTask_ne s c k task he).symm.trans h)

namespace Logged

variable {s : State} (h : Logged s)
include h

theorem same {t : State} (hf : t.forwarded = s.forwarded) (hr : t.read = s.read)
    (ht : t.tasks = s.tasks) (hn : t.nextCall = s.nextCall) (hc : t.calls = s.calls) : Logged t where
  out c task hl hp := by
    have ho := h.out c task (ht ▸ hl) hp
    rwa [handed, hf, hr]
  going c task hl hp := hr ▸ h.going c task (ht ▸ hl) hp
  idle c hl := by
    have hi := h.idle c (ht ▸ hl)
    rwa [handed, hf, hr]
  early c call hl hs := ht ▸ h.early c call (hc ▸ hl) hs
  fresh c hle := hc ▸ ht ▸ h.fresh c (hn ▸ hle)

theorem setCall (c : ℕ) (call : Call) (n : ℕ) (ht : s.tasks c = none) (hc : c < n)
    (hn : s.nextCall ≤ n) : Logged { s.setCall c call with nextCall := n } where
  out := h.out
  going := h.going
  idle := h.idle
  early c' call' hl hs := by
    rcases eq_or_ne c' c with rfl | hne
    · exact ht
    · exact h.early c' call' ((AList.lookup_insert_ne hne).symm.trans hl) hs
  fresh c' hle := by
    have hc' := h.fresh c' (hn.trans hle)
    have hne : c' ≠ c := (hc.trans_le hle).ne'
    exact ⟨notMem_setCall call hne hc'.1,hc'.2⟩

theorem finish (c : ℕ) : Logged (s.finish c) where
  out := h.out
  going := h.going
  idle := h.idle
  early c' call' hl hs := h.early c' call' (Table.lookup_of_erase hl) hs
  fresh c' hle := ⟨fun hm => (h.fresh c' hle).1 (AList.mem_erase.mp hm).2,(h.fresh c' hle).2⟩

theorem lt_of_call (c : ℕ) (call : Call) (hc : s.calls.lookup c = some call) : c < s.nextCall := by
  by_contra hle
  exact (h.fresh c (not_lt.mp hle)).1 (mem_of_lookup hc)

theorem setTask (c : ℕ) (task : Task) (hlt : c < s.nextCall)
    (hc : ∀ call, s.calls.lookup c = some call → call.stage = .watching)
    (ho : task.phase ≠ .panicked → handed s c = relayTask task.sid (s.read c))
    (hg : task.phase = .running → ∀ p ∈ s.read c, ¬Fails task.sid p) : Logged (s.setTask c task) where
  out c' task' ht hp := by
    rcases setTask_cases ht with ⟨rfl,rfl⟩ | ht
    · exact ho hp
    · exact h.out c' task' ht hp
  going c' task' ht hp := by
    rcases setTask_cases ht with ⟨rfl,rfl⟩ | ht
    · exact hg hp
    · exact h.going c' task' ht hp
  idle c' ht := by
    rcases eq_or_ne c' c with rfl | hne
    · cases (setTask_self s c' task).symm.trans ht
    · exact h.idle c' ((setTask_ne s c c' task hne).symm.trans ht)
  early c' call' hl hs := by
    rcases eq_or_ne c' c with rfl | hne
    · exact absurd (hc call' hl) hs
    · exact (setTask_ne s c c' task hne).trans (h.early c' call' hl hs)
  fresh c' hle :=
    ⟨(h.fresh c' hle).1,(setTask_ne s c c' task (hlt.trans_le hle).ne').trans (h.fresh c' hle).2⟩

theorem watching (c : ℕ) (task : Task) (ht : s.tasks c = some task) (call : Call)
    (hc : s.calls.lookup c = some call) : call.stage = .watching := by
  by_contra hs
  cases (h.early c call hc hs).symm.trans ht

theorem lt_of_task (c : ℕ) (task : Task) (ht : s.tasks c = some task) : c < s.nextCall := by
  by_contra hle
  cases (h.fresh c (not_lt.mp hle)).2.symm.trans ht

theorem stop (c : ℕ) (task : Task) (phase : Phase) (ht : s.tasks c = some task)
    (hp : task.phase ≠ .panicked) (hn : phase ≠ .running) :
    Logged (s.setTask c { task with phase := phase }) :=
  h.setTask c _ (h.lt_of_task c task ht) (fun call hc => h.watching c task ht call hc)
    (fun _ => h.out c task ht hp) fun hr => absurd hr hn

theorem next (c : ℕ) (task : Task) (p : TunnelHandle × Bytes) (phase : Phase) {t : State}
    (ht : s.tasks c = some task) (hr : task.phase = .running)
    (hread : t.read = Function.update s.read c (s.read c++[p]))
    (htasks : ∀ c', t.tasks c' = if c' = c then some { task with phase := phase } else s.tasks c')
    (hcalls : t.calls = s.calls) (hnext : t.nextCall = s.nextCall)
    (hout : phase ≠ .panicked → handed t c = handed s c++(own task.sid p).toList)
    (hother : ∀ c' ≠ c, handed t c' = handed s c')
    (hgo : phase = .running → ¬Fails task.sid p) : Logged t where
  out c' task' hl hp := by
    rw [htasks] at hl
    rcases eq_or_ne c' c with rfl | hne
    · rw [if_pos rfl] at hl
      obtain rfl := Option.some.inj hl
      have ho : handed s c' = relayTask task.sid (s.read c') :=
        h.out c' task ht (by rw [hr]; decide)
      rw [hout hp, ho, hread, Function.update_self]
      exact (relayTask_snoc task.sid (s.read c') p (h.going c' task ht hr)).symm
    · rw [if_neg hne] at hl
      rw [hother c' hne, hread, Function.update_of_ne hne]
      exact h.out c' task' hl hp
  going c' task' hl hp q hq := by
    rw [htasks] at hl
    rcases eq_or_ne c' c with rfl | hne
    · rw [if_pos rfl] at hl
      obtain rfl := Option.some.inj hl
      rw [hread, Function.update_self, List.mem_append, List.mem_singleton] at hq
      rcases hq with hq | rfl
      · exact h.going c' task ht hr q hq
      · exact hgo hp
    · rw [if_neg hne] at hl
      rw [hread, Function.update_of_ne hne] at hq
      exact h.going c' task' hl hp q hq
  idle c' hl := by
    rw [htasks] at hl
    rcases eq_or_ne c' c with rfl | hne
    · simp at hl
    · rw [if_neg hne] at hl
      rw [hread, Function.update_of_ne hne, hother c' hne]
      exact h.idle c' hl
  early c' call hl hs := by
    rw [hcalls] at hl
    have hn : c' ≠ c := by
      rintro rfl
      exact hs (h.watching c' task ht call hl)
    rw [htasks, if_neg hn]
    exact h.early c' call hl hs
  fresh c' hle := by
    rw [hnext] at hle
    rw [hcalls, htasks, if_neg ((h.lt_of_task c task ht).trans_le hle).ne']
    exact h.fresh c' hle

theorem receive (c : ℕ) (task : Task) (source : SocketAddr) (bytes : Bytes)
    (ht : s.tasks c = some task) (hp : task.phase = .running) :
    Logged (s.receive c task source bytes) := by
  have hkeep : ∀ c', s.tasks c' =
      if c' = c then some { task with phase := .running } else s.tasks c' := by
    intro c'
    split_ifs with he
    · rw [he, ht, ← hp]
    · rfl
  unfold State.receive
  dsimp only
  cases hr : relayPacket task.sid s.tunnel bytes with
  | skipped =>
    refine h.next c task (s.tunnel,bytes) .running ht hp rfl hkeep rfl rfl (fun _ => ?_)
      (fun _ _ => rfl) fun _ ⟨dg,hf⟩ => ?_
    · simp [handed, own, hr]
    · cases hr.symm.trans hf
  | sent dg handed' =>
    have hf : ¬Fails task.sid (s.tunnel,bytes) := fun ⟨dg,hf⟩ => by cases hr.symm.trans hf
    cases hl : s.sessions.lookup task.sid with
    | none =>
      refine h.next c task (s.tunnel,bytes) .panicked ht hp rfl (fun c' => ?_) rfl rfl
        (fun hn => absurd rfl hn) (fun _ _ => rfl) fun _ => hf
      simp [State.setTask, Function.update_apply]
    | some ses =>
      cases handed' with
      | true =>
        refine h.next c task (s.tunnel,bytes) .running ht hp rfl hkeep rfl rfl (fun _ => ?_)
          (fun c' hne => ?_) fun _ => hf
        · simp [handed, own, hr, State.mark]
        · simp [handed, State.mark, hne.symm]
      | false =>
        refine h.next c task (s.tunnel,bytes) .running ht hp rfl hkeep rfl rfl (fun _ => ?_)
          (fun _ _ => rfl) fun _ => hf
        simp [handed, own, hr, State.mark]
  | failed dg =>
    cases hl : s.sessions.lookup task.sid with
    | none =>
      refine h.next c task (s.tunnel,bytes) .panicked ht hp rfl (fun c' => ?_) rfl rfl
        (fun hn => absurd rfl hn) (fun _ _ => rfl) fun hn => (by cases hn)
      simp [State.setTask, Function.update_apply]
    | some ses =>
      refine h.next c task (s.tunnel,bytes) .removing ht hp rfl (fun c' => ?_) rfl rfl
        (fun _ => ?_) (fun _ _ => rfl) fun hn => (by cases hn)
      · simp [State.setTask, State.mark, Function.update_apply]
      · simp [handed, own, hr, State.mark, State.setTask]

theorem spawn (c : ℕ) (call : Call) (hc : s.calls.lookup c = some call)
    (hs : call.stage = .spawning) : Logged (s.spawn c call) := by
  have ht : s.tasks c = none := h.early c call hc (by rw [hs]; decide)
  unfold State.spawn
  split
  · exact h.finish c
  · have hlt : c < s.nextCall := h.lt_of_call c call hc
    have hw : Logged (s.setCall c { call with stage := .watching }) :=
      h.setCall c _ s.nextCall ht hlt le_rfl
    obtain ⟨hread,hnone⟩ := hw.idle c ht
    refine hw.setTask c _ hlt (fun call' hl => ?_) (fun _ => ?_) fun _ p hp => ?_
    · obtain rfl := Option.some.inj ((AList.lookup_insert _).symm.trans hl)
      rfl
    · rw [hnone, hread]
      rfl
    · rw [hread] at hp
      cases hp

end Logged

theorem step_logged (s : State) (a : Act) (t : State) (h : Logged s) (hst : step s a = some t) :
    Logged t := by
  cases moves_of_step s t a hst with
  | refuse => exact h
  | associate =>
    exact (h.setCall s.nextCall _ (s.nextCall+1) (h.fresh _ le_rfl).2 (Nat.lt_succ_self _)
      (Nat.le_succ _)).same rfl rfl rfl rfl rfl
  | insert c call hc hs =>
    have ht : s.tasks c = none := h.early c call hc (by rw [hs]; decide)
    exact (h.setCall c _ s.nextCall ht (h.lt_of_call c call hc) le_rfl).same rfl rfl rfl rfl rfl
  | reply c call hc hs =>
    have ht : s.tasks c = none := h.early c call hc (by rw [hs]; decide)
    exact h.setCall c _ s.nextCall ht (h.lt_of_call c call hc) le_rfl
  | replyFail c call hc hs => exact h.finish c
  | spawn c call hc hs => exact h.spawn c call hc hs
  | controlEnd c call hc hs => exact h.finish c
  | packet c source bytes task ht hp => exact h.receive c task source bytes ht hp
  | recvError c task ht hp => exact h.stop c task .removing ht (by rw [hp]; decide) (by decide)
  | remove c task ht hp =>
    exact (h.stop c task .ended ht (by rw [hp]; decide) (by decide)).same rfl rfl rfl rfl rfl
  | routeReply dg =>
    unfold State.routeReply
    split
    · exact h.same rfl rfl rfl rfl rfl
    · exact h
  | reconnect tunnel => exact h.same rfl rfl rfl rfl rfl

/-- In every run, what is forwarded for an association is what the loop makes of
the packets that its task has read, each with the tunnel there was. -/
theorem run_handed (t : TunnelHandle) (as : List Act) (s : State) (c : ℕ) (task : Task)
    (hr : run step as (.init t) = some s) (ht : s.tasks c = some task)
    (hp : task.phase ≠ .panicked) : handed s c = relayTask task.sid (s.read c) :=
  (run_preserves step_logged as _ s hr (init_logged t)).out c task ht hp

end Hydr.UdpRelay
