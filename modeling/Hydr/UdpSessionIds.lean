import Mathlib
import Hydr.UdpAssociation

/-!
# Session ids that come round

The ids of the client's sessions are a counter of 32 bits, and sessions live as
long as they like. As long as no association is still going when the counter is
back at its id, every association finds its own session and removes no other.
-/

set_option autoImplicit false

namespace Hydr.UdpRelay
open Message Udp Transition
open Table (lookup_insert_cases lookup_of_erase)

def idOf (k : ℕ) : UInt32 := UInt32.ofNat (k+1)

def Entered (stage : Stage) : Prop := stage = .replying ∨ stage = .spawning

def Active (phase : Phase) : Prop := phase = .running ∨ phase = .removing

def Uses (s : State) (k : ℕ) (sid : UInt32) : Prop :=
  (∃ call, s.calls.lookup k = some call ∧ Entered call.stage ∧ call.sid = sid) ∨
    ∃ task, s.tasks k = some task ∧ Active task.phase ∧ task.sid = sid

def Going (s : State) (k : ℕ) : Prop := ∃ sid, Uses s k sid

structure OwnSessions (s : State) : Prop where
  finds : ∀ k sid, Uses s k sid → ∃ ses, s.sessions.lookup sid = some ses ∧ ses.socket = k
  calm : ∀ k task, s.tasks k = some task → task.phase ≠ .panicked

def ReplacesNone (s : State) : Act → Prop
  | .insert c => ∀ call ses, s.calls.lookup c = some call → call.stage = .inserting →
    s.sessions.lookup call.sid = some ses → ¬Going s ses.socket
  | _ => True

/-- No association is going that began a multiple of `2 ^ 32` calls before the one
that inserts. -/
def NotComeRound (s : State) : Act → Prop
  | .insert c => ∀ call, s.calls.lookup c = some call → call.stage = .inserting →
    ∀ k, Going s k → k%2^32 ≠ c%2^32
  | _ => True

structure Numbered (s : State) : Prop where
  next : s.nextSession = idOf s.nextCall
  call : ∀ k call, s.calls.lookup k = some call → call.sid = idOf k
  task : ∀ k task, s.tasks k = some task → task.sid = idOf k
  session : ∀ sid ses, s.sessions.lookup sid = some ses → sid = idOf ses.socket

theorem idOf_eq_iff (k c : ℕ) : idOf k = idOf c ↔ k%2^32 = c%2^32 := by
  rw [idOf, idOf, UInt32.ofNat_eq_iff_mod_eq_toNat, UInt32.toNat_ofNat']
  omega

theorem idOf_succ (k : ℕ) : idOf k+1 = idOf (k+1) := by
  rw [idOf, idOf, UInt32.ofNat_add (k+1) 1]
  rfl

theorem init_numbered (t : TunnelHandle) : Numbered (.init t) :=
  ⟨rfl,fun _ _ h => (by cases h),fun _ _ h => (by cases h),fun _ _ h => (by cases h)⟩

theorem init_ownSessions (t : TunnelHandle) : OwnSessions (.init t) where
  finds k sid h := by
    rcases h with ⟨call,hc,-⟩ | ⟨task,ht,-⟩
    · cases hc
    · cases ht
  calm _ _ h := by cases h

namespace Numbered

variable {s : State} (h : Numbered s)
include h

theorem setCall (c : ℕ) (call : Call) (hs : call.sid = idOf c) : Numbered (s.setCall c call) where
  next := h.next
  call k u hl := by
    rcases lookup_insert_cases hl with ⟨rfl,rfl⟩ | ⟨-,hl⟩
    · exact hs
    · exact h.call k u hl
  task := h.task
  session := h.session

theorem finish (c : ℕ) : Numbered (s.finish c) where
  next := h.next
  call k u hl := h.call k u (lookup_of_erase hl)
  task := h.task
  session := h.session

theorem setTask (c : ℕ) (task : Task) (hs : task.sid = idOf c) : Numbered (s.setTask c task) where
  next := h.next
  call := h.call
  task k u hl := by
    rcases setTask_cases hl with ⟨rfl,rfl⟩ | hl
    · exact hs
    · exact h.task k u hl
  session := h.session

theorem enterSession (sid : UInt32) (ses : RelaySession) (hs : sid = idOf ses.socket) :
    Numbered { s with sessions := s.sessions.insert sid ses } where
  next := h.next
  call := h.call
  task := h.task
  session k u hl := by
    rcases lookup_insert_cases hl with ⟨rfl,rfl⟩ | ⟨-,hl⟩
    · exact hs
    · exact h.session k u hl

theorem associate : Numbered s.associate where
  next := by
    show s.nextSession+1 = idOf (s.nextCall+1)
    rw [h.next, idOf_succ]
  call := (h.setCall s.nextCall ⟨s.nextSession,.inserting⟩ h.next).call
  task := h.task
  session := h.session

theorem enter (c : ℕ) (call : Call) (hs : call.sid = idOf c) : Numbered (s.enter c call) :=
  (h.setCall c { call with stage := .replying } hs).enterSession call.sid ⟨c,none⟩ hs

theorem mark (sid : UInt32) (ses : RelaySession) (source : SocketAddr)
    (hl : s.sessions.lookup sid = some ses) : Numbered (s.mark sid ses source) :=
  h.enterSession sid _ (h.session sid ses hl)

theorem spawn (c : ℕ) (call : Call) (hs : call.sid = idOf c) : Numbered (s.spawn c call) := by
  unfold State.spawn
  split
  · exact h.finish c
  · exact (h.setCall c { call with stage := .watching } hs).setTask c _ hs

theorem receive (c : ℕ) (task : Task) (source : SocketAddr) (bytes : Bytes)
    (hs : task.sid = idOf c) : Numbered (s.receive c task source bytes) := by
  have hr : Numbered { s with read := Function.update s.read c (s.read c++[(s.tunnel,bytes)]) } :=
    ⟨h.next,h.call,h.task,h.session⟩
  unfold State.receive
  dsimp only
  cases relayPacket task.sid s.tunnel bytes with
  | skipped => exact hr
  | sent dg handed =>
    cases hl : s.sessions.lookup task.sid with
    | none => exact hr.setTask c { task with phase := .panicked } hs
    | some ses =>
      have hm := hr.mark task.sid ses source hl
      cases handed with
      | false => exact hm
      | true => exact ⟨hm.next,hm.call,hm.task,hm.session⟩
  | failed dg =>
    cases hl : s.sessions.lookup task.sid with
    | none => exact hr.setTask c { task with phase := .panicked } hs
    | some ses => exact (hr.mark task.sid ses source hl).setTask c { task with phase := .removing } hs

theorem remove (c : ℕ) (task : Task) (hs : task.sid = idOf c) : Numbered (s.remove c task) where
  next := h.next
  call := h.call
  task := (h.setTask c { task with phase := .ended } hs).task
  session sid ses hl := h.session sid ses (lookup_of_erase hl)

theorem routeReply (dg : Datagram) : Numbered (s.routeReply dg) := by
  unfold State.routeReply
  split
  · exact ⟨h.next,h.call,h.task,h.session⟩
  · exact h

end Numbered

theorem step_numbered (s : State) (a : Act) (t : State) (h : Numbered s) (hst : step s a = some t) :
    Numbered t := by
  cases moves_of_step s t a hst with
  | refuse => exact h
  | associate => exact h.associate
  | insert c call hc hs => exact h.enter c call (h.call c call hc)
  | reply c call hc hs => exact h.setCall c { call with stage := .spawning } (h.call c call hc)
  | replyFail c call hc hs => exact h.finish c
  | spawn c call hc hs => exact h.spawn c call (h.call c call hc)
  | controlEnd c call hc hs => exact h.finish c
  | packet c source bytes task ht hp => exact h.receive c task source bytes (h.task c task ht)
  | recvError c task ht hp =>
    exact h.setTask c { task with phase := .removing } (h.task c task ht)
  | remove c task ht hp => exact h.remove c task (h.task c task ht)
  | routeReply dg => exact h.routeReply dg
  | reconnect tunnel => exact ⟨h.next,h.call,h.task,h.session⟩

theorem Numbered.uses {s : State} (h : Numbered s) {k : ℕ} {sid : UInt32} (hu : Uses s k sid) :
    sid = idOf k := by
  rcases hu with ⟨call,hl,-,rfl⟩ | ⟨task,hl,-,rfl⟩
  · exact h.call k call hl
  · exact h.task k task hl

/-- Where the associations find their sessions, the counter comes round to one
exactly when an insert replaces it. -/
theorem replacesNone_iff (s : State) (a : Act) (hn : Numbered s) (ho : OwnSessions s) :
    ReplacesNone s a ↔ NotComeRound s a := by
  cases a with
  | insert c =>
    constructor
    · rintro h call hc hs k ⟨sid,hu⟩ he
      obtain ⟨ses,hl,rfl⟩ := ho.finds k sid hu
      have hsid : sid = call.sid := by
        rw [hn.uses hu, hn.call c call hc, idOf_eq_iff]
        exact he
      exact h call ses hc hs (hsid ▸ hl) ⟨sid,hu⟩
    · intro h call ses hc hs hl hgo
      refine h call hc hs ses.socket hgo ?_
      rw [← idOf_eq_iff, ← hn.session call.sid ses hl, hn.call c call hc]
  | _ => exact Iff.rfl

namespace OwnSessions

variable {s t : State} (h : OwnSessions s)
include h

theorem keep (hu : ∀ k sid, Uses t k sid → Uses s k sid)
    (hs : ∀ k sid ses, Uses t k sid → s.sessions.lookup sid = some ses → ses.socket = k →
      ∃ ses', t.sessions.lookup sid = some ses' ∧ ses'.socket = k)
    (hp : ∀ k task, t.tasks k = some task → task.phase ≠ .panicked) : OwnSessions t where
  finds k sid hk := by
    obtain ⟨ses,hl,he⟩ := h.finds k sid (hu k sid hk)
    exact hs k sid ses hk hl he
  calm := hp

theorem same (hs : t.sessions = s.sessions) (hc : ∀ k call, t.calls.lookup k = some call →
      Entered call.stage → ∃ call', s.calls.lookup k = some call' ∧ Entered call'.stage ∧
        call'.sid = call.sid)
    (ht : ∀ k task, t.tasks k = some task →
      ∃ task', s.tasks k = some task' ∧ task'.sid = task.sid ∧
        (Active task.phase → Active task'.phase))
    (hp : ∀ k task, t.tasks k = some task → task.phase ≠ .panicked) : OwnSessions t := by
  refine h.keep ?_ (fun k sid ses _ hl he => ⟨ses,hs ▸ hl,he⟩) hp
  rintro k sid (⟨call,hl,he,rfl⟩ | ⟨task,hl,he,rfl⟩)
  · obtain ⟨call',hl',he',hsid⟩ := hc k call hl he
    exact Or.inl ⟨call',hl',he',hsid⟩
  · obtain ⟨task',hl',hsid,ha⟩ := ht k task hl
    exact Or.inr ⟨task',hl',ha he,hsid⟩

theorem insert (c : ℕ) (call : Call) (hn : Numbered s) (hc : s.calls.lookup c = some call)
    (hr : ∀ k, Going s k → k%2^32 ≠ c%2^32) : OwnSessions (s.enter c call) where
  finds := by
    have hother (k : ℕ) (sid : UInt32) (hu : Uses s k sid) :
        ∃ ses, (s.enter c call).sessions.lookup sid = some ses ∧ ses.socket = k := by
      have hne : sid ≠ call.sid := by
        rintro rfl
        have he := (hn.uses hu).symm.trans (hn.call c call hc)
        exact hr k ⟨call.sid,hu⟩ ((idOf_eq_iff k c).mp he)
      obtain ⟨ses,hl,he⟩ := h.finds k sid hu
      exact ⟨ses,(AList.lookup_insert_ne hne).trans hl,he⟩
    rintro k sid (⟨call',hl,he,rfl⟩ | ⟨task,hl,ha,rfl⟩)
    · rcases lookup_insert_cases hl with ⟨rfl,rfl⟩ | ⟨-,hl⟩
      · exact ⟨⟨k,none⟩,AList.lookup_insert _,rfl⟩
      · exact hother k call'.sid (Or.inl ⟨call',hl,he,rfl⟩)
    · exact hother k task.sid (Or.inr ⟨task,hl,ha,rfl⟩)
  calm := h.calm

theorem spawn (c : ℕ) (call : Call) (hc : s.calls.lookup c = some call)
    (hs : call.stage = .spawning) : OwnSessions (s.spawn c call) := by
  have huse : Uses s c call.sid := Or.inl ⟨call,hc,Or.inr hs,rfl⟩
  obtain ⟨ses,hl,-⟩ := h.finds c call.sid huse
  simp only [State.spawn, hl]
  refine h.keep ?_ (fun k sid ses _ hl he => ⟨ses,hl,he⟩) ?_
  · rintro k sid (⟨call',hl,he,rfl⟩ | ⟨task,hl,ha,rfl⟩)
    · rcases lookup_insert_cases hl with ⟨rfl,rfl⟩ | ⟨-,hl⟩
      · rcases he with he | he <;> cases he
      · exact Or.inl ⟨call',hl,he,rfl⟩
    · rcases setTask_cases hl with ⟨rfl,rfl⟩ | hl
      · exact huse
      · exact Or.inr ⟨task,hl,ha,rfl⟩
  · intro k task hl
    rcases setTask_cases hl with ⟨rfl,rfl⟩ | hl
    · show Phase.running ≠ Phase.panicked
      decide
    · exact h.calm k task hl

theorem setTask (c : ℕ) (task : Task) (phase : Phase) (ht : s.tasks c = some task)
    (ha : Active task.phase) (hp : phase ≠ .panicked) :
    OwnSessions (s.setTask c { task with phase := phase }) := by
  refine h.same rfl (fun k call hl he => ⟨call,hl,he,rfl⟩) ?_ ?_
  · intro k u hl
    rcases setTask_cases hl with ⟨rfl,rfl⟩ | hl
    · exact ⟨task,ht,rfl,fun _ => ha⟩
    · exact ⟨u,hl,rfl,id⟩
  · intro k u hl
    rcases setTask_cases hl with ⟨rfl,rfl⟩ | hl
    · exact hp
    · exact h.calm k u hl

theorem mark (sid : UInt32) (ses : RelaySession) (source : SocketAddr)
    (hl : s.sessions.lookup sid = some ses) : OwnSessions (s.mark sid ses source) := by
  refine h.keep (fun _ _ hu => hu) ?_ h.calm
  intro k sid' u _ hu he
  by_cases hs : sid' = sid
  · subst hs
    obtain rfl := Option.some.inj (hl.symm.trans hu)
    exact ⟨_,AList.lookup_insert _,he⟩
  · exact ⟨u,(AList.lookup_insert_ne hs).trans hu,he⟩

theorem receive (c : ℕ) (task : Task) (source : SocketAddr) (bytes : Bytes)
    (ht : s.tasks c = some task) (hp : task.phase = .running) :
    OwnSessions (s.receive c task source bytes) := by
  obtain ⟨ses,hl,-⟩ := h.finds c task.sid (Or.inr ⟨task,ht,Or.inl hp,rfl⟩)
  have hidle {u : State} (hu : OwnSessions u) {v : State} (hs : v.sessions = u.sessions)
      (hc : v.calls = u.calls) (ht : v.tasks = u.tasks) : OwnSessions v :=
    hu.same hs (fun k call hl he => ⟨call,hc ▸ hl,he,rfl⟩) (fun k w hl => ⟨w,ht ▸ hl,rfl,id⟩)
      (ht ▸ hu.calm)
  have hm := h.mark task.sid ses source hl
  unfold State.receive
  dsimp only
  cases relayPacket task.sid s.tunnel bytes with
  | skipped => exact hidle h rfl rfl rfl
  | sent dg handed =>
    simp only [hl]
    cases handed <;> exact hidle hm rfl rfl rfl
  | failed dg =>
    simp only [hl]
    exact hidle (hm.setTask c task .removing ht (Or.inl hp) (by decide)) rfl rfl rfl

/-- The session that a task removes is its own, and no other association uses
the id. -/
theorem remove (c : ℕ) (task : Task) (hg : Logged s) (ht : s.tasks c = some task)
    (hp : task.phase = .removing) : OwnSessions (s.remove c task) := by
  have he := h.setTask c task .ended ht (Or.inr hp) (by decide)
  refine he.keep (fun _ _ hu => hu) ?_ he.calm
  intro k sid ses hu hl hk
  by_cases hs : sid = task.sid
  · subst hs
    obtain ⟨own,ho,hoc⟩ := h.finds c task.sid (Or.inr ⟨task,ht,Or.inr hp,rfl⟩)
    obtain rfl := Option.some.inj (ho.symm.trans hl)
    obtain rfl := hoc.symm.trans hk
    rcases hu with ⟨call,hl,he,-⟩ | ⟨u,hl,ha,-⟩
    · have hn := hg.early _ call hl (by rcases he with he | he <;> rw [he] <;> decide)
      rw [hn] at ht
      cases ht
    · obtain rfl := Option.some.inj ((setTask_self ..).symm.trans hl)
      rcases ha with ha | ha <;> cases ha
  · exact ⟨ses,(AList.lookup_erase_ne hs).trans hl,hk⟩

end OwnSessions

theorem step_own (s : State) (a : Act) (t : State) (hg : Logged s) (hn : Numbered s)
    (h : OwnSessions s) (hr : NotComeRound s a) (hst : step s a = some t) : OwnSessions t := by
  have htasks (k : ℕ) (task : Task) (hl : s.tasks k = some task) :
      ∃ task', s.tasks k = some task' ∧ task'.sid = task.sid ∧
        (Active task.phase → Active task'.phase) := ⟨task,hl,rfl,id⟩
  have hend (c : ℕ) : OwnSessions (s.finish c) :=
    h.same rfl (fun k call hl he => ⟨call,lookup_of_erase hl,he,rfl⟩) htasks h.calm
  cases moves_of_step s t a hst with
  | refuse => exact h
  | associate =>
    refine h.same rfl (fun k call hl he => ?_) htasks h.calm
    rcases lookup_insert_cases hl with ⟨rfl,rfl⟩ | ⟨-,hl⟩
    · rcases he with he | he <;> cases he
    · exact ⟨call,hl,he,rfl⟩
  | insert c call hc hs => exact h.insert c call hn hc (hr call hc hs)
  | reply c call hc hs =>
    refine h.same rfl (fun k u hl he => ?_) htasks h.calm
    rcases lookup_insert_cases hl with ⟨rfl,rfl⟩ | ⟨-,hl⟩
    · exact ⟨call,hc,Or.inl hs,rfl⟩
    · exact ⟨u,hl,he,rfl⟩
  | replyFail c call hc hs => exact hend c
  | spawn c call hc hs => exact h.spawn c call hc hs
  | controlEnd c call hc hs => exact hend c
  | packet c source bytes task ht hp => exact h.receive c task source bytes ht hp
  | recvError c task ht hp => exact h.setTask c task .removing ht (Or.inl hp) (by decide)
  | remove c task ht hp => exact h.remove c task hg ht hp
  | routeReply dg =>
    unfold State.routeReply
    split
    · exact h.same rfl (fun k call hl he => ⟨call,hl,he,rfl⟩) htasks h.calm
    · exact h
  | reconnect tunnel => exact h.same rfl (fun k call hl he => ⟨call,hl,he,rfl⟩) htasks h.calm

def IdsUnique (t : TunnelHandle) (as : List Act) : Prop :=
  Meets step ReplacesNone as (.init t) ∧
  ∀ bs cs s, as = bs++cs → run step bs (.init t) = some s → OwnSessions s

/-- The ids of a run are unique exactly when no association is still going when
one that began a multiple of `2 ^ 32` calls later inserts its session. -/
theorem session_ids_unique_iff (t : TunnelHandle) (as : List Act) :
    IdsUnique t as ↔ Meets step NotComeRound as (.init t) := by
  have hpres : ∀ s a u, Logged s ∧ Numbered s ∧ OwnSessions s → NotComeRound s a →
      step s a = some u → Logged u ∧ Numbered u ∧ OwnSessions u := fun s a u hi hc hu =>
    ⟨step_logged s a u hi.1 hu,step_numbered s a u hi.2.1 hu,step_own s a u hi.1 hi.2.1 hi.2.2 hc hu⟩
  have hinit : Logged (.init t) ∧ Numbered (.init t) ∧ OwnSessions (.init t) :=
    ⟨init_logged t,init_numbered t,init_ownSessions t⟩
  have hiff := meets_iff_along hpres
    (fun s a hi => (replacesNone_iff s a hi.2.1 hi.2.2).symm) as (.init t) hinit
  constructor
  · exact fun h => hiff.mpr h.1
  · intro h
    refine ⟨hiff.mp h,?_⟩
    rintro bs cs s rfl hr
    exact (run_preserves_where hpres bs _ s (meets_left bs cs _ h) hr hinit).2.2

def begins : Act → Bool
  | .associate bound => bound
  | _ => false

theorem step_nextCall (s : State) (a : Act) (t : State) (hst : step s a = some t) :
    t.nextCall = s.nextCall+if begins a then 1 else 0 := by
  cases moves_of_step s t a hst with
  | associate => rfl
  | spawn c call hc hs =>
    unfold State.spawn
    split <;> rfl
  | packet c source bytes task ht hp =>
    unfold State.receive
    dsimp only
    cases relayPacket task.sid s.tunnel bytes with
    | skipped => rfl
    | sent dg handed => cases s.sessions.lookup task.sid <;> cases handed <;> rfl
    | failed dg => cases s.sessions.lookup task.sid <;> rfl
  | routeReply dg =>
    unfold State.routeReply
    split <;> rfl
  | _ => rfl

/-- An association that is going has begun and is not one that has yet to insert. -/
theorem going_begun {s : State} (hg : Logged s) {k : ℕ} (h : Going s k) : k < s.nextCall ∧
    ∀ call, s.calls.lookup k = some call → call.stage ≠ .inserting := by
  obtain ⟨sid,⟨call,hl,he,-⟩ | ⟨task,ht,-⟩⟩ := h
  · refine ⟨hg.lt_of_call k call hl,fun call' hl' hs => ?_⟩
    obtain rfl := Option.some.inj (hl.symm.trans hl')
    rcases he with he | he <;> exact absurd (he.symm.trans hs) (by decide)
  · refine ⟨hg.lt_of_task k task ht,fun call hl hs => ?_⟩
    have hn := hg.early k call hl (by rw [hs]; decide)
    rw [hn] at ht
    cases ht

/-- The counter does not come round in a run of no more than `2 ^ 32` calls. -/
theorem few_calls (as : List Act) (s : State) (hg : Logged s)
    (hf : s.nextCall+as.countP begins ≤ 2^32) : Meets step NotComeRound as s := by
  induction as generalizing s with
  | nil => trivial
  | cons a as ih =>
    rw [List.countP_cons] at hf
    refine ⟨?_,fun t ht => ih t (step_logged s a t hg ht) ?_⟩
    · cases a with
      | insert c =>
        intro call hc hs k hk he
        obtain ⟨hlt,hst⟩ := going_begun hg hk
        have hcl := hg.lt_of_call c call hc
        rw [Nat.mod_eq_of_lt (by omega), Nat.mod_eq_of_lt (by omega)] at he
        subst he
        exact hst call hc hs
      | _ => trivial
    · rw [step_nextCall s a t ht]
      omega

theorem run_associates (n : ℕ) (s : State) :
    ∃ t, run step (List.replicate n (.associate true)) s = some t ∧ t.nextCall = s.nextCall+n ∧
      ∀ k < s.nextCall, t.calls.lookup k = s.calls.lookup k := by
  induction n generalizing s with
  | zero => exact ⟨s,rfl,rfl,fun _ _ => rfl⟩
  | succ n ih =>
    obtain ⟨t,hr,hn,hc⟩ := ih s.associate
    refine ⟨t,run_cons.mpr ⟨s.associate,rfl,hr⟩,?_,fun k hk => ?_⟩
    · rw [hn]
      show s.nextCall+1+n = s.nextCall+(n+1)
      omega
    · rw [hc k (Nat.lt_succ_of_lt hk)]
      exact AList.lookup_insert_ne (Nat.ne_of_lt hk)

def roundRun (n : ℕ) : List Act :=
  Act.associate true::Act.insert 0::(List.replicate n (Act.associate true)++[Act.associate true])

/-- The first association is still going when the counter is back at its id. -/
theorem first_id_comes_round : ¬∀ t as, IdsUnique t as := by
  intro h
  obtain ⟨n,hn⟩ : ∃ n, n+1 = 2^32 := ⟨2^32-1,by norm_num⟩
  obtain ⟨s,hs,hk,hl⟩ : ∃ s, run step [.associate true,.insert 0] (.init (.quic true 1200)) = some s ∧
      s.nextCall = 1 ∧ s.calls.lookup 0 = some ⟨1,.replying⟩ := ⟨_,rfl,rfl,rfl⟩
  obtain ⟨u,hu,huk,hul⟩ := run_associates n s
  have hr : run step (roundRun n) (.init (.quic true 1200)) = some u.associate := by
    have he : roundRun n = [Act.associate true,Act.insert 0]++
        (List.replicate n (Act.associate true)++[Act.associate true]) := rfl
    rw [he, run_append, hs, Option.bind_some, run_append, hu]
    rfl
  have hcall : u.associate.calls.lookup u.nextCall = some ⟨u.nextSession,.inserting⟩ :=
    AList.lookup_insert _
  have hne : 0 ≠ u.nextCall := by omega
  have hgo : Going u.associate 0 := by
    have hf : u.associate.calls.lookup 0 = some ⟨1,.replying⟩ := by
      rw [← hl, ← hul 0 (by omega)]
      exact AList.lookup_insert_ne hne
    exact ⟨1,Or.inl ⟨_,hf,Or.inl rfl,rfl⟩⟩
  obtain ⟨hm,ho⟩ := h (.quic true 1200) (roundRun n++[Act.insert u.nextCall])
  have hnum := run_preserves step_numbered _ _ _ hr (init_numbered _)
  have hrep := meets_at _ [] _ _ _ hm hr
  have hx := (replacesNone_iff _ _ hnum (ho _ _ _ rfl hr)).mp hrep _ hcall rfl 0 hgo
  rw [huk, hk, Nat.add_comm, hn] at hx
  exact hx (by norm_num)

end Hydr.UdpRelay
