import Mathlib
import Hydr.UdpTable

/-!
# Sessions whose replies are relayed

A reply task ends when its session is removed, when its socket fails, and when
the tunnel refuses a reply. Only the first of these is known to the table, so a
session in the table is served exactly as long as the other two fall on sockets
that no session of the table uses.
-/

set_option autoImplicit false

namespace Hydr.Udp
open Transition

variable {T : Type}

def Served (s : State T) : Prop :=
  ∀ key ses, s.manager.sessions.lookup key = some ses →
    ∃ task, s.tasks ses.socket = some task ∧ task.running = true

def Unused (s : State T) (socket : ℕ) : Prop :=
  ∀ key ses, s.manager.sessions.lookup key = some ses → ses.socket ≠ socket

/-- A tunnel refuses a reply, or a socket fails, for a removed session only. -/
def KeepsTask (s : State T) : Act T → Prop
  | .receive socket _ _ false => Unused s socket
  | .socketError socket => Unused s socket
  | _ => True

structure Alive (s : State T) : Prop where
  born : ∀ key ses, s.manager.sessions.lookup key = some ses → ses.socket < s.nextSocket
  own : ∀ k l ses oth, s.manager.sessions.lookup k = some ses →
    s.manager.sessions.lookup l = some oth → ses.socket = oth.socket → k = l
  task : ∀ key ses, s.manager.sessions.lookup key = some ses →
    ∃ task, s.tasks ses.socket = some task ∧ task.running = true ∧ task.done = false

theorem Alive.served {s : State T} (h : Alive s) : Served s := by
  intro key ses hs
  obtain ⟨task,ht,hr,-⟩ := h.task key ses hs
  exact ⟨task,ht,hr⟩

theorem init_alive (maxSessions maxPerIp : ℕ) : Alive (.init maxSessions maxPerIp : State T) :=
  ⟨fun _ _ h => (by cases h),fun _ _ _ _ h => (by cases h),fun _ _ h => (by cases h)⟩

/-- A step that only takes sessions away, or refreshes them, and leaves the
tasks of the others alone. -/
theorem Alive.shrink {s t : State T} (h : Alive s) (hn : s.nextSocket ≤ t.nextSocket)
    (hl : ∀ key ses, t.manager.sessions.lookup key = some ses → ∃ old,
      s.manager.sessions.lookup key = some old ∧ ses.socket = old.socket ∧
        (∀ task, s.tasks old.socket = some task → task.running = true → task.done = false →
          ∃ task, t.tasks old.socket = some task ∧ task.running = true ∧ task.done = false)) :
    Alive t where
  born key ses hs := by
    obtain ⟨old,ho,he,-⟩ := hl key ses hs
    exact he ▸ (h.born key old ho).trans_le hn
  own k l ses oth hk hl' he := by
    obtain ⟨old,ho,hs,-⟩ := hl k ses hk
    obtain ⟨old',ho',hs',-⟩ := hl l oth hl'
    exact h.own k l old old' ho ho' (by rw [← hs, ← hs', he])
  task key ses hs := by
    obtain ⟨old,ho,he,ht⟩ := hl key ses hs
    obtain ⟨task,hto,hr,hd⟩ := h.task key old ho
    exact he ▸ ht task hto hr hd

/-- A step that touches neither the table nor the tasks. -/
theorem Alive.same {s t : State T} (h : Alive s) (hm : t.manager = s.manager)
    (ht : t.tasks = s.tasks) (hn : t.nextSocket = s.nextSocket) : Alive t :=
  h.shrink hn.ge fun _ ses hs =>
    ⟨ses,hm ▸ hs,rfl,fun task hk hr hd => ⟨task,ht ▸ hk,hr,hd⟩⟩

theorem notify_tasks (sockets : List ℕ) (s : State T) (n : ℕ) (h : n ∉ sockets) :
    (State.notify sockets s).tasks n = s.tasks n := by
  induction sockets generalizing s with
  | nil => rfl
  | cons socket sockets ih =>
    rw [List.mem_cons, not_or] at h
    rw [State.notify, ih _ h.2]
    exact Function.update_of_ne h.1 _ _

theorem removeSession_stopped (m : UdpManager) (key : SessionKey) (n : ℕ)
    (h : n ∈ (m.removeSession key).1) :
    ∃ ses, m.sessions.lookup key = some ses ∧ ses.socket = n := by
  unfold UdpManager.removeSession at h
  cases hs : m.sessions.lookup key with
  | none =>
    rw [hs] at h
    cases h
  | some ses =>
    rw [hs] at h
    exact ⟨ses,rfl,(List.mem_singleton.mp h).symm⟩

theorem removeAll_stopped (keys : List SessionKey) (m : UdpManager) (n : ℕ)
    (h : n ∈ (UdpManager.removeAll keys m).1) :
    ∃ key ∈ keys, ∃ ses, m.sessions.lookup key = some ses ∧ ses.socket = n := by
  induction keys generalizing m with
  | nil => cases h
  | cons key keys ih =>
    rcases List.mem_append.mp h with h | h
    · exact ⟨key,List.mem_cons_self ..,removeSession_stopped m key n h⟩
    · obtain ⟨k,hk,ses,hl,hn⟩ := ih _ h
      exact ⟨k,List.mem_cons_of_mem _ hk,ses,UdpManager.removeSession_lookup m key k ses hl,hn⟩

theorem Alive.removeAll {s : State T} (h : Alive s) (keys : List SessionKey) :
    Alive (State.notify (UdpManager.removeAll keys s.manager).1
      { s with manager := (UdpManager.removeAll keys s.manager).2 }) := by
  obtain ⟨-,hm,-,hn,-⟩ := notify_frame
    { s with manager := (UdpManager.removeAll keys s.manager).2 }
    (UdpManager.removeAll keys s.manager).1
  refine h.shrink hn.ge fun key ses hs => ?_
  rw [hm, UdpManager.lookup_removeAll] at hs
  split_ifs at hs with hk
  refine ⟨ses,hs,rfl,fun task ht hr hd => ⟨task,?_,hr,hd⟩⟩
  rw [notify_tasks]
  · exact ht
  · intro hstop
    obtain ⟨k,hmem,oth,ho,he⟩ := removeAll_stopped keys s.manager _ hstop
    exact hk (h.own key k ses oth hs ho he.symm ▸ hmem)

theorem Alive.alter {s : State T} (h : Alive s) (socket : ℕ) (f : ReplyTask T → ReplyTask T)
    (hf : Unused s socket ∨ ∀ task, task.running = true → task.done = false →
      (f task).running = true ∧ (f task).done = false) :
    Alive (s.alter socket f) := by
  refine h.shrink le_rfl fun key ses hs => ⟨ses,hs,rfl,fun task ht hr hd => ?_⟩
  rcases eq_or_ne ses.socket socket with rfl | hne
  · rcases hf with hu | hf
    · exact absurd rfl (hu key ses hs)
    · exact ⟨f task,by simp [State.alter, ht],hf task hr hd⟩
  · exact ⟨task,(Function.update_of_ne hne _ _).trans ht,hr,hd⟩

theorem forward_alive (ip : T → Address.IpAddr) (s : State T) (c : ℕ) (u : T) (dg : Message.Datagram)
    (now : ℕ) (bind : Bool) (h : Alive s) : Alive (s.forward ip c u dg now bind) := by
  rcases forward_cases ip s c u dg now bind with ⟨ses,hl,he⟩ | ⟨p,g,he⟩ | ⟨e,he⟩ <;> rw [he]
  · refine h.shrink le_rfl fun key ses' hs => ?_
    rcases Table.lookup_insert_cases hs with ⟨rfl,rfl⟩ | ⟨-,hs⟩
    · exact ⟨ses,hl,rfl,fun task ht hr hd => ⟨task,ht,hr,hd⟩⟩
    · exact ⟨ses',hs,rfl,fun task ht hr hd => ⟨task,ht,hr,hd⟩⟩
  · refine ⟨fun key ses hs => ?_,fun k l ses oth hs ho hsock => ?_,fun key ses hs => ?_⟩
    · rcases Table.lookup_insert_cases hs with ⟨-,rfl⟩ | ⟨-,hs⟩
      · exact Nat.lt_succ_self _
      · exact (h.born key ses hs).trans (Nat.lt_succ_self _)
    · rcases Table.lookup_insert_cases hs with ⟨rfl,rfl⟩ | ⟨-,hs⟩ <;>
        rcases Table.lookup_insert_cases ho with ⟨rfl,rfl⟩ | ⟨-,ho⟩
      · rfl
      · exact absurd hsock (h.born l oth ho).ne'
      · exact absurd hsock (h.born k ses hs).ne
      · exact h.own k l ses oth hs ho hsock
    · rcases Table.lookup_insert_cases hs with ⟨rfl,rfl⟩ | ⟨-,hs⟩
      · exact ⟨_,Function.update_self ..,rfl,rfl⟩
      · obtain ⟨task,ht,hr,hd⟩ := h.task key ses hs
        exact ⟨task,(Function.update_of_ne (h.born key ses hs).ne _ _).trans ht,hr,hd⟩
  · exact h.same rfl rfl rfl

theorem stop_done (ip : T → Address.IpAddr) (s t : State T) (n : ℕ)
    (h : step ip s (.stop n) = some t) :
    ∃ task, s.tasks n = some task ∧ task.done = true := by
  simp only [step] at h
  split at h
  · rename_i task ht
    split_ifs at h with hd
    exact ⟨task,ht,hd.2⟩
  · cases h

theorem Alive.unused_of_done {s : State T} (h : Alive s) (n : ℕ) (task : ReplyTask T)
    (ht : s.tasks n = some task) (hd : task.done = true) : Unused s n := by
  rintro key ses hs rfl
  obtain ⟨task',ht',-,hd'⟩ := h.task key ses hs
  obtain rfl := Option.some.inj (ht.symm.trans ht')
  rw [hd] at hd'
  cases hd'

theorem step_alive (ip : T → Address.IpAddr) (s : State T) (a : Act T) (t : State T) (h : Alive s)
    (hc : KeepsTask s a) (hst : step ip s a = some t) : Alive t := by
  cases moves_of_step ip s t a hst with
  | forward c u dg now bind => exact forward_alive ip s c u dg now bind h
  | resolve c l call =>
    obtain ⟨r,he | ⟨phase,he⟩⟩ := resolve_quiet s c call l <;> rw [he] <;> exact h.same rfl rfl rfl
  | sendTo c ok call => cases ok <;> exact h.same rfl rfl rfl
  | remove c call =>
    have hr := h.removeAll [call.key]
    simp only [UdpManager.removeAll, List.append_nil] at hr
    exact hr.same rfl rfl rfl
  | sweep now => exact h.removeAll _
  | receive n source payload ok task ht =>
    have hu : Unused s n ∨ ∀ task : ReplyTask T, task.running = true → task.done = false →
        ok = true ∧ task.done = false := by
      cases ok with
      | true => exact .inr fun _ _ hd => ⟨rfl,hd⟩
      | false => exact .inl hc
    exact (h.alter n (fun task => { task with running := ok }) hu).same rfl rfl rfl
  | stop n =>
    obtain ⟨task,ht,hd⟩ := stop_done ip s _ n hst
    exact h.alter n _ (.inl (h.unused_of_done n task ht hd))
  | socketError n => exact h.alter n _ (.inl hc)

def Serves (ip : T → Address.IpAddr) (s : State T) (a : Act T) : Prop :=
  ∀ t, step ip s a = some t → Served t

theorem Alive.ended {s : State T} (h : Alive s) (n : ℕ) (key : SessionKey) (ses : UdpSession)
    (hs : s.manager.sessions.lookup key = some ses) (he : ses.socket = n) (t : State T)
    (ht : t.tasks n = (s.tasks n).map fun task => { task with running := false })
    (hm : t.manager = s.manager) : ¬Served t := by
  intro hv
  obtain ⟨task,hk,-⟩ := h.task key ses hs
  obtain ⟨task',hk',hr⟩ := hv key ses (hm ▸ hs)
  rw [he] at hk hk'
  rw [ht, hk, Option.map_some, Option.some.injEq] at hk'
  rw [← hk'] at hr
  cases hr

theorem keepsTask_of_serves (ip : T → Address.IpAddr) (s : State T) (a : Act T) (h : Alive s)
    (hs : Serves ip s a) : KeepsTask s a := by
  cases a with
  | receive n source payload ok =>
    cases ok with
    | true => trivial
    | false =>
      intro key ses hl he
      obtain ⟨task,ht,hr,-⟩ := h.task key ses hl
      rw [he] at ht
      refine h.ended n key ses hl he _ ?_ ?_ (hs (s.receive n task source payload false) ?_)
      · exact Function.update_self ..
      · rfl
      · simp [step, ht, hr]
  | socketError n =>
    intro key ses hl he
    obtain ⟨task,ht,hr,-⟩ := h.task key ses hl
    rw [he] at ht
    refine h.ended n key ses hl he _ ?_ ?_ (hs (s.endTask n) ?_)
    · exact Function.update_self ..
    · rfl
    · simp [step, ht, hr]
  | _ => trivial

def refusedRun : List (Act Bool) :=
  [.forward 0 false natDatagram 0 true,.resolve 0 (.ok []),.sendTo 0 true,
    .receive 0 (natAddr,53) [2] false,.forward 1 false natDatagram 1 true]

end Hydr.Udp
