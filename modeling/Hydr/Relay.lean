import Mathlib
import Hydr.Library.Transition
import Hydr.Message

/-!
# Relaying to the next hop

Each tunnel that is accepted opens a connection to the next hop and starts a
task that carries its datagrams back. The connection is then stored in one slot
of the server, and every stream and datagram task reads that slot when it runs.
Connections are named by the tunnel whose `handle_tunnel` opened them; `T` are
the tunnels. What the next hop answers comes back on the connection it was
asked on.
-/

set_option autoImplicit false

namespace Hydr.Relay
open Message Transition

inductive Item where
  | stream (address : Address)
  | datagram (dg : Datagram)

inductive Phase where
  | connecting
  | connected
  | serving
  | ended
  deriving DecidableEq

structure Relayed (T : Type) where
  owner : T
  connection : T
  item : Item

structure Answer (T : Type) where
  question : Relayed T
  receivers : List T

structure State (T : Type) where
  permits : ℕ
  phase : T → Option Phase
  downstream : Option T
  replying : T → Bool
  tasks : ℕ → Option (T × Item)
  relayed : List (Relayed T)
  unserved : List (T × Item)
  answers : List (Answer T)

inductive Act (T : Type) where
  | accept (t : T)
  | connectNextHop (t : T) (ok : Bool)
  | store (t : T)
  | event (t : T) (k : ℕ) (item : Item)
  | relay (k : ℕ)
  | comeBack (i : ℕ) (ok : Bool)
  | push (t : T) (ok : Bool)
  | recvError (t : T)
  | depart (t : T)

variable {T : Type}

def init (permits : ℕ) : State T where
  permits := permits
  phase _ := none
  downstream := none
  replying _ := false
  tasks _ := none
  relayed := []
  unserved := []
  answers := []

def connectPeer (s : State T) (k : ℕ) (owner : T) (item : Item) : State T :=
  let s := { s with tasks := Function.update s.tasks k none }
  match s.downstream with
  | none => { s with unserved := s.unserved++[(owner,item)] }
  | some connection => { s with relayed := s.relayed++[⟨owner,connection,item⟩] }

variable [DecidableEq T]

def enterPhase (s : State T) (t : T) (p : Phase) : State T :=
  { s with phase := Function.update s.phase t (some p) }

def accept (s : State T) (t : T) : State T :=
  if s.permits = 0 then enterPhase s t .ended
  else { enterPhase s t .connecting with permits := s.permits-1 }

def release (s : State T) (t : T) : State T :=
  { enterPhase s t .ended with permits := s.permits+1 }

def store (s : State T) (t : T) : State T :=
  { enterPhase s t .serving with
    downstream := some t
    replying := Function.update s.replying t true }

/-- The reply task of the connection hands the datagram to the tunnel that
opened it, and ends if that fails; without the task the datagram is lost. -/
def comeBack (s : State T) (q : Relayed T) (ok : Bool) : State T :=
  if s.replying q.connection then
    { s with
      answers := s.answers++[⟨q,[q.connection]⟩]
      replying := Function.update s.replying q.connection ok }
  else { s with answers := s.answers++[⟨q,[]⟩] }

def step (s : State T) : Act T → Option (State T)
  | .accept t => if s.phase t = none then some (accept s t) else none
  | .connectNextHop t ok =>
    if s.phase t = some .connecting then
      some (if ok then enterPhase s t .connected else release s t)
    else none
  | .store t => if s.phase t = some .connected then some (store s t) else none
  | .event t k item =>
    if s.phase t = some .serving ∧ s.tasks k = none then
      some { s with tasks := Function.update s.tasks k (some (t,item)) }
    else none
  | .relay k =>
    match s.tasks k with
    | some (owner,item) => some (connectPeer s k owner item)
    | none => none
  | .comeBack i ok =>
    match s.relayed[i]? with
    | some q => some (comeBack s q ok)
    | none => none
  | .push t ok =>
    if s.replying t then some { s with replying := Function.update s.replying t ok } else none
  | .recvError t =>
    if s.replying t then some { s with replying := Function.update s.replying t false } else none
  | .depart t => if s.phase t = some .serving then some (release s t) else none

structure Isolated (s : State T) : Prop where
  relayed : ∀ r ∈ s.relayed, r.connection = r.owner
  served : s.unserved = []
  answered : ∀ a ∈ s.answers, a.receivers = [a.question.owner]

def Isolates (s : State T) (a : Act T) : Prop := ∀ t, step s a = some t → Isolated t

/-- The slot holds the task's own connection when the task reads it, and an
answer finds the reply task of its connection running. -/
def Undisturbed (s : State T) : Act T → Prop
  | .relay k => ∀ owner item, s.tasks k = some (owner,item) → s.downstream = some owner
  | .comeBack i _ => ∀ q, s.relayed[i]? = some q → s.replying q.connection = true
  | _ => True

omit [DecidableEq T] in
theorem connectPeer_some (s : State T) (k : ℕ) (owner connection : T) (item : Item)
    (h : s.downstream = some connection) :
    connectPeer s k owner item = { s with
      tasks := Function.update s.tasks k none
      relayed := s.relayed++[⟨owner,connection,item⟩] } := by
  simp only [connectPeer, h]

omit [DecidableEq T] in
theorem connectPeer_none (s : State T) (k : ℕ) (owner : T) (item : Item)
    (h : s.downstream = none) :
    connectPeer s k owner item = { s with
      tasks := Function.update s.tasks k none
      unserved := s.unserved++[(owner,item)] } := by
  simp only [connectPeer, h]

theorem step_histories (s t : State T) (a : Act T) (h : step s a = some t) :
    (t.relayed = s.relayed ∧ t.unserved = s.unserved ∧ t.answers = s.answers) ∨
    (∃ k owner item, a = .relay k ∧ s.tasks k = some (owner,item) ∧
      t = connectPeer s k owner item) ∨
    ∃ i ok q, a = .comeBack i ok ∧ s.relayed[i]? = some q ∧ t = comeBack s q ok := by
  cases a with
  | relay k =>
    simp only [step] at h
    cases hk : s.tasks k with
    | none => simp [hk] at h
    | some p =>
      simp only [hk, Option.some.injEq] at h
      exact Or.inr (Or.inl ⟨k,p.1,p.2,rfl,hk,h.symm⟩)
  | comeBack i ok =>
    simp only [step] at h
    cases hq : s.relayed[i]? with
    | none => simp [hq] at h
    | some q =>
      simp only [hq, Option.some.injEq] at h
      exact Or.inr (Or.inr ⟨i,ok,q,rfl,hq,h.symm⟩)
  | accept u =>
    simp only [step] at h
    split_ifs at h
    obtain rfl := Option.some.inj h
    left
    unfold accept
    split_ifs <;> exact ⟨rfl,rfl,rfl⟩
  | connectNextHop u ok =>
    simp only [step] at h
    split_ifs at h <;> obtain rfl := Option.some.inj h <;> exact Or.inl ⟨rfl,rfl,rfl⟩
  | store u | event u k item | push u ok | recvError u | depart u =>
    simp only [step] at h
    split_ifs at h
    obtain rfl := Option.some.inj h
    exact Or.inl ⟨rfl,rfl,rfl⟩

theorem step_isolated (s t : State T) (a : Act T) (hi : Isolated s) (hc : Undisturbed s a)
    (h : step s a = some t) : Isolated t := by
  rcases step_histories s t a h with ⟨hr,hu,ha⟩ | ⟨k,owner,item,rfl,hk,rfl⟩ |
    ⟨i,ok,q,rfl,hq,rfl⟩
  · exact ⟨hr ▸ hi.relayed,hu ▸ hi.served,ha ▸ hi.answered⟩
  · rw [connectPeer_some s k owner owner item (hc owner item hk)]
    refine ⟨fun r hr => ?_,hi.served,hi.answered⟩
    rcases List.mem_append.mp hr with hr | hr
    · exact hi.relayed r hr
    · obtain rfl := List.mem_singleton.mp hr
      rfl
  · rw [comeBack, if_pos (hc q hq)]
    refine ⟨hi.relayed,hi.served,fun a ha => ?_⟩
    rcases List.mem_append.mp ha with ha | ha
    · exact hi.answered a ha
    · obtain rfl := List.mem_singleton.mp ha
      rw [hi.relayed q (List.mem_of_getElem? hq)]

theorem isolates_undisturbed (s : State T) (a : Act T) (h : Isolates s a) : Undisturbed s a := by
  cases a with
  | relay k =>
    intro owner item hk
    have ht := h (connectPeer s k owner item) (by simp [step, hk])
    cases hd : s.downstream with
    | none =>
      rw [connectPeer_none s k owner item hd] at ht
      simpa using ht.served
    | some connection =>
      rw [connectPeer_some s k owner connection item hd] at ht
      have ho : connection = owner := ht.relayed ⟨owner,connection,item⟩ (by simp)
      rw [ho]
  | comeBack i ok =>
    intro q hq
    by_contra hn
    have ht := h (comeBack s q ok) (by simp [step, hq])
    rw [comeBack, if_neg hn] at ht
    simpa using ht.answered ⟨q,[]⟩ (by simp)
  | _ => trivial

/-- The chain keeps the client tunnels apart in every state of a run exactly
when no task finds the slot taken by another tunnel and no answer comes back to
a connection whose reply task has ended. -/
theorem relay_isolation_iff (permits : ℕ) (as : List (Act T)) :
    Meets step Isolates as (init permits) ↔ Meets step Undisturbed as (init permits) := by
  refine ⟨meets_mono isolates_undisturbed as _,fun h => ?_⟩
  refine meets_of_invariant (fun s a t => step_isolated s t a)
    (fun s a hi hc t ht => step_isolated s t a hi hc ht) as _ h ⟨?_,rfl,?_⟩ <;> simp [init]

structure Filled (s : State T) : Prop where
  served : s.unserved = []
  idle : s.downstream = none → (∀ u, s.phase u ≠ some .serving) ∧ ∀ k, s.tasks k = none

theorem enterPhase_filled (s : State T) (u : T) (p : Phase) (h : Filled s) (hp : p ≠ .serving) :
    Filled (enterPhase s u p) := by
  refine ⟨h.served,fun hd => ⟨fun v hv => ?_,(h.idle hd).2⟩⟩
  rcases eq_or_ne v u with rfl | hne
  · exact hp (by simpa [enterPhase] using hv)
  · exact (h.idle hd).1 v (by simpa [enterPhase, hne] using hv)

theorem release_filled (s : State T) (u : T) (h : Filled s) : Filled (release s u) :=
  have hr := enterPhase_filled s u .ended h (by decide)
  ⟨hr.served,hr.idle⟩

theorem step_filled (s : State T) (a : Act T) (t : State T) (hi : Filled s)
    (h : step s a = some t) : Filled t := by
  cases a with
  | accept u =>
    simp only [step] at h
    split_ifs at h
    obtain rfl := Option.some.inj h
    unfold accept
    split_ifs
    · exact enterPhase_filled s u _ hi (by decide)
    · have hc := enterPhase_filled s u .connecting hi (by decide)
      exact ⟨hc.served,hc.idle⟩
  | connectNextHop u ok =>
    simp only [step] at h
    split_ifs at h <;> obtain rfl := Option.some.inj h
    · exact enterPhase_filled s u _ hi (by decide)
    · exact release_filled s u hi
  | store u =>
    simp only [step] at h
    split_ifs at h
    obtain rfl := Option.some.inj h
    exact ⟨hi.served,fun hd => by simp [store] at hd⟩
  | event u k item =>
    simp only [step] at h
    split_ifs at h with hc
    obtain rfl := Option.some.inj h
    exact ⟨hi.served,fun hd => absurd hc.1 ((hi.idle hd).1 u)⟩
  | relay k =>
    simp only [step] at h
    cases hk : s.tasks k with
    | none => simp [hk] at h
    | some p =>
      simp only [hk, Option.some.injEq] at h
      subst h
      cases hd : s.downstream with
      | none => simp [(hi.idle hd).2 k] at hk
      | some connection =>
        rw [connectPeer_some s k p.1 connection p.2 hd]
        exact ⟨hi.served,fun hn => by simp [hd] at hn⟩
  | comeBack i ok =>
    simp only [step] at h
    cases hq : s.relayed[i]? with
    | none => simp [hq] at h
    | some q =>
      simp only [hq, Option.some.injEq] at h
      subst h
      unfold comeBack
      split_ifs <;> exact ⟨hi.served,hi.idle⟩
  | push u ok | recvError u =>
    simp only [step] at h
    split_ifs at h
    obtain rfl := Option.some.inj h
    exact ⟨hi.served,hi.idle⟩
  | depart u =>
    simp only [step] at h
    split_ifs at h
    obtain rfl := Option.some.inj h
    exact release_filled s u hi

/-- No task of a served tunnel is ever turned away for want of a next hop. -/
theorem run_served (permits : ℕ) (as : List (Act T)) (s : State T)
    (h : run step as (init permits) = some s) : s.unserved = [] :=
  (run_preserves step_filled as _ s h ⟨rfl,fun _ => ⟨by simp [init],fun _ => rfl⟩⟩).served

def twoTunnels (dg : Datagram) : List (Act Bool) :=
  [.accept false,.connectNextHop false true,.store false,
    .accept true,.connectNextHop true true,.store true,
    .event false 0 (.datagram dg),.relay 0,.comeBack 0 true]

/-- The datagram of the first tunnel leaves over the connection of the second,
and its answer is sent to the second tunnel. -/
theorem last_store_captures :
    ¬∀ (permits : ℕ) (as : List (Act Bool)) (s : State Bool),
      run step as (init permits) = some s → Isolated s := by
  intro h
  let dg := Datagram.new 7 (.domain [] 53) []
  have hr : ∃ s, run step (twoTunnels dg) (init 2) = some s ∧
      ⟨false,true,.datagram dg⟩ ∈ s.relayed ∧
      ⟨⟨false,true,.datagram dg⟩,[true]⟩ ∈ s.answers :=
    ⟨_,rfl,List.mem_singleton_self _,List.mem_singleton_self _⟩
  obtain ⟨s,hr,hm,-⟩ := hr
  exact absurd ((h 2 _ s hr).relayed _ hm) (by decide)

end Hydr.Relay
