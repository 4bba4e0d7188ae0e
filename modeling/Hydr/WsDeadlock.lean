import Mathlib
import Hydr.WsAuthentication
import Hydr.WsLink

/-!
# Two run loops that wait for each other

A loop that has taken a command, or whose tick has come, waits for room in its
own frame channel and takes no message meanwhile. If the way out is full at
both ends, and both loops wait so, nothing moves any more but a failing writer.
-/

set_option autoImplicit false

namespace Hydr.Ws
open Message Hydr.Stream Transition

def Control.waits : Control → Bool
  | .sending _ _ => true
  | _ => false

namespace Endpoint

structure Full (q : Queues) (e : Endpoint) : Prop where
  writing : e.writing = true
  frames : q.frames ≤ e.frames.length
  hand : e.hand.isSome = true

def Blocked (q : Queues) (e : Endpoint) : Prop := e.control.waits = true ∧ e.Full q

def Begins (e : Endpoint) (a : Act) : Prop :=
  e.control = .select ∧ (a = .tick ∨ a = .take ∧ ∃ c cmds, e.cmds = c::cmds ∧ c ≠ .close)

def outlet (e : Endpoint) : Bool × List OutMsg × Option OutMsg × Bool :=
  (e.control.waits,e.frames,e.hand,e.writing)

theorem blocked_of_outlet (q : Queues) (e t : Endpoint) (h : t.outlet = e.outlet)
    (ht : t.Blocked q) : e.Blocked q := by
  simp only [outlet, Prod.mk.injEq] at h
  obtain ⟨hc,hf,hh,hw⟩ := h
  exact ⟨hc ▸ ht.1,hw ▸ ht.2.writing,hf ▸ ht.2.frames,hh ▸ ht.2.hand⟩

theorem queueTask_outlet (e : Endpoint) (id : ℕ) (f : Option (StreamFrame Bytes)) :
    (e.queueTask id f).outlet = e.outlet := by cases f <;> rfl

variable (b3 : Blake3) (q : Queues)

/-- A loop begins to wait on a full way out only of its own accord. -/
theorem step_blocked (e t : Endpoint) (a : Act) (h : e.step b3 q a = some t)
    (ha : a.isOwn = true) (hb : e.frames.length ≤ q.frames) (ht : t.Blocked q) :
    e.Blocked q ∨ e.Begins a ∧ e.Full q := by
  have hsame : t.outlet = e.outlet → e.Blocked q ∨ e.Begins a ∧ e.Full q :=
    fun ho => Or.inl (blocked_of_outlet q e t ho ht)
  obtain ⟨hwaits,hfull⟩ := ht
  cases moves_of_step b3 q e t a h with
  | openStream | openStreamAs | authenticate | replyOpen | closeTunnel | enter | sendDatagram
  | closeHandle | nextEvent => exact hsame rfl
  | send | recv => exact hsame (queueTask_outlet _ _ _)
  | take c cmds hc hq =>
    right
    cases c with
    | close => cases hwaits
    | sendFrame | openStream | replyOpen =>
      exact ⟨⟨hc,Or.inr ⟨rfl,_,cmds,hq,nofun⟩⟩,hfull.writing,hfull.frames,hfull.hand⟩
  | tick hc => exact Or.inr ⟨⟨hc,Or.inl rfl⟩,hfull.writing,hfull.frames,hfull.hand⟩
  | pushFail | push | finish | lose | emit | notify | stop => cases hwaits
  | receive | write | writePong => cases ha
  | writerTake m frames hh hf =>
    have hlen := hfull.frames
    rw [hf, List.length_cons] at hb
    exact absurd (hb.trans hlen) (by simp)
  | writerFail => exact absurd hfull.writing nofun

theorem begins_blocked (e : Endpoint) (a : Act) (hb : e.Begins a) (hf : e.Full q) :
    ∃ t, e.step b3 q a = some t ∧ t.Blocked q := by
  obtain ⟨hc,rfl | ⟨rfl,c,cmds,hq,hne⟩⟩ := hb
  · exact ⟨e.setControl (.sending Frame.ping .nothing),by simp only [step, hc],rfl,hf.writing,
      hf.frames,hf.hand⟩
  · refine ⟨({ e with cmds := cmds } : Endpoint).command c,by simp only [step, hc, hq],?_⟩
    cases c with
    | close => exact absurd rfl hne
    | sendFrame | openStream | replyOpen => exact ⟨rfl,hf.writing,hf.frames,hf.hand⟩

theorem push_room (e t : Endpoint) (f : Frame) (after : After)
    (h : e.step b3 q .push = some t) (hc : e.control = .sending f after) (hw : e.writing = true) :
    e.frames.length < q.frames := by
  simp only [step, hc, hw] at h
  by_contra hn
  simp [hn] at h

theorem receive_frames (e : Endpoint) (validate : AuthRequest → Result AuthResponse)
    (msg : WsMessage) (hb : e.frames.length ≤ q.frames) :
    (e.receive b3 q validate msg).frames.length ≤ q.frames := by
  cases msg with
  | binary bytes =>
    simp only [receive]
    split
    · split
      · rw [(handleFrame_keeps _ _ _).frames]
        exact hb
      · exact hb
    · exact hb
    · exact hb
  | ping payload =>
    simp only [receive]
    split_ifs with hp
    · simpa using hp.2
    · exact hb
  | other => exact hb

/-- The frame channel never holds more than its capacity. -/
theorem step_frames (e t : Endpoint) (a : Act) (h : e.step b3 q a = some t)
    (hb : e.frames.length ≤ q.frames) : t.frames.length ≤ q.frames := by
  cases moves_of_step b3 q e t a h with
  | push f after hc hw =>
    have hr := push_room b3 q e _ f after h hc hw
    simpa using hr
  | take c => cases c <;> exact hb
  | finish after => cases after <;> exact hb
  | receive validate msg => exact receive_frames b3 q e validate msg hb
  | writerTake m frames hh hf =>
    rw [hf, List.length_cons] at hb
    exact (Nat.le_succ _).trans hb
  | writerFail => exact Nat.zero_le _
  | send _ _ _ f | recv _ _ _ f => cases f <;> exact hb
  | openStream | openStreamAs | authenticate | replyOpen | closeTunnel | enter | sendDatagram
  | closeHandle | nextEvent | pushFail | lose | emit | notify | tick | stop | write | writePong =>
    exact hb

/-- A blocked end stays so until its writer moves. -/
theorem blocked_stays (e t : Endpoint) (a : Act) (h : e.step b3 q a = some t)
    (ha : a.isOwn = true) (hf : a ≠ .writerFail) (he : e.Blocked q) : t.Blocked q := by
  have hsame : t.outlet = e.outlet → t.Blocked q := fun ho => blocked_of_outlet q t e ho.symm he
  obtain ⟨hwaits,hfull⟩ := he
  cases moves_of_step b3 q e t a h with
  | openStream | openStreamAs | authenticate | replyOpen | closeTunnel | enter | sendDatagram
  | closeHandle | nextEvent => exact hsame rfl
  | send | recv => exact hsame (queueTask_outlet _ _ _)
  | take _ _ hc | tick hc | stop hc | finish _ hc | lose _ hc | emit _ hc | notify _ hc =>
    rw [hc] at hwaits
    cases hwaits
  | pushFail f after hc hw => exact absurd (hfull.writing.symm.trans hw) nofun
  | push f after hc hw =>
    exact absurd (push_room b3 q e _ f after h hc hw) (not_lt.mpr hfull.frames)
  | receive | write | writePong => cases ha
  | writerTake m frames hh => exact absurd (hh ▸ hfull.hand) nofun
  | writerFail => exact absurd rfl hf

end Endpoint

namespace Link

variable (b3 : Blake3) (q : Queues) (cap : Bool → ℕ)

def Jammed (l : Link) (x : Bool) : Prop := (l.ends x).Full q ∧ cap x ≤ (l.wire x).length

def Stuck (l : Link) (x : Bool) : Prop := (l.ends x).Blocked q ∧ cap x ≤ (l.wire x).length

def Deadlock (l : Link) : Prop := ∀ x, l.Stuck q cap x

/-- A jammed loop takes up a frame of its own accord only while the other loop
is not stuck. -/
def Yields (l : Link) (a : LinkAct) : Prop :=
  ∀ x b, a = .own x b → (l.ends x).Begins b → l.Jammed q cap x → ¬l.Stuck q cap (!x)

structure Bounded (l : Link) : Prop where
  frames : ∀ x, (l.ends x).frames.length ≤ q.frames
  wire : ∀ x, (l.wire x).length ≤ cap x

theorem init_bounded (auth : AuthRequest) (mux : Bool) (ob : Bool → Option Obfuscator) :
    (init auth mux ob).Bounded q cap := by
  refine ⟨fun x => ?_,fun x => Nat.zero_le _⟩
  cases x <;> exact Nat.zero_le _

theorem step_bounded (l k : Link) (a : LinkAct) (hb : l.Bounded q cap)
    (h : l.step b3 q cap a = some k) : k.Bounded q cap := by
  have hend : ∀ x b e, (l.ends x).step b3 q b = some e → ∀ y,
      (Function.update l.ends x e y).frames.length ≤ q.frames := by
    intro x b e he y
    rcases eq_or_ne y x with rfl | hne
    · simpa using Endpoint.step_frames b3 q _ _ b he (hb.frames y)
    · simpa [hne] using hb.frames y
  cases moves_of_step b3 q cap l k a h with
  | own x b e ha he => exact ⟨hend x b e he,hb.wire⟩
  | write x salt m e hh hw he =>
    refine ⟨hend x _ e he,fun y => ?_⟩
    rcases eq_or_ne y x with rfl | hne
    · simpa using hw
    · simpa [hne] using hb.wire y
  | deliver x validate msg rest e hw he =>
    refine ⟨hend x _ e he,fun y => ?_⟩
    rcases eq_or_ne y (!x) with rfl | hne
    · have hlen := hb.wire (!x)
      rw [hw, List.length_cons] at hlen
      simpa using (Nat.le_succ _).trans hlen
    · simpa [hne] using hb.wire y

/-- The last step into a deadlock is a loop's that took up a frame. -/
theorem step_deadlock (l k : Link) (a : LinkAct) (hb : l.Bounded q cap)
    (h : l.step b3 q cap a = some k) (hk : k.Deadlock q cap) :
    l.Deadlock q cap ∨ ¬l.Yields q cap a := by
  cases moves_of_step b3 q cap l k a h with
  | own x b e ha he =>
    have hx : e.Blocked q := by simpa using (hk x).1
    have hother : l.Stuck q cap (!x) := by simpa [Stuck] using hk (!x)
    rcases Endpoint.step_blocked b3 q _ _ b he ha (hb.frames x) hx with hs | ⟨hbegin,hfull⟩
    · left
      intro y
      rcases Bool.eq_or_eq_not y x with rfl | rfl
      · exact ⟨hs,(hk y).2⟩
      · exact hother
    · right
      exact fun hy => hy x b rfl hbegin ⟨hfull,(hk x).2⟩ hother
  | write x salt m e hh hw he =>
    exfalso
    have hhand := (hk x).1.2.hand
    rw [setWire_ends, setEnd_ends, Function.update_self] at hhand
    cases Endpoint.moves_of_step b3 q _ _ _ he <;> cases hhand
  | deliver x validate msg rest e hw he =>
    exfalso
    have hfull := (hk (!x)).2
    have hlen := hb.wire (!x)
    rw [setWire_wire, Function.update_self] at hfull
    rw [hw, List.length_cons] at hlen
    omega

def Avoids (l : Link) (a : LinkAct) : Prop :=
  ∀ k, l.step b3 q cap a = some k → ¬k.Deadlock q cap

theorem avoids_iff (l : Link) (a : LinkAct) (hb : l.Bounded q cap) (hl : ¬l.Deadlock q cap) :
    l.Avoids b3 q cap a ↔ l.Yields q cap a := by
  constructor
  · rintro ha x b rfl hbegin ⟨hfull,hwire⟩ hother
    obtain ⟨e,he,hblocked⟩ := Endpoint.begins_blocked b3 q _ b hbegin hfull
    have hown : b.isOwn = true := by
      obtain ⟨-,rfl | ⟨rfl,-⟩⟩ := hbegin <;> rfl
    have hstep : l.step b3 q cap (.own x b) = some (l.setEnd x e) := by
      simp [step, hown, he]
    apply ha _ hstep
    intro y
    rcases Bool.eq_or_eq_not y x with rfl | rfl
    · exact ⟨by simpa using hblocked,hwire⟩
    · simpa [Stuck] using hother
  · intro hy k hk hd
    rcases step_deadlock b3 q cap l k a hb hk hd with hl' | hn
    · exact hl hl'
    · exact hn hy

theorem init_live (auth : AuthRequest) (mux : Bool) (ob : Bool → Option Obfuscator) :
    ¬(init auth mux ob).Deadlock q cap := fun h => absurd (h false).1.1 nofun

/-- A run never leads into a deadlock exactly when no jammed loop takes up a
frame of its own accord while the other one is stuck. -/
theorem deadlock_free_iff (auth : AuthRequest) (mux : Bool) (ob : Bool → Option Obfuscator)
    (acts : List LinkAct) :
    Meets (step b3 q cap) (Avoids b3 q cap) acts (init auth mux ob) ↔
      Meets (step b3 q cap) (Yields q cap) acts (init auth mux ob) := by
  refine meets_iff_along (I := fun l => l.Bounded q cap ∧ ¬l.Deadlock q cap) ?_
    (fun l a hi => avoids_iff b3 q cap l a hi.1 hi.2) acts _
    ⟨init_bounded q cap auth mux ob,init_live q cap auth mux ob⟩
  intro l a k hi ha hk
  exact ⟨step_bounded b3 q cap l k a hi.1 hk,ha k hk⟩

/-- Two deadlocked ends: no message is taken, no frame is queued, until a
connection fails. -/
theorem deadlock_stays (l k : Link) (a : LinkAct) (hd : l.Deadlock q cap)
    (ha : ∀ x, a ≠ .own x .writerFail) (h : l.step b3 q cap a = some k) : k.Deadlock q cap := by
  cases moves_of_step b3 q cap l k a h with
  | own x b e hb he =>
    intro y
    rcases eq_or_ne y x with rfl | hne
    · have hf : b ≠ .writerFail := by
        rintro rfl
        exact ha y rfl
      refine ⟨?_,(hd y).2⟩
      simpa using Endpoint.blocked_stays b3 q _ _ b he hb hf (hd y).1
    · simpa [Stuck, hne] using hd y
  | write x salt m e hh hw => exact absurd hw (not_lt.mpr (hd x).2)
  | deliver x validate msg rest e hw he =>
    have hwaits := (hd x).1.1
    cases Endpoint.moves_of_step b3 q _ _ _ he with
    | receive _ _ hc =>
      rw [hc] at hwaits
      cases hwaits

theorem deadlock_forever (acts : List LinkAct) (l k : Link) (hd : l.Deadlock q cap)
    (ha : ∀ a ∈ acts, ∀ x, a ≠ .own x .writerFail) (h : run (step b3 q cap) acts l = some k) :
    k.Deadlock q cap := by
  induction acts generalizing l with
  | nil =>
    cases h
    exact hd
  | cons a acts ih =>
    obtain ⟨m,hm,hr⟩ := run_cons.mp h
    exact ih m (deadlock_stays b3 q cap l m a hd (ha a (by simp)) hm)
      (fun b hb => ha b (by simp [hb])) hr

/-- It is enough that a loop takes up a frame only into a free slot. -/
theorem yields_of_room (l : Link) (a : LinkAct)
    (h : ∀ x b, a = .own x b → (l.ends x).Begins b → (l.ends x).frames.length < q.frames) :
    l.Yields q cap a :=
  fun x b ha hbegin hfull => absurd (h x b ha hbegin) (not_lt.mpr hfull.1.frames)

instance (e : Endpoint) : Decidable (e.Full q) :=
  decidable_of_iff (e.writing = true ∧ q.frames ≤ e.frames.length ∧ e.hand.isSome = true)
    ⟨fun h => ⟨h.1,h.2.1,h.2.2⟩,fun h => ⟨h.writing,h.frames,h.hand⟩⟩

instance (e : Endpoint) : Decidable (e.Blocked q) := inferInstanceAs (Decidable (_ ∧ _))

instance (l : Link) : Decidable (l.Deadlock q cap) :=
  inferInstanceAs (Decidable (∀ x, (l.ends x).Blocked q ∧ cap x ≤ (l.wire x).length))

def exampleAuth : AuthRequest := AuthRequest.newPassword copyHash [1] 0 featureUdp (List.replicate 8 0)

def noSalt : Obfuscator.Salt := ⟨List.replicate Obfuscator.saltLen 0,by decide⟩

def shipped (x : Bool) : List LinkAct :=
  [.own x .push,.own x .finish,.own x .writerTake,.write x noSalt]

def settled : List LinkAct :=
  [.own false (.enter (.sendFrame ⟨0,Frame.frameAuthRequest,exampleAuth.encode⟩)),.own false .take]++
  shipped false++[.deliver true Endpoint.exampleValidator]++shipped true++[.deliver false Endpoint.exampleValidator,
    .own false (.openStream (.domain [97] 80)),
    .own false (.enter (.openStream 1 (.domain [97] 80))),.own false .take]++
  shipped false++[.deliver true Endpoint.exampleValidator,.own true (.emit false),.own true .nextEvent,
    .own true (.replyOpen 1 .ok),.own true (.enter (.replyOpen 1 .ok)),.own true .take]++
  shipped true++[.deliver false Endpoint.exampleValidator]

def pumped (x : Bool) : List LinkAct :=
  ([.check,.chunk [7],.enqueue,.count,.take,.forward true] : List (SendAct Bytes)).map
    (fun a => .own x (.send 1 a))++[.own x .take]

def flooded (x : Bool) : List LinkAct :=
  pumped x++shipped x++pumped x++(shipped x).take 3++pumped x++(shipped x).take 2++pumped x

/-- One stream with four bytes each way deadlocks the two loops. -/
theorem two_way_traffic_deadlocks : ∃ acts l,
    run (step copyHash ⟨1,1,1⟩ fun _ => 1) acts (init exampleAuth false fun _ => none) = some l ∧
      l.Deadlock ⟨1,1,1⟩ (fun _ => 1) ∧
      (∀ x, ((l.ends x).half 1).out.outstanding < recvWindow) := by
  have hd : ((run (step copyHash ⟨1,1,1⟩ fun _ => 1) (settled++flooded false++flooded true)
      (init exampleAuth false fun _ => none)).map fun l => decide (l.Deadlock ⟨1,1,1⟩ (fun _ => 1) ∧
        ∀ x, ((l.ends x).half 1).out.outstanding < recvWindow)) = some true := by decide +kernel
  obtain ⟨l,hr,hl⟩ := Option.map_eq_some_iff.mp hd
  exact ⟨_,l,hr,of_decide_eq_true hl⟩

end Link
end Hydr.Ws
