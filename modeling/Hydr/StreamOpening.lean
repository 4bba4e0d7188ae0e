import Mathlib
import Hydr.StreamFlow

/-!
# The opening of a stream

A stream is asked for once and answered at most once. A side that has not been
registered has no tasks, so nothing of it is on the way; registration therefore
always finds an untouched half.
-/

set_option autoImplicit false

namespace Hydr.Stream

variable {α : Type}

def StreamFrame.isOpen : StreamFrame α → Bool
  | .openStream => true
  | _ => false

def StreamFrame.isAck : StreamFrame α → Bool
  | .ack _ => true
  | _ => false

def StreamFrame.isPayload : StreamFrame α → Bool
  | .data _ => true
  | .close => true
  | _ => false

def Sender.Unborn (s : Sender α) : Prop := s.pump = .absent ∧ s.forwarder = .absent

structure Half.Idle (h : Half α) : Prop where
  credits : h.credits = false
  streams : h.streams = false
  out : h.out = .absent
  inn : h.inn = .absent

namespace Half

theorem deliver_idle (h : Half α) (a : α) (hi : h.Idle) : h.deliver a = h := by
  rw [deliver, if_neg (by simp [hi.streams])]

@[simp] theorem deliver_out (h : Half α) (a : α) : (h.deliver a).out = h.out := by
  unfold deliver
  split_ifs <;> rfl

theorem credit_idle (h : Half α) (n : ℕ) (hi : h.Idle) : (h.credit n).Idle := by
  rw [credit, if_neg (by simp [hi.credits])]
  exact ⟨hi.credits,hi.streams,hi.out,hi.inn⟩

theorem credit_unborn (h : Half α) (n : ℕ) : (h.credit n).out.Unborn ↔ h.out.Unborn := by
  simp only [credit]
  split_ifs <;> rfl

end Half

namespace Flow

def pipe (s : Flow α) (x : Bool) : List (StreamFrame α) := s.wire x++s.cmds x

structure Opening (s : Flow α) : Prop where
  opens : ∀ x, (s.pipe x).countP StreamFrame.isOpen ≤ if x = false ∧ s.stage = .opening then 1 else 0
  acks : ∀ x, (s.pipe x).countP StreamFrame.isAck ≤ if x = true ∧ s.stage = .replied then 1 else 0
  opener : s.stage ≠ .settled → (s.half false).Idle
  acceptor : s.stage = .fresh ∨ s.stage = .opening ∨ s.stage = .offered → (s.half true).Idle
  answering : (s.cmds true).countP StreamFrame.isAck ≠ 0 → (s.half true).Idle
  registering : s.loop true = .register → (s.half true).Idle ∧
    (s.stage = .replied ∨ s.stage = .settled) ∧ (s.cmds true).countP StreamFrame.isAck = 0
  asking : s.loop false ≠ .register
  silent : ∀ x, (s.half x).out.Unborn → (s.pipe x).countP StreamFrame.isPayload = 0

theorem init_opening : Opening (init : Flow α) := by
  have hi : (Half.absent : Half α).Idle := ⟨rfl,rfl,rfl,rfl⟩
  constructor
  · simp [init, pipe]
  · simp [init, pipe]
  · exact fun _ => hi
  · exact fun _ => hi
  · exact fun _ => hi
  · exact fun hl => by cases hl
  · exact fun hl => by cases hl
  · exact fun _ _ => rfl

theorem setHalf_opening (s : Flow α) (h : Opening s) (x : Bool) (g : Half α)
    (hi : (s.half x).Idle → g.Idle) (hu : g.out.Unborn → (s.half x).out.Unborn) :
    Opening (s.setHalf x g) := by
  have hkeep : ∀ y, (s.half y).Idle → ((s.setHalf x g).half y).Idle := by
    intro y hy
    rcases eq_or_ne y x with rfl | hne
    · simpa using hi hy
    · simpa [hne] using hy
  refine ⟨h.opens,h.acks,fun hs => hkeep _ (h.opener hs),fun hs => hkeep _ (h.acceptor hs),
    fun hc => hkeep _ (h.answering hc),fun hl => ?_,h.asking,fun y hy => ?_⟩
  · exact ⟨hkeep _ (h.registering hl).1,(h.registering hl).2⟩
  · apply h.silent y
    rcases eq_or_ne y x with rfl | hne
    · exact hu (by simpa using hy)
    · simpa [hne] using hy

theorem setLoop_opening (s : Flow α) (h : Opening s) (x : Bool) (l : Loop)
    (hl : l ≠ .register) : Opening (s.setLoop x l) := by
  refine ⟨h.opens,h.acks,h.opener,h.acceptor,h.answering,fun hr => ?_,fun hr => ?_,h.silent⟩
  · apply h.registering
    rcases eq_or_ne true x with rfl | hne
    · exact absurd (by simpa using hr) hl
    · simpa [hne] using hr
  · rcases eq_or_ne false x with rfl | hne
    · exact hl (by simpa using hr)
    · exact h.asking (by simpa [hne] using hr)

/-- Frames may go away, and frames that open nothing may come while their side
is registered. -/
theorem queue_opening (s : Flow α) (h : Opening s) (wire cmds : Bool → List (StreamFrame α))
    (ho : ∀ x, (wire x++cmds x).countP StreamFrame.isOpen ≤ (s.pipe x).countP StreamFrame.isOpen)
    (ha : ∀ x, (wire x++cmds x).countP StreamFrame.isAck ≤ (s.pipe x).countP StreamFrame.isAck)
    (hc : (cmds true).countP StreamFrame.isAck ≤ (s.cmds true).countP StreamFrame.isAck)
    (hp : ∀ x, (s.half x).out.Unborn →
      (wire x++cmds x).countP StreamFrame.isPayload ≤ (s.pipe x).countP StreamFrame.isPayload) :
    Opening { s with wire := wire, cmds := cmds } := by
  refine ⟨fun x => (ho x).trans (h.opens x),fun x => (ha x).trans (h.acks x),h.opener,h.acceptor,
    fun hne => h.answering ?_,fun hl => ?_,h.asking,fun x hx => ?_⟩
  · simp only at hne
    omega
  · obtain ⟨hi,hs,h0⟩ := h.registering hl
    exact ⟨hi,hs,by simp only; omega⟩
  · have h0 := h.silent x hx
    have hle := hp x hx
    exact Nat.eq_zero_of_le_zero (h0 ▸ hle)

theorem emit_opening (s : Flow α) (h : Opening s) (x : Bool) (f : Option (StreamFrame α))
    (hf : ∀ c ∈ f, c.isOpen = false ∧ c.isAck = false)
    (hp : (s.half x).out.Unborn → ∀ c ∈ f, c.isPayload = false) : Opening (s.emit x f) := by
  have hcount : ∀ (p : StreamFrame α → Bool) y, (y = x → f.toList.countP p = 0) →
      ((s.emit x f).cmds y).countP p = (s.cmds y).countP p := by
    intro p y hy
    rcases eq_or_ne y x with rfl | hne
    · simp [hy rfl]
    · simp [hne]
  have ho : f.toList.countP StreamFrame.isOpen = 0 := by
    cases f <;> simp_all
  have ha : f.toList.countP StreamFrame.isAck = 0 := by
    cases f <;> simp_all
  have hq : Opening { s with cmds := (s.emit x f).cmds } := by
    apply queue_opening s h s.wire
    · intro y
      rw [pipe, List.countP_append, List.countP_append]
      exact (congrArg _ (hcount _ y fun _ => ho)).le
    · intro y
      rw [pipe, List.countP_append, List.countP_append]
      exact (congrArg _ (hcount _ y fun _ => ha)).le
    · exact (hcount _ true fun _ => ha).le
    · intro y hy
      rw [pipe, List.countP_append, List.countP_append]
      refine (congrArg _ (hcount _ y ?_)).le
      rintro rfl
      cases f <;> simp_all
  exact ⟨hq.opens,hq.acks,hq.opener,hq.acceptor,hq.answering,hq.registering,hq.asking,hq.silent⟩

theorem ship_opening (s : Flow α) (h : Opening s) (x : Bool) (f : StreamFrame α)
    (cmds : List (StreamFrame α)) (hc : s.cmds x = f::cmds) (hl : s.loop x = .free) :
    Opening ({ s with
      cmds := Function.update s.cmds x cmds
      wire := Function.update s.wire x (s.wire x++[f]) }.setLoop x (afterShip f)) := by
  have hpipe : ∀ y, Function.update s.wire x (s.wire x++[f]) y++Function.update s.cmds x cmds y =
      s.pipe y := by
    intro y
    rcases eq_or_ne y x with rfl | hne
    · simp [pipe, hc]
    · simp [pipe, hne]
  have hacks : (Function.update s.cmds x cmds true).countP StreamFrame.isAck ≤
      (s.cmds true).countP StreamFrame.isAck := by
    rcases eq_or_ne true x with rfl | hne
    · simp [hc, List.countP_cons]
    · simp [hne]
  have hs := queue_opening s h (Function.update s.wire x (s.wire x++[f]))
    (Function.update s.cmds x cmds) (fun y => by rw [hpipe]) (fun y => by rw [hpipe]) hacks
    (fun y _ => by rw [hpipe])
  by_cases hr : afterShip f = .register
  · obtain rfl := (afterShip_register f).mp hr
    have hack := h.acks x
    rw [pipe, List.countP_append, hc, List.countP_cons_of_pos rfl] at hack
    split_ifs at hack with hx
    · obtain ⟨rfl,hst⟩ := hx
      have hi : (s.half true).Idle := by
        apply h.answering
        rw [hc, List.countP_cons_of_pos rfl]
        omega
      refine ⟨hs.opens,hs.acks,hs.opener,hs.acceptor,hs.answering,fun _ => ⟨hi,Or.inl hst,?_⟩,
        ?_,hs.silent⟩
      · simp only [setLoop_cmds, Function.update_self]
        omega
      · simpa using h.asking
    · omega
  · exact setLoop_opening _ hs x _ hr

theorem pop_opening (s : Flow α) (h : Opening s) (x : Bool) (f : StreamFrame α)
    (rest : List (StreamFrame α)) (hw : s.wire x = f::rest) :
    Opening { s with wire := Function.update s.wire x rest } := by
  have hsub : ∀ y, (Function.update s.wire x rest y++s.cmds y).Sublist (s.pipe y) := by
    intro y
    rcases eq_or_ne y x with rfl | hne
    · simp [pipe, hw]
    · simp [pipe, hne]
  exact queue_opening s h _ _ (fun y => (hsub y).countP_le) (fun y => (hsub y).countP_le) le_rfl
    (fun y _ => (hsub y).countP_le)

theorem registerOpener_opening (s : Flow α) (h : Opening s) (hs : s.stage = .settled) :
    Opening (s.setHalf false .register) := by
  refine ⟨h.opens,h.acks,fun hn => absurd hs hn,h.acceptor,h.answering,h.registering,h.asking,
    fun y hy => ?_⟩
  cases y with
  | true => exact h.silent true hy
  | false => cases hy.1

theorem registerAcceptor_opening (s : Flow α) (h : Opening s) (hl : s.loop true = .register) :
    Opening ((s.setHalf true .register).setLoop true .free) := by
  obtain ⟨-,hs,ha⟩ := h.registering hl
  refine ⟨h.opens,h.acks,h.opener,fun hn => ?_,fun hn => absurd ha hn,fun hn => by simp at hn,
    h.asking,fun y hy => ?_⟩
  · rcases hs with hs | hs <;> simp [hs] at hn
  · cases y with
    | true => cases hy.1
    | false => exact h.silent false hy

theorem handleOpen_opening (s : Flow α) (h : Opening s) (offer : Offer)
    (rest : List (StreamFrame α)) (hw : s.wire false = .openStream::rest) :
    Opening ({ s with wire := Function.update s.wire false rest }.handleFrame true offer
      .openStream) := by
  have hopen := h.opens false
  have hp := pop_opening s h false .openStream rest hw
  rw [pipe, hw, List.cons_append, List.countP_cons_of_pos rfl] at hopen
  have hst : s.stage = .opening := by
    by_contra hn
    rw [if_neg (fun hx => hn hx.2)] at hopen
    omega
  rw [if_pos ⟨rfl,hst⟩] at hopen
  have hi : (s.half true).Idle := h.acceptor (Or.inr (Or.inl hst))
  have hl : s.loop true ≠ .register := by
    intro hl
    rcases (h.registering hl).2.1 with hs | hs <;> simp [hst] at hs
  have hf : ∀ y, (Function.update s.wire false rest y++s.cmds y).countP StreamFrame.isOpen = 0 := by
    intro y
    cases y with
    | false => rw [Function.update_self]; omega
    | true => exact Nat.eq_zero_of_le_zero (h.opens true)
  have ha : ∀ y, (Function.update s.wire false rest y++s.cmds y).countP StreamFrame.isAck = 0 := by
    intro y
    have hy := hp.acks y
    simp only [hst, reduceCtorEq, and_false, if_false] at hy
    exact Nat.eq_zero_of_le_zero hy
  cases offer with
  | accept =>
    exact ⟨fun y => (hf y).le.trans (Nat.zero_le _),fun y => (ha y).le.trans (Nat.zero_le _),
      fun _ => h.opener (by simp [hst]),fun _ => hi,fun _ => hi,fun hr => absurd hr hl,h.asking,
      hp.silent⟩
  | ignore =>
    exact ⟨fun y => (hf y).le.trans (Nat.zero_le _),fun y => (ha y).le.trans (Nat.zero_le _),
      fun hn => absurd rfl hn,fun hn => by simp [handleFrame] at hn,fun _ => hi,
      fun hr => absurd hr hl,h.asking,hp.silent⟩
  | reject =>
    have hcmd : ∀ (p : StreamFrame α → Bool) y,
        (Function.update s.wire false rest y++
          Function.update s.cmds true (.ack false::s.cmds true) y).countP p =
        (Function.update s.wire false rest y++s.cmds y).countP p+
          (if y = true ∧ p (.ack false) then 1 else 0) := by
      intro p y
      cases y with
      | false => simp
      | true => by_cases hq : p (.ack false) <;> simp [hq, Nat.add_assoc]
    refine ⟨fun y => ?_,fun y => ?_,fun _ => h.opener (by simp [hst]),
      fun hn => by simp [handleFrame] at hn,fun _ => hi,fun hr => absurd hr hl,h.asking,
      fun y hy => ?_⟩
    · refine (hcmd _ y).le.trans ?_
      rw [hf y, if_neg (fun hx => by cases hx.2)]
      exact Nat.zero_le _
    · refine (hcmd _ y).le.trans ?_
      rw [ha y]
      cases y <;> simp [handleFrame, StreamFrame.isAck]
    · refine (hcmd _ y).trans ?_
      rw [if_neg (fun hx => by cases hx.2)]
      exact hp.silent y hy

theorem ack_idle (s : Flow α) (h : Opening s) (ok : Bool) (rest : List (StreamFrame α))
    (hw : s.wire true = .ack ok::rest) : (s.half false).Idle := by
  apply h.opener
  intro hs
  have hack := h.acks true
  rw [pipe, hw, List.cons_append, List.countP_cons_of_pos rfl, hs] at hack
  simp at hack

theorem handleAck_opening (s : Flow α) (h : Opening s) (offer : Offer) (ok : Bool)
    (rest : List (StreamFrame α)) (hw : s.wire true = .ack ok::rest) :
    Opening ({ s with wire := Function.update s.wire true rest }.handleFrame false offer
      (.ack ok)) := by
  have hack := h.acks true
  have hp := pop_opening s h true (.ack ok) rest hw
  rw [pipe, hw, List.cons_append, List.countP_cons_of_pos rfl] at hack
  have hst : s.stage = .replied := by
    by_contra hn
    rw [if_neg (fun hx => hn hx.2)] at hack
    omega
  rw [if_pos ⟨rfl,hst⟩] at hack
  have hsettled : ∀ pending, Opening { s with
      wire := Function.update s.wire true rest
      stage := .settled
      pending := pending } := by
    intro pending
    refine ⟨fun y => (hp.opens y).trans ?_,fun y => ?_,fun hn => absurd rfl hn,
      fun hn => by simp at hn,hp.answering,
      fun hr => ⟨(hp.registering hr).1,Or.inr rfl,(hp.registering hr).2.2⟩,hp.asking,hp.silent⟩
    · simp [hst]
    · cases y with
      | false => exact h.acks false
      | true =>
        simp only [pipe, Function.update_self, reduceCtorEq, and_false, if_false]
        omega
  simp only [handleFrame]
  split_ifs
  · exact registerOpener_opening _ (hsettled false) rfl
  · exact hsettled false
  · exact hsettled s.pending

theorem handle_opening (s : Flow α) (h : Opening s) (x : Bool) (offer : Offer)
    (f : StreamFrame α) (rest : List (StreamFrame α)) (hw : s.wire (!x) = f::rest) :
    Opening ({ s with wire := Function.update s.wire (!x) rest }.handleFrame x offer f) := by
  have hp := pop_opening s h (!x) f rest hw
  cases f with
  | openStream =>
    cases x with
    | true => exact handleOpen_opening s h offer rest hw
    | false =>
      have hn := h.opens true
      simp only [Bool.not_false] at hw
      rw [pipe, hw, List.cons_append, List.countP_cons_of_pos rfl] at hn
      simp at hn
  | ack ok =>
    cases x with
    | false => exact handleAck_opening s h offer ok rest hw
    | true =>
      have hn := h.acks false
      simp only [Bool.not_true] at hw
      rw [pipe, hw, List.cons_append, List.countP_cons_of_pos rfl] at hn
      simp at hn
  | data a =>
    apply setHalf_opening _ hp x
    · exact fun hi => (Half.deliver_idle _ a hi).symm ▸ hi
    · rw [Half.deliver_out]
      exact id
  | credit n =>
    have hc := setHalf_opening _ hp x ((s.half x).credit n) (fun hi => Half.credit_idle _ n hi)
      (fun hu => (Half.credit_unborn _ n).mp hu)
    simp only [handleFrame]
    split_ifs
    · exact setLoop_opening _ hc x _ (by decide)
    · exact hc
  | close => exact setHalf_opening _ hp x _ (fun hi => ⟨rfl,rfl,hi.out,hi.inn⟩) id

theorem ask_opening (s : Flow α) (h : Opening s) (hs : s.stage = .fresh) :
    Opening ({ s with stage := .opening }.emit false (some .openStream)) := by
  have ho := h.opens
  have ha := h.acks
  simp only [hs, reduceCtorEq, and_false, if_false, Nat.le_zero] at ho ha
  have hpipe : ∀ (p : StreamFrame α → Bool) y,
      (({ s with stage := .opening }.emit false (some .openStream)).pipe y).countP p =
        (s.pipe y).countP p+(if y = false ∧ p .openStream then 1 else 0) := by
    intro p y
    cases y with
    | true => simp [pipe]
    | false => by_cases hq : p .openStream <;> simp [pipe, hq, Nat.add_assoc]
  refine ⟨fun y => ?_,fun y => ?_,fun _ => h.opener (by simp [hs]),fun _ => h.acceptor (Or.inl hs),
    fun hc => h.answering (by simpa using hc),fun hl => ?_,h.asking,fun y hy => ?_⟩
  · rw [hpipe, ho]
    cases y <;> simp [StreamFrame.isOpen]
  · rw [hpipe, ha, if_neg (fun hx => by cases hx.2)]
    exact Nat.zero_le _
  · rcases (h.registering hl).2.1 with hr | hr <;> simp [hs] at hr
  · rw [hpipe, if_neg (fun hx => by cases hx.2)]
    exact h.silent y hy

theorem reply_opening (s : Flow α) (h : Opening s) (ok : Bool) (hs : s.stage = .offered) :
    Opening ({ s with stage := .replied }.emit true (some (.ack ok))) := by
  have ho := h.opens
  have ha := h.acks
  simp only [hs, reduceCtorEq, and_false, if_false, Nat.le_zero] at ho ha
  have hi : (s.half true).Idle := h.acceptor (Or.inr (Or.inr hs))
  have hpipe : ∀ (p : StreamFrame α → Bool) y,
      (({ s with stage := .replied }.emit true (some (.ack ok))).pipe y).countP p =
        (s.pipe y).countP p+(if y = true ∧ p (.ack ok) then 1 else 0) := by
    intro p y
    cases y with
    | false => simp [pipe]
    | true => by_cases hq : p (.ack ok) <;> simp [pipe, hq, Nat.add_assoc]
  refine ⟨fun y => ?_,fun y => ?_,fun _ => h.opener (by simp [hs]),fun _ => hi,fun _ => hi,
    fun hl => ?_,h.asking,fun y hy => ?_⟩
  · rw [hpipe, ho, if_neg (fun hx => by cases hx.2)]
    exact Nat.zero_le _
  · rw [hpipe, ha]
    cases y <;> simp [StreamFrame.isAck]
  · rcases (h.registering hl).2.1 with hr | hr <;> simp [hs] at hr
  · rw [hpipe, if_neg (fun hx => by cases hx.2)]
    exact h.silent y hy

theorem endLoop_opening (s : Flow α) (h : Opening s) (x : Bool) :
    Opening (({ s with cmds := Function.update s.cmds x [] }.setHalf x (s.half x).orphan).setLoop x
      .ended) := by
  have hsub : ∀ y, (Function.update s.cmds x [] y).Sublist (s.cmds y) := by
    intro y
    rcases eq_or_ne y x with rfl | hne
    · simp
    · simp [hne]
  have hpipe : ∀ y, (s.wire y++Function.update s.cmds x [] y).Sublist (s.pipe y) :=
    fun y => (hsub y).append_left _
  have hq := queue_opening s h s.wire (Function.update s.cmds x []) (fun y => (hpipe y).countP_le)
    (fun y => (hpipe y).countP_le) (hsub true).countP_le (fun y _ => (hpipe y).countP_le)
  apply setLoop_opening
  · apply setHalf_opening _ hq
    · exact fun hi => ⟨rfl,rfl,hi.out,hi.inn⟩
    · exact id
  · decide

end Flow

variable [Chunk α]

theorem Sender.absent_still (a : SendAct α) (t : Sender α) (f : Option (StreamFrame α))
    (h : Sender.Moves .absent a t f) : False := by
  cases h <;> simp_all [Sender.absent]

theorem Receiver.absent_still (closed : Bool) (a : RecvAct) (t : Receiver α)
    (f : Option (StreamFrame α)) (h : Receiver.Moves closed .absent a t f) : False := by
  cases h <;> simp_all [Receiver.absent]

theorem Sender.moves_emit (s t : Sender α) (a : SendAct α) (f : Option (StreamFrame α))
    (h : Sender.Moves s a t f) : f = none ∨ (∃ c, f = some (.data c)) ∨ f = some .close := by
  cases h with
  | close ok => cases ok <;> simp
  | _ => simp

theorem Receiver.moves_emit (closed : Bool) (r t : Receiver α) (a : RecvAct)
    (f : Option (StreamFrame α)) (h : Receiver.Moves closed r a t f) :
    f = none ∨ ∃ n, f = some (.credit n) := by
  cases h <;> simp

namespace Flow

theorem send_opening (s : Flow α) (h : Opening s) (x : Bool) (a : SendAct α) (out : Sender α)
    (f : Option (StreamFrame α)) (hm : Sender.Moves (s.half x).out a out f) :
    Opening ((s.setHalf x { s.half x with out := out }).emit x f) := by
  have hb : ¬(s.half x).Idle := by
    intro hi
    rw [hi.out] at hm
    exact Sender.absent_still a out f hm
  have hu : ¬out.Unborn := by
    rintro ⟨hp,hf⟩
    cases hm <;> simp_all
  apply emit_opening
  · exact setHalf_opening s h x _ (fun hi => absurd hi hb) (fun ho => absurd ho hu)
  · intro c hc
    rcases Sender.moves_emit _ _ _ _ hm with rfl | ⟨d,rfl⟩ | rfl <;>
      cases hc <;> exact ⟨rfl,rfl⟩
  · intro ho
    simp only [setHalf_half, Function.update_self] at ho
    exact absurd ho hu

theorem recv_opening (s : Flow α) (h : Opening s) (x : Bool) (closed : Bool) (a : RecvAct)
    (inn : Receiver α) (f : Option (StreamFrame α))
    (hm : Receiver.Moves closed (s.half x).inn a inn f) :
    Opening ((s.setHalf x { s.half x with inn := inn }).emit x f) := by
  have hb : ¬(s.half x).Idle := by
    intro hi
    rw [hi.inn] at hm
    exact Receiver.absent_still closed a inn f hm
  apply emit_opening
  · exact setHalf_opening s h x _ (fun hi => absurd hi hb) id
  · intro c hc
    rcases Receiver.moves_emit _ _ _ _ _ hm with rfl | ⟨n,rfl⟩ <;> cases hc
    exact ⟨rfl,rfl⟩
  · intro _ c hc
    rcases Receiver.moves_emit _ _ _ _ _ hm with rfl | ⟨n,rfl⟩ <;> cases hc
    rfl

theorem step_opening (s : Flow α) (a : Act α) (t : Flow α) (h : Opening s)
    (hst : s.step a = some t) : Opening t := by
  cases moves_of_step s t a hst with
  | ask hs => exact ask_opening s h hs
  | ship x f cmds hc hl => exact ship_opening s h x f cmds hc hl
  | pend x hl =>
    apply setLoop_opening _ _ x _ (by decide)
    exact ⟨h.opens,h.acks,h.opener,h.acceptor,h.answering,h.registering,h.asking,h.silent⟩
  | register x hl =>
    cases x with
    | false => exact absurd hl h.asking
    | true => exact registerAcceptor_opening s h hl
  | handle x offer f rest hw => exact handle_opening s h x offer f rest hw
  | notify x hl =>
    apply setLoop_opening _ _ x _ (by decide)
    apply setHalf_opening s h x
    · intro hi
      refine ⟨hi.credits,hi.streams,?_,hi.inn⟩
      rw [hi.out]
      rfl
    · exact id
  | reply ok hs => exact reply_opening s h ok hs
  | send x a out f _ hm => exact send_opening s h x a out f hm
  | recv x a inn f _ hm => exact recv_opening s h x _ a inn f hm
  | endLoop x => exact endLoop_opening s h x

end Flow
end Hydr.Stream
