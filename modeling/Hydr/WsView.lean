import Mathlib
import Hydr.WsHonest

/-!
# What one stream sees of an end

An end of a connection as one stream sees it: its own half, what keeps the loop
from the next frame of the stream, the stream's frames in the command channel
and beyond it, and who has still to ask for the stream or to answer it. Every
step of an end is one of a few steps of this view, or none at all.
-/

set_option autoImplicit false

namespace Hydr.Ws
open Message Varint Hydr.Stream

def frameOf (id : ℕ) (f : Frame) : Option (StreamFrame Bytes) :=
  if f.streamId = id then
    match kind f.frameType with
    | .openStream => some .openStream
    | .openStreamAck => some (.ack (f.body.head? == some statusOk))
    | .streamData => some (.data f.body)
    | .streamCredit => (decodeVarint f.body).toOption.map fun p => .credit p.1
    | .streamClose => some .close
    | _ => none
  else none

def cmdOf (id : ℕ) : Cmd → Option (StreamFrame Bytes)
  | .sendFrame f => frameOf id f
  | .openStream i _ => if i = id then some .openStream else none
  | .replyOpen i ack => if i = id then some (.ack (ack.status == statusOk)) else none
  | .close => none

def Control.held : Control → List Frame
  | .sending f _ => [f]
  | _ => []

def Control.loop (id : ℕ) : Control → Loop
  | .finishing (.pend i) => if i = id then .pend else .free
  | .finishing (.register i) => if i = id then .register else .free
  | .granting i => if i = id then .granting else .free
  | .ended => .ended
  | _ => .free

def Cmd.asks (id : ℕ) : Cmd → Bool
  | .openStream i _ => i == id
  | _ => false

def Cmd.replies (id : ℕ) : Cmd → Bool
  | .replyOpen i _ => i == id
  | _ => false

@[ext] structure View where
  half : Half Bytes
  loop : Loop
  queued : List (StreamFrame Bytes)
  unsent : List (StreamFrame Bytes)
  writing : Bool
  pending : Bool
  asks : ℕ
  reached : Bool
  offers : ℕ

namespace Endpoint

def queued (e : Endpoint) (id : ℕ) : List (StreamFrame Bytes) :=
  e.control.held.filterMap (frameOf id)++e.cmds.filterMap (cmdOf id)

def view (e : Endpoint) (id : ℕ) : View where
  half := e.half id
  loop := e.control.loop id
  queued := e.queued id
  unsent := e.unsent.filterMap (frameOf id)
  writing := e.writing
  pending := decide (id ∈ e.pending)
  asks := e.callers.countP (Cmd.asks id)
  reached := decide (id ≤ e.nextStreamId)
  offers := e.unanswered.count id+e.callers.countP (Cmd.replies id)

end Endpoint

inductive View.Moves (v : View) : View → Prop where
  | same : Moves v v
  | forget (k : ℕ) (hk : k ≤ v.offers) : Moves v { v with offers := k }
  | reserve (hr : v.reached = false) : Moves v { v with asks := v.asks+1, reached := true }
  | ask (ha : 0 < v.asks) (hl : v.loop ≠ .ended) :
    Moves v { v with asks := v.asks-1, queued := v.queued++[.openStream] }
  | reply (ok : Bool) (ho : 0 < v.offers) (hl : v.loop ≠ .ended) :
    Moves v { v with offers := v.offers-1, queued := v.queued++[.ack ok] }
  | ship (f : StreamFrame Bytes) (rest : List (StreamFrame Bytes)) (hq : v.queued = f::rest)
      (hl : v.loop = .free) (hw : v.writing = true) :
    Moves v { v with queued := rest, unsent := v.unsent++[f], loop := Flow.afterShip f }
  | pend (hl : v.loop = .pend) : Moves v { v with loop := .free, pending := true }
  | register (hl : v.loop = .register) : Moves v { v with loop := .free, half := .register }
  | notify (hl : v.loop = .granting) :
    Moves v { v with loop := .free, half := { v.half with out := v.half.out.notify } }
  | send (a : SendAct Bytes) (out : Sender Bytes) (f : Option (StreamFrame Bytes))
      (ha : a.admits (v.loop != .ended) = true) (hm : v.half.out.step a = some (out,f)) :
    Moves v { v with half := { v.half with out := out }, queued := v.queued++f.toList }
  | recv (a : RecvAct) (inn : Receiver Bytes) (f : Option (StreamFrame Bytes))
      (ha : a.admits (v.loop != .ended) = true)
      (hm : v.half.inn.step (!v.half.streams) a = some (inn,f)) :
    Moves v { v with half := { v.half with inn := inn }, queued := v.queued++f.toList }
  | endLoop (hl : v.loop = .free) :
    Moves v { v with half := v.half.orphan, loop := .ended, queued := [], pending := false }
  | writerFail : Moves v { v with unsent := [], writing := false }

inductive View.Hears (v : View) : Option (StreamFrame Bytes) → View → Prop where
  | nothing : Hears v none v
  | refuse : Hears v (some .openStream) { v with queued := .ack false::v.queued }
  | offer : Hears v (some .openStream) { v with offers := v.offers+1 }
  | ignore : Hears v (some .openStream) v
  | ack (ok : Bool) (hp : v.pending = true) : Hears v (some (.ack ok))
    { v with pending := false, half := if ok then .register else v.half }
  | stray (ok : Bool) (hp : v.pending = false) : Hears v (some (.ack ok)) v
  | data (c : Bytes) : Hears v (some (.data c)) { v with half := v.half.deliver c }
  | credit (n : ℕ) : Hears v (some (.credit n))
    { v with half := v.half.credit n, loop := if v.half.credits then .granting else v.loop }
  | close : Hears v (some .close) { v with half := v.half.close }

theorem frameOf_unconcerned (id : ℕ) (f : Frame) (h : (kind f.frameType).concerns = false) :
    frameOf id f = none := by
  unfold frameOf
  cases hk : kind f.frameType <;> simp_all [Kind.concerns]

theorem frameOf_other (id : ℕ) (f : Frame) (h : f.streamId ≠ id) : frameOf id f = none :=
  if_neg h

@[simp] theorem frameOf_open (id i : ℕ) (body : Bytes) :
    frameOf id ⟨i,Frame.frameOpenStream,body⟩ = if i = id then some .openStream else none := by
  simp [frameOf]

@[simp] theorem frameOf_ack (id i : ℕ) (ack : OpenStreamAck) :
    frameOf id ⟨i,Frame.frameOpenStreamAck,ack.encode⟩ =
      if i = id then some (.ack (ack.status == statusOk)) else none := by
  simp [frameOf, OpenStreamAck.encode]

theorem frameOf_task (id i : ℕ) (g : StreamFrame Bytes) (hg : ∀ n, g = .credit n → n < 2^62) :
    frameOf id (taskFrame i g) = if i = id then some g else none := by
  cases g with
  | openStream => simp [taskFrame]
  | ack ok =>
    simp only [taskFrame, frameOf_ack]
    cases ok <;> rfl
  | data c => simp [taskFrame, Frame.data, frameOf]
  | credit n =>
    have hd := Varint.decode_encode_small n [] (hg n rfl)
    rw [List.append_nil] at hd
    simp [taskFrame, frameOf, hd, Except.toOption]
  | close => simp [taskFrame, frameOf]

theorem fits_loop (id : ℕ) (f : Frame) (after : After) (h : after.Fits f) :
    (Control.finishing after).loop id = ((frameOf id f).map Flow.afterShip).getD .free := by
  cases after with
  | nothing =>
    obtain ⟨ho,hack⟩ := h
    unfold frameOf
    split_ifs
    · cases hk : kind f.frameType with
      | openStream => exact absurd hk ho
      | openStreamAck =>
        have hne : (f.body.head? == some statusOk) = false := by simpa using hack hk
        rw [hne]
        rfl
      | streamCredit =>
        cases decodeVarint f.body <;> rfl
      | _ => rfl
    · rfl
  | pend i =>
    obtain ⟨body,rfl⟩ := h
    rw [frameOf_open, Control.loop]
    split_ifs <;> rfl
  | register i =>
    obtain ⟨ack,rfl,hok⟩ := h
    rw [frameOf_ack, Control.loop]
    split_ifs
    · simp [hok, Flow.afterShip]
    · rfl

namespace Endpoint

theorem view_alive (e : Endpoint) (id : ℕ) : e.alive = ((e.view id).loop != .ended) := by
  unfold alive view Control.loop
  cases e.control with
  | finishing after =>
    cases after with
    | nothing => rfl
    | pend i | register i =>
      dsimp only
      split_ifs <;> rfl
  | granting i =>
    dsimp only
    split_ifs <;> rfl
  | _ => rfl

theorem queue_queued (e : Endpoint) (c : Cmd) (id : ℕ) :
    (e.queue c).queued id = e.queued id++(cmdOf id c).toList := by
  cases hc : cmdOf id c <;> simp [queued, queue, hc]

theorem select_queued (e : Endpoint) (id : ℕ) (hc : e.control = .select) :
    e.queued id = e.cmds.filterMap (cmdOf id) := by simp [queued, hc, Control.held]

theorem endLoop_moves (e : Endpoint) (id : ℕ) (hl : (e.view id).loop = .free)
    (hu : e.control.offer = []) : View.Moves (e.view id) (e.endLoop.view id) := by
  have ho : e.endLoop.unanswered = e.unanswered := by
    rw [unanswered, unanswered, hu]
    rfl
  have hv : e.endLoop.view id = { e.view id with
      half := (e.view id).half.orphan
      loop := .ended
      queued := []
      pending := false } := by
    simp [view, queued, unsent, ho, Control.loop, Control.held]
  rw [hv]
  exact .endLoop hl

theorem enter_moves (e : Endpoint) (ht : e.Tame) (id : ℕ) (hid : id ≠ 0) (c : Cmd)
    (hc : c ∈ e.callers) (hl : (e.view id).loop ≠ .ended) :
    View.Moves (e.view id) ((({ e with callers := e.callers.erase c } : Endpoint).queue c).view id) := by
  have hasks : (e.callers.erase c).countP (Cmd.asks id) =
      e.callers.countP (Cmd.asks id)-(if c.asks id then 1 else 0) := by
    simp [List.countP_erase, hc]
  have hreplies : (e.callers.erase c).countP (Cmd.replies id) =
      e.callers.countP (Cmd.replies id)-(if c.replies id then 1 else 0) := by
    simp [List.countP_erase, hc]
  have hpos : ∀ p : Cmd → Bool, p c = true → 0 < e.callers.countP p :=
    fun p hp => List.countP_pos_iff.mpr ⟨c,hc,hp⟩
  set t := ({ e with callers := e.callers.erase c } : Endpoint).queue c with htdef
  have hview : t.view id = { e.view id with
      queued := e.queued id++(cmdOf id c).toList
      asks := e.callers.countP (Cmd.asks id)-(if c.asks id then 1 else 0)
      offers := e.unanswered.count id+
        (e.callers.countP (Cmd.replies id)-(if c.replies id then 1 else 0)) } := by
    rw [htdef, view, queue_queued]
    simp only [queue, hasks, hreplies]
    rfl
  rw [hview]
  cases c with
  | sendFrame f =>
    have hf : cmdOf id (.sendFrame f) = none := by
      rcases (ht.callers _ hc).2 with h0 | hu
      · exact frameOf_other id f (by omega)
      · exact frameOf_unconcerned id f hu
    simp only [hf, Cmd.asks, Cmd.replies, Option.toList_none, List.append_nil]
    exact .same
  | openStream i address =>
    rcases eq_or_ne i id with rfl | hne
    · have ha := hpos (Cmd.asks i) (by simp [Cmd.asks])
      simp only [cmdOf, Cmd.asks, Cmd.replies, if_true, beq_self_eq_true, Option.toList_some]
      exact .ask ha hl
    · simp only [cmdOf, Cmd.asks, Cmd.replies, if_neg hne, beq_eq_false_iff_ne.mpr hne]
      simp only [Option.toList_none, List.append_nil]
      exact .same
  | replyOpen i ack =>
    rcases eq_or_ne i id with rfl | hne
    · have hr := hpos (Cmd.replies i) (by simp [Cmd.replies])
      simp only [cmdOf, Cmd.asks, Cmd.replies, if_true, beq_self_eq_true, Option.toList_some]
      have ho : 0 < (e.view i).offers := Nat.add_pos_right _ hr
      have hm := View.Moves.reply (ack.status == statusOk) ho hl
      rwa [show (e.view i).offers-1 = e.unanswered.count i+(e.callers.countP (Cmd.replies i)-1) from
        Nat.add_sub_assoc hr _] at hm
    · simp only [cmdOf, Cmd.asks, Cmd.replies, if_neg hne, beq_eq_false_iff_ne.mpr hne]
      simp only [Option.toList_none, List.append_nil]
      exact .same
  | close =>
    simp only [cmdOf, Cmd.asks, Cmd.replies, Option.toList_none, List.append_nil]
    exact .same

theorem take_moves (e : Endpoint) (id : ℕ) (c : Cmd) (cmds : List Cmd) (hc : e.control = .select)
    (hq : e.cmds = c::cmds) :
    View.Moves (e.view id) ((({ e with cmds := cmds } : Endpoint).command c).view id) := by
  have hsend : ∀ f after, (frameOf id f) = cmdOf id c →
      (({ e with cmds := cmds } : Endpoint).setControl (.sending f after)).view id = e.view id := by
    intro f after hf
    have hqueue : (({ e with cmds := cmds } : Endpoint).setControl (.sending f after)).queued id =
        e.queued id := by
      rw [select_queued e id hc, hq]
      cases hcmd : cmdOf id c <;> simp [queued, Control.held, hf, hcmd]
    simp only [view, hqueue]
    simp [unsent, unanswered, hc, Control.loop, Control.offer]
  cases c with
  | sendFrame f =>
    rw [command, hsend f _ rfl]
    exact .same
  | openStream i address =>
    rw [command, hsend _ _ (frameOf_open ..)]
    exact .same
  | replyOpen i ack =>
    rw [command, hsend _ _ (frameOf_ack ..)]
    exact .same
  | close =>
    have hv : ({ e with cmds := cmds } : Endpoint).endLoop.view id = e.endLoop.view id := rfl
    rw [command, hv]
    exact endLoop_moves e id (by simp [view, hc, Control.loop]) (by simp [hc, Control.offer])

theorem push_moves (e : Endpoint) (ht : e.Tame) (id : ℕ) (f : Frame) (after : After)
    (hc : e.control = .sending f after) (hw : e.writing = true) :
    View.Moves (e.view id)
      ((({ e with frames := e.frames++[OutMsg.frame f] } : Endpoint).setControl
        (.finishing after)).view id) := by
  have htame := ht.control
  rw [hc] at htame
  have hloop := fits_loop id f after htame.2
  have hv : (({ e with frames := e.frames++[OutMsg.frame f] } : Endpoint).setControl
      (.finishing after)).view id = { e.view id with
        loop := ((frameOf id f).map Flow.afterShip).getD .free
        queued := e.cmds.filterMap (cmdOf id)
        unsent := (e.view id).unsent++(frameOf id f).toList } := by
    simp only [view, ← hloop]
    simp [queued, unsent, unanswered, hc, Control.held, Control.offer, OutMsg.sent]
    cases hf : frameOf id f <;> simp [hf]
  have hqueued : (e.view id).queued = (frameOf id f).toList++e.cmds.filterMap (cmdOf id) := by
    cases hf : frameOf id f <;> simp [view, queued, hc, Control.held, hf]
  have hfree : (e.view id).loop = .free := by simp [view, hc, Control.loop]
  rw [hv]
  cases hf : frameOf id f with
  | none =>
    have hsame : { e.view id with
        loop := Loop.free
        queued := e.cmds.filterMap (cmdOf id)
        unsent := (e.view id).unsent++[] } = e.view id := by
      rw [hf] at hqueued
      rw [← hfree, List.append_nil]
      simpa using congrArg (fun l => { e.view id with queued := l }) hqueued.symm
    simp only [Option.map_none, Option.getD_none, Option.toList_none]
    rw [hsame]
    exact .same
  | some g =>
    rw [hf] at hqueued
    exact .ship g _ hqueued hfree hw

theorem finish_moves (e : Endpoint) (id : ℕ) (after : After) (hc : e.control = .finishing after) :
    View.Moves (e.view id) (((e.after after).setControl .select).view id) := by
  cases after with
  | nothing =>
    have hv : ((e.after .nothing).setControl .select).view id = e.view id := by
      simp [view, queued, unsent, unanswered, after, hc, Control.loop, Control.held, Control.offer]
    rw [hv]
    exact .same
  | pend i =>
    rcases eq_or_ne i id with rfl | hne
    · have hv : ((e.after (.pend i)).setControl .select).view i = { e.view i with
          loop := .free
          pending := true } := by
        simp [view, queued, unsent, unanswered, after, hc, Control.loop, Control.held,
          Control.offer]
      rw [hv]
      exact .pend (by simp [view, hc, Control.loop])
    · have hv : ((e.after (.pend i)).setControl .select).view id = e.view id := by
        simp [view, queued, unsent, unanswered, after, hc, Control.loop, Control.held,
          Control.offer, hne, hne.symm]
      rw [hv]
      exact .same
  | register i =>
    rcases eq_or_ne i id with rfl | hne
    · have hv : ((e.after (.register i)).setControl .select).view i = { e.view i with
          loop := .free
          half := .register } := by
        simp [view, queued, unsent, unanswered, after, hc, Control.loop, Control.held,
          Control.offer]
      rw [hv]
      exact .register (by simp [view, hc, Control.loop])
    · have hv : ((e.after (.register i)).setControl .select).view id = e.view id := by
        simp [view, queued, unsent, unanswered, after, hc, Control.loop, Control.held,
          Control.offer, hne, hne.symm]
      rw [hv]
      exact .same

theorem notify_moves (e : Endpoint) (id i : ℕ) (hc : e.control = .granting i) :
    View.Moves (e.view id)
      (((e.setHalf i { e.half i with out := (e.half i).out.notify }).setControl .select).view id) := by
  rcases eq_or_ne i id with rfl | hne
  · have hv : ((e.setHalf i { e.half i with out := (e.half i).out.notify }).setControl .select).view
        i = { e.view i with
          loop := .free
          half := { (e.view i).half with out := (e.view i).half.out.notify } } := by
      simp [view, queued, unsent, unanswered, hc, Control.loop, Control.held, Control.offer]
    rw [hv]
    exact .notify (by simp [view, hc, Control.loop])
  · have hv : ((e.setHalf i { e.half i with out := (e.half i).out.notify }).setControl .select).view
        id = e.view id := by
      simp [view, queued, unsent, unanswered, hc, Control.loop, Control.held, Control.offer, hne,
        hne.symm]
    rw [hv]
    exact .same

theorem task_view (e : Endpoint) (id i : ℕ) (g : Half Bytes) (f : Option (StreamFrame Bytes))
    (hf : i = id → ∀ n, f = some (.credit n) → n < 2^62) :
    ((e.setHalf i g).queueTask i f).view id =
      if i = id then { e.view id with half := g, queued := (e.view id).queued++f.toList }
      else e.view id := by
  rcases eq_or_ne i id with rfl | hne
  · rw [if_pos rfl]
    cases f with
    | none => simp [view, queueTask, queued, unsent, unanswered]
    | some f =>
      have hframe : frameOf i (taskFrame i f) = some f := by
        rw [frameOf_task i i f fun n hn => hf rfl n (by rw [hn]), if_pos rfl]
      simp [view, queueTask, cmdOf, hframe, queued, unsent, unanswered]
  · rw [if_neg hne]
    cases f with
    | none => simp [view, queueTask, queued, unsent, unanswered, hne.symm]
    | some f =>
      have hframe : frameOf id (taskFrame i f) = none := by
        apply frameOf_other
        cases f <;> exact hne
      simp [view, queueTask, cmdOf, hframe, queued, unsent, unanswered, hne.symm]

theorem wait_view (e : Endpoint) (id : ℕ) (c : Cmd) (ha : c.asks id = false)
    (hr : c.replies id = false) : (e.wait c).view id = e.view id := by
  simp [view, queued, unsent, unanswered, ha, hr]

theorem open_moves (e : Endpoint) (id : ℕ) (address : Address) :
    View.Moves (e.view id) ((({ e with nextStreamId := e.nextStreamId+1 } : Endpoint).wait
      (.openStream (e.nextStreamId+1) address)).view id) := by
  rcases eq_or_ne (e.nextStreamId+1) id with heq | hne
  · have hv : (({ e with nextStreamId := e.nextStreamId+1 } : Endpoint).wait
        (.openStream (e.nextStreamId+1) address)).view id = { e.view id with
          asks := (e.view id).asks+1
          reached := true } := by
      simp [view, queued, unsent, unanswered, Cmd.asks, Cmd.replies, ← heq]
    rw [hv]
    exact .reserve (by simp [view, ← heq])
  · have hreach : decide (id ≤ e.nextStreamId+1) = decide (id ≤ e.nextStreamId) := by
      rw [decide_eq_decide]
      omega
    have hv : (({ e with nextStreamId := e.nextStreamId+1 } : Endpoint).wait
        (.openStream (e.nextStreamId+1) address)).view id = e.view id := by
      refine View.ext rfl rfl rfl rfl rfl rfl ?_ hreach ?_
      · simp [view, Cmd.asks, hne]
      · simp [view, unanswered, Cmd.replies]
    rw [hv]
    exact .same

theorem replyOpen_view (e : Endpoint) (id i : ℕ) (ack : OpenStreamAck) (ho : i ∈ e.offers) :
    (({ e with offers := e.offers.erase i } : Endpoint).wait (.replyOpen i ack)).view id =
      e.view id := by
  have hcount : (e.offers.erase i).count id+(if i = id then 1 else 0) = e.offers.count id := by
    rcases eq_or_ne i id with rfl | hne
    · rw [if_pos rfl, List.count_erase_self]
      have hp := List.count_pos_iff.mpr ho
      omega
    · rw [if_neg hne, List.count_erase_of_ne hne.symm, Nat.add_zero]
  refine View.ext rfl rfl rfl rfl rfl rfl ?_ rfl ?_
  · simp [view, Cmd.asks]
  · simp only [view, unanswered, wait_callers, wait_control, wait_events, wait_offers,
      List.count_append, List.countP_append, List.countP_singleton, Cmd.replies, beq_iff_eq]
    omega

variable (b3 : Blake3) (q : Queues)

theorem send_moves (e t : Endpoint) (id i : ℕ) (a : SendAct Bytes)
    (hst : e.step b3 q (.send i a) = some t) : View.Moves (e.view id) (t.view id) := by
  simp only [step] at hst
  split_ifs at hst with hfit
  obtain ⟨⟨out,f⟩,hm,he⟩ := Option.map_eq_some_iff.mp hst
  cases he
  have hf : i = id → ∀ n, f = some (.credit n) → n < 2^62 := by
    rintro - n rfl
    rcases Sender.moves_emit _ _ _ _ (Sender.moves_of_step _ _ _ _ hm) with hf | ⟨c,hf⟩ | hf <;>
      cases hf
  rw [task_view e id i _ f hf]
  split_ifs with hi
  · subst hi
    refine .send a out f ?_ hm
    rw [← view_alive]
    cases a with
    | forward ok | close ok =>
      cases ok with
      | true => simpa [SendAct.admits] using (Bool.and_eq_true_iff.mp hfit).1
      | false => exact hfit
    | _ => rfl
  · exact .same

theorem recv_moves (e t : Endpoint) (id i : ℕ) (a : RecvAct)
    (hcr : (e.half id).inn.pending+(e.half id).inn.duplex < 2^62)
    (hst : e.step b3 q (.recv i a) = some t) : View.Moves (e.view id) (t.view id) := by
  simp only [step] at hst
  split_ifs at hst with hfit
  obtain ⟨⟨inn,f⟩,hm,he⟩ := Option.map_eq_some_iff.mp hst
  cases he
  have hf : i = id → ∀ n, f = some (.credit n) → n < 2^62 := by
    rintro rfl n rfl
    cases Receiver.moves_of_step _ _ _ _ _ hm with
    | giveBack k h0 hk => omega
  rw [task_view e id i _ f hf]
  split_ifs with hi
  · subst hi
    refine .recv a inn f ?_ hm
    rw [← view_alive]
    cases a with
    | read n refused =>
      cases refused with
      | true => rfl
      | false =>
        have hr : e.room q = true := by simpa [fitsRecv] using hfit
        simpa [RecvAct.admits] using (Bool.and_eq_true_iff.mp hr).1
    | _ => rfl
  · exact .same

/-- The steps of an end, as a stream sees them. -/
theorem step_moves (e t : Endpoint) (a : Act) (id : ℕ) (ht : e.Tame) (ha : a.isOwn = true)
    (hb : a.Tame e) (hid : id ≠ 0) (hcr : (e.half id).inn.pending+(e.half id).inn.duplex < 2^62)
    (hst : e.step b3 q a = some t) : View.Moves (e.view id) (t.view id) := by
  have hroom : e.room q = true → (e.view id).loop ≠ .ended := by
    intro hr
    have halive : e.alive = true := (Bool.and_eq_true_iff.mp hr).1
    rw [view_alive e id] at halive
    simpa using halive
  have hsame : t.view id = e.view id → View.Moves (e.view id) (t.view id) := by
    intro hv
    rw [hv]
    exact .same
  cases moves_of_step b3 q e t a hst with
  | openStream address => exact open_moves e id address
  | openStreamAs => exact hb.elim
  | authenticate i auth => exact hsame (wait_view _ id _ rfl rfl)
  | replyOpen i ack ho => exact hsame (replyOpen_view e id i ack ho)
  | closeTunnel => exact hsame (wait_view _ id _ rfl rfl)
  | enter c hc hr => exact enter_moves e ht id hid c hc (hroom hr)
  | sendDatagram dg =>
    have hn : cmdOf id (.sendFrame ⟨0,Frame.frameDatagram,dg.encode⟩) = none :=
      frameOf_unconcerned id _ (by simp [Kind.concerns])
    apply hsame
    simp [view, queue_queued, hn, unsent, unanswered]
  | closeHandle =>
    apply hsame
    simp [view, queue_queued, cmdOf, unsent, unanswered]
  | nextEvent event events he =>
    apply hsame
    refine View.ext rfl rfl rfl rfl rfl rfl rfl rfl ?_
    simp only [view, unanswered, he, List.flatMap_cons, List.count_append]
    omega
  | take c cmds hc hq => exact take_moves e id c cmds hc hq
  | pushFail f after hc =>
    exact endLoop_moves e id (by simp [view, hc, Control.loop]) (by simp [hc, Control.offer])
  | push f after hc hw => exact push_moves e ht id f after hc hw
  | finish after hc => exact finish_moves e id after hc
  | receive | write | writePong => cases ha
  | lose event hc =>
    have hv : (e.setControl .select).view id = { e.view id with
        offers := ((e.setControl .select).view id).offers } := by
      refine View.ext rfl ?_ ?_ rfl rfl rfl rfl rfl rfl
      · simp [view, hc, Control.loop]
      · simp [view, queued, hc, Control.held]
    rw [hv]
    apply View.Moves.forget
    simp only [view, unanswered, setControl, Control.offer, List.count_append, List.count_nil]
    omega
  | emit event hc =>
    apply hsame
    refine View.ext rfl ?_ ?_ rfl rfl rfl rfl rfl ?_
    · simp [view, hc, Control.loop]
    · simp [view, queued, hc, Control.held]
    · simp only [view, unanswered, setControl, hc, Control.offer, List.flatMap_append,
        List.flatMap_cons, List.flatMap_nil, List.append_nil, List.count_append, List.count_nil]
      omega
  | notify i hc => exact notify_moves e id i hc
  | tick hc =>
    have hn : frameOf id Frame.ping = none := frameOf_unconcerned id _ (by decide)
    apply hsame
    simp [view, queued, unsent, unanswered, hc, Control.loop, Control.held, Control.offer, hn]
  | stop hc =>
    exact endLoop_moves e id (by simp [view, hc, Control.loop]) (by simp [hc, Control.offer])
  | writerTake m frames hh hf =>
    apply hsame
    simp [view, queued, unsent, unanswered, hh, hf]
  | writerFail => exact .writerFail
  | send i b out f hfit => exact send_moves b3 q e _ id i b hst
  | recv i b inn f hfit => exact recv_moves b3 q e _ id i b hcr hst

section Handling

variable (e : Endpoint) (id : ℕ) (validate : AuthRequest → Result AuthResponse)

theorem respond_view (hc : e.control = .select) (f : Frame) :
    (e.respond f).view id = { e.view id with
      queued := (frameOf id f).toList++(e.view id).queued } := by
  refine View.ext rfl ?_ ?_ rfl rfl rfl rfl rfl ?_
  · simp [view, respond, hc, Control.loop]
  · cases hf : frameOf id f <;> simp [view, respond, queued, hc, Control.held, hf]
  · simp [view, respond, unanswered, hc, Control.offer]

theorem event_view (hc : e.control = .select) (event : WsEvent) :
    (e.setControl (.eventing event)).view id = { e.view id with
      offers := event.offer.count id+(e.view id).offers } := by
  refine View.ext rfl ?_ ?_ rfl rfl rfl rfl rfl ?_
  · simp [view, hc, Control.loop]
  · simp [view, queued, hc, Control.held]
  · simp [view, unanswered, hc, Control.offer, List.count_append]
    omega

theorem setHalf_view (i : ℕ) (g : Half Bytes) :
    (e.setHalf i g).view id = if i = id then { e.view id with half := g } else e.view id := by
  rcases eq_or_ne i id with rfl | hne
  · simp [view, queued, unsent, unanswered]
  · simp [view, queued, unsent, unanswered, hne, hne.symm]

theorem judged_view (i : ℕ) (req : AuthRequest) (resp : Result AuthResponse) :
    (e.judged i req resp).view id = e.view id := by
  unfold judged
  dsimp only
  split
  · rfl
  · split
    · split <;> rfl
    · rfl

theorem judged_select (hc : e.control = .select) (i : ℕ) (req : AuthRequest)
    (resp : Result AuthResponse) : (e.judged i req resp).control = .select := by
  unfold judged
  dsimp only
  split
  · exact hc
  · split
    · split <;> exact hc
    · exact hc

theorem handleAuthRequest_view (hc : e.control = .select) (f : Frame) :
    (e.handleAuthRequest validate f).view id = e.view id := by
  have hu : ∀ i body, frameOf id ⟨i,Frame.frameAuthResponse,body⟩ = none :=
    fun i body => frameOf_unconcerned id _ (by simp [Kind.concerns])
  unfold handleAuthRequest
  split
  · split
    · rw [respond_view _ id (judged_select e hc _ _ _), judged_view, hu]
      rfl
    · rw [respond_view _ id hc, hu]
      rfl
  · rfl

theorem handleAuthResponse_view (f : Frame) : (e.handleAuthResponse f).view id = e.view id := by
  unfold handleAuthResponse
  dsimp only
  split
  · rfl
  · split
    · split <;> rfl
    · rfl

theorem handleDatagram_view (hc : e.control = .select) (f : Frame) :
    (e.handleDatagram f).view id = e.view id := by
  unfold handleDatagram
  split
  · rfl
  · split
    · rw [event_view e id hc]
      simp [WsEvent.offer]
    · rfl

theorem handleOpenStream_hears (hc : e.control = .select) (f : Frame)
    (hk : kind f.frameType = .openStream) :
    View.Hears (e.view id) (frameOf id f) ((e.handleOpenStream f).view id) := by
  have hf : frameOf id f = if f.streamId = id then some .openStream else none := by
    simp [frameOf, hk]
  rw [hf, handleOpenStream]
  by_cases hu : e.unauthenticated f.streamId = true
  · rw [if_pos hu, respond_view e id hc, frameOf_ack]
    split_ifs
    · exact .refuse
    · exact .nothing
  · rw [if_neg hu]
    cases OpenStream.decode f.body with
    | ok p =>
      dsimp only
      rw [event_view e id hc, WsEvent.offer]
      split_ifs with hi
      · rw [hi, List.count_singleton_self, Nat.add_comm]
        exact .offer
      · rw [List.count_singleton, if_neg (by simpa using hi), Nat.zero_add]
        exact .nothing
    | error _ =>
      split_ifs
      · exact .ignore
      · exact .nothing

theorem handleOpenStreamAck_hears (f : Frame) (hk : kind f.frameType = .openStreamAck)
    (ack : OpenStreamAck) (ha : f.body = ack.encode) (hl : ack.message.length < 2^62) :
    View.Hears (e.view id) (frameOf id f) ((e.handleOpenStreamAck f).view id) := by
  have hf : frameOf id f =
      if f.streamId = id then some (.ack (ack.status == statusOk)) else none := by
    simp [frameOf, hk, ha, OpenStreamAck.encode]
  have hd := OpenStreamAck.decode_encode ack [] hl
  rw [List.append_nil] at hd
  have hothers : f.streamId ≠ id → (e.handleOpenStreamAck f).view id = e.view id := by
    intro hne
    unfold handleOpenStreamAck
    rw [ha, hd]
    split
    · dsimp only
      split
      · simp [view, queued, unsent, unanswered, hne.symm]
      · simp [view, queued, unsent, unanswered, hne.symm]
    · rfl
  rw [hf]
  split_ifs with hi
  · subst hi
    by_cases hp : f.streamId ∈ e.pending
    · have hv : (e.handleOpenStreamAck f).view f.streamId = { e.view f.streamId with
          pending := false
          half := if ack.status == statusOk then .register else (e.view f.streamId).half } := by
        rw [handleOpenStreamAck, if_pos hp, ha, hd]
        by_cases hok : ack.status = statusOk
        · simp [view, queued, unsent, unanswered, hok]
        · simp [view, queued, unsent, unanswered, hok]
      rw [hv]
      exact .ack _ (by simpa [view] using hp)
    · rw [handleOpenStreamAck, if_neg hp]
      exact .stray _ (by simpa [view] using hp)
  · rw [hothers hi]
    exact .nothing

theorem handleStreamCredit_hears (hc : e.control = .select) (hid : id ≠ 0) (f : Frame)
    (hk : kind f.frameType = .streamCredit) :
    View.Hears (e.view id) (frameOf id f) ((e.handleStreamCredit f).view id) := by
  rw [frameOf, hk]
  cases hd : decodeVarint f.body with
  | error _ =>
    have hv : e.handleStreamCredit f = e := by
      unfold handleStreamCredit
      rw [hd]
      split <;> rfl
    rw [hv]
    split_ifs <;> exact .nothing
  | ok p =>
    rcases eq_or_ne f.streamId id with rfl | hi
    · have hv : (e.handleStreamCredit f).view f.streamId = { e.view f.streamId with
          half := (e.view f.streamId).half.credit p.1
          loop := if (e.view f.streamId).half.credits then .granting
            else (e.view f.streamId).loop } := by
        rw [handleStreamCredit, if_pos hid, hd]
        by_cases hcr : (e.half f.streamId).credits = true
        · simp [view, queued, unsent, unanswered, hc, hcr, Control.loop, Control.held, Control.offer]
        · simp [view, queued, unsent, unanswered, hcr]
      rw [if_pos rfl, hv]
      exact .credit p.1
    · have hv : (e.handleStreamCredit f).view id = e.view id := by
        unfold handleStreamCredit
        rw [hd]
        split
        · dsimp only
          split
          · simp [view, queued, unsent, unanswered, hc, hi, hi.symm, Control.loop, Control.held,
              Control.offer]
          · simp [view, queued, unsent, unanswered, hi.symm]
        · rfl
      rw [if_neg hi, hv]
      exact .nothing

/-- What `handle_frame` does, as a stream sees it. -/
theorem handleFrame_hears (hc : e.control = .select) (hid : id ≠ 0) (f : Frame)
    (hack : kind f.frameType = .openStreamAck → ∃ ack : OpenStreamAck, f.body = ack.encode ∧
      ack.message.length < 2^62) :
    View.Hears (e.view id) (frameOf id f) ((e.handleFrame validate f).view id) := by
  unfold handleFrame
  cases hk : kind f.frameType with
  | authRequest =>
    rw [frameOf_unconcerned id f (by simp [hk, Kind.concerns]), handleAuthRequest_view e id _ hc]
    exact .nothing
  | authResponse =>
    rw [frameOf_unconcerned id f (by simp [hk, Kind.concerns]), handleAuthResponse_view]
    exact .nothing
  | openStream => exact handleOpenStream_hears e id hc f hk
  | openStreamAck =>
    obtain ⟨ack,ha,hl⟩ := hack hk
    exact handleOpenStreamAck_hears e id f hk ack ha hl
  | streamData =>
    dsimp only
    rw [setHalf_view, frameOf, hk]
    split_ifs with hi
    · subst hi
      exact .data f.body
    · exact .nothing
  | streamCredit => exact handleStreamCredit_hears e id hc hid f hk
  | streamClose =>
    dsimp only
    rw [setHalf_view, frameOf, hk]
    split_ifs with hi
    · subst hi
      exact .close
    · exact .nothing
  | datagram =>
    rw [frameOf_unconcerned id f (by simp [hk, Kind.concerns]), handleDatagram_view e id hc]
    exact .nothing
  | ping =>
    have hpong : frameOf id ⟨0,Frame.framePong,f.body⟩ = none :=
      frameOf_unconcerned id _ (by simp [Kind.concerns])
    rw [frameOf_unconcerned id f (by simp [hk, Kind.concerns]), respond_view e id hc, hpong]
    exact .nothing
  | other =>
    rw [frameOf_unconcerned id f (by simp [hk, Kind.concerns])]
    exact .nothing

end Handling

end Endpoint
end Hydr.Ws
