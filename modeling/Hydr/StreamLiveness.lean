import Mathlib
import Hydr.StreamEnding

/-!
# What is written arrives

As long as both loops live and neither application closes or lets go, a stream
that nobody writes to comes to rest after a bounded number of steps, whatever
their order. At rest each application has read what the other one wrote, unless
a pump waits for a credit that a reader has been unable to return.
-/

set_option autoImplicit false

namespace Hydr.Stream
open Chunk Transition

def Wait.left (notified : Bool) : Wait → ℕ
  | .fast => 8
  | .subscribe => 6
  | .recheck => 4+7*notified.toNat
  | .enable => 3+7*notified.toNat
  | .finalCheck => 2+7*notified.toNat
  | .parked => 7*notified.toNat

def Loop.left : Loop → ℕ
  | .granting => 8
  | .pend => 1
  | _ => 0

@[simp] theorem Loop.left_free : Loop.free.left = 0 := rfl

@[simp] theorem Loop.left_pend : Loop.pend.left = 1 := rfl

@[simp] theorem Loop.left_granting : Loop.granting.left = 8 := rfl

section
variable {α : Type}

namespace Flow

structure Open (s : Flow α) : Prop where
  alive : ∀ x, s.alive x = true
  born : ∀ x, (s.half x).Born
  listed : ∀ x, (s.half x).streams = true
  pumping : ∀ x, (s.half x).out.pump.stopped = false
  kept : ∀ x, (s.half x).inn.dropped = false

namespace Open
variable {s : Flow α}

theorem not_idle (ho : s.Open) (x : Bool) : ¬(s.half x).Idle := by
  intro hi
  apply ho.born x
  rw [hi.out]
  rfl

theorem settled (ho : s.Open) (h : Opening s) : s.stage = .settled := by
  by_contra hn
  exact ho.not_idle false (h.opener hn)

theorem loop (ho : s.Open) (h : Opening s) (x : Bool) : s.loop x ≠ .ended ∧ s.loop x ≠ .register := by
  refine ⟨by simpa [Flow.alive] using ho.alive x,fun hl => ?_⟩
  cases x with
  | false => exact h.asking hl
  | true => exact ho.not_idle true (h.registering hl).1

end Open
end Flow

variable [Chunk α]

def Pump.left (notified : Bool) : Pump α → ℕ
  | .wait w => w.left notified
  | .enqueue a => 15*size a+17
  | .count _ => 9
  | _ => 0

def Sender.left (s : Sender α) : ℕ :=
  s.pump.left s.notified+15*s.load+6*s.q.length+5*s.forwarder.hand.length

def Writer.left : Writer α → ℕ
  | .writing a i => 15*(size a-i)+1
  | _ => 0

def Receiver.left (r : Receiver α) : ℕ :=
  15*total r.chan+2*r.chan.length+r.writer.left+14*r.duplex

def StreamFrame.left : StreamFrame α → ℕ
  | .data a => 15*size a+3
  | _ => 9

def queued (cmds : List (StreamFrame α)) : ℕ := (cmds.map fun f => f.left+1).sum

def onWire (wire : List (StreamFrame α)) : ℕ := (wire.map StreamFrame.left).sum

@[simp] theorem queued_cons (f : StreamFrame α) (l : List (StreamFrame α)) :
    queued (f::l) = f.left+1+queued l := rfl

@[simp] theorem queued_append (l m : List (StreamFrame α)) :
    queued (l++m) = queued l+queued m := by
  simp [queued]

@[simp] theorem onWire_nil : onWire ([] : List (StreamFrame α)) = 0 := rfl

@[simp] theorem onWire_cons (f : StreamFrame α) (l : List (StreamFrame α)) :
    onWire (f::l) = f.left+onWire l := rfl

@[simp] theorem onWire_append (l m : List (StreamFrame α)) :
    onWire (l++m) = onWire l+onWire m := by
  simp [onWire]

theorem Wait.left_notified (n : Bool) (w : Wait) : w.left true ≤ w.left n+7 := by
  cases w <;> cases n <;> decide

theorem Sender.notify_left (s : Sender α) : s.notify.left ≤ s.left+7 := by
  have hp : s.pump.left (s.notified || subscribed s.pump) ≤ s.pump.left s.notified+7 := by
    cases hs : s.pump with
    | wait w =>
      cases w with
      | fast | subscribe => simp [Pump.left, Wait.left]
      | recheck | enable | finalCheck | parked =>
        simpa [subscribed, Pump.left] using Wait.left_notified s.notified _
    | _ => simp [Pump.left]
  simp only [left, notify, load] at hp ⊢
  omega

@[simp] theorem Sender.grant_left (s : Sender α) (n : ℕ) : (s.grant n).left = s.left := rfl

theorem Receiver.deliver_left (r : Receiver α) (a : α) :
    (r.deliver a).left ≤ r.left+15*size a+2 := by
  unfold deliver
  split <;> simp [left] <;> omega

/-- Every check of the window brings the call nearer to its await, or ends it. -/
theorem Sender.check_left (s t : Sender α) (w : Wait) (hp : s.pump = .wait w)
    (h : s.check w = some t) : t.left < s.left := by
  have hlook : ∀ next, next.left s.notified < w.left s.notified →
      (s.checkWindow next).left < s.left := by
    intro next hlt
    unfold checkWindow
    split_ifs <;> simp only [left, load, hp, Pump.left] <;> omega
  cases w with
  | fast | recheck | finalCheck =>
    cases h
    apply hlook
    simp [Wait.left]
  | subscribe | enable =>
    cases h
    simp [left, load, hp, Pump.left, Wait.left]
  | parked =>
    simp only [check] at h
    split_ifs at h with hn
    cases h
    simp [left, load, hp, hn, Pump.left, Wait.left]

/-- A pump that has not stopped takes up a chunk, or something less is left to do. -/
theorem Sender.step_left (s t : Sender α) (a : SendAct α) (f : Option (StreamFrame α))
    (h : s.step a = some (t,f)) (hp : s.pump.stopped = false) (ht : t.pump.stopped = false) :
    (∃ c, a = .chunk c ∧ 0 < size c ∧ t.left = s.left+15*size c+17 ∧ f = none) ∨
      t.left+queued f.toList < s.left := by
  cases moves_of_step s t a f h with
  | chunk c hr h0 =>
    left
    refine ⟨c,rfl,h0,?_,rfl⟩
    simp only [left, load, hr, Pump.left]
    omega
  | pass w hw | turn w next hw | subscribe hw | enable hw | wake hw =>
    right
    simp only [step, hw] at h
    obtain ⟨u,hu,he⟩ := Option.map_eq_some_iff.mp h
    cases he
    simpa [queued] using check_left s _ _ hw hu
  | stop | refuse => cases ht
  | drained hd | close ok hd | finish hd =>
    rw [hd] at hp
    cases hp
  | enqueue a hq =>
    right
    simp [left, load, hq, Pump.left, queued]
    omega
  | count n hn =>
    right
    simp [left, load, hn, Pump.left, Wait.left, queued]
  | take a q hq hf =>
    right
    simp [left, load, hq, hf, Forwarder.hand, queued]
    omega
  | forward a hf =>
    right
    simp [left, load, hf, Forwarder.hand, queued, StreamFrame.left]
    omega
  | lose a hf =>
    right
    simp [left, load, hf, Forwarder.hand, queued]
    omega

/-- The writer and a reader go on, or the reader begins to wait. -/
theorem Receiver.moves_left (r t : Receiver α) (a : RecvAct) (f : Option (StreamFrame α))
    (hm : Receiver.Moves false r a t f) (ha : a ≠ .drop) (hd : r.dropped = false) :
    (a = .park ∧ t.left = r.left ∧ f = none) ∨ t.left+queued f.toList < r.left := by
  cases hm with
  | park => exact Or.inl ⟨rfl,rfl,rfl⟩
  | drop => exact absurd rfl ha
  | shutdown _ _ hc => cases hc
  | fail a i _ hdrop => exact absurd (hd.symm.trans hdrop) (by decide)
  | recv a chan hw hc =>
    right
    simp [left, hw, hc, Writer.left, queued]
    omega
  | write a i k hw h0 hs =>
    right
    simp [left, hw, Writer.left, queued]
    omega
  | finish a hw =>
    right
    simp [left, hw, Writer.left, queued]
  | keep n _ h0 hn | miss n h0 hn =>
    right
    simp [left, queued]
    omega
  | giveBack n h0 hn =>
    right
    simp [left, queued, StreamFrame.left]
    omega

namespace Flow

def left (s : Flow α) (x : Bool) : ℕ :=
  (s.half x).out.left+(s.half x).inn.left+queued (s.cmds x)+onWire (s.wire x)+(s.loop x).left

def work (s : Flow α) : ℕ := s.left false+s.left true

theorem work_eq (s : Flow α) (x : Bool) : s.work = s.left x+s.left (!x) := by
  cases x
  · rfl
  · exact Nat.add_comm _ _

namespace Open
variable {s t : Flow α}

theorem carries (ho : s.Open) (h : Sound s) (x : Bool) (f : StreamFrame α) (hf : f ∈ s.pipe x) :
    (∃ a, f = .data a) ∨ ∃ n, f = .credit n := by
  have hopening := h.progress.bounded.opening
  have hs := ho.settled hopening
  cases f with
  | data a => exact Or.inl ⟨a,rfl⟩
  | credit n => exact Or.inr ⟨n,rfl⟩
  | openStream =>
    have hopens := hopening.opens x
    rw [if_neg (by simp [hs])] at hopens
    exact absurd rfl (List.countP_eq_zero.mp (Nat.le_zero.mp hopens) _ hf)
  | ack ok =>
    have hacks := hopening.acks x
    rw [if_neg (by simp [hs])] at hacks
    exact absurd rfl (List.countP_eq_zero.mp (Nat.le_zero.mp hacks) _ hf)
  | close =>
    have hp := ho.pumping x
    rw [h.closing.done x (Or.inr hf)] at hp
    cases hp

theorem handle_left (ho : s.Open) (h : Sound s) (x : Bool) (offer : Offer) (f : StreamFrame α)
    (rest : List (StreamFrame α)) (hw : s.wire (!x) = f::rest) (hl : s.loop x = .free) :
    ({ s with wire := Function.update s.wire (!x) rest }.handleFrame x offer f).work < s.work := by
  rw [work_eq _ x, work_eq s x]
  obtain ⟨a,rfl⟩ | ⟨n,rfl⟩ := ho.carries h (!x) f (by simp [pipe, hw])
  · have hd := (s.half x).inn.deliver_left a
    simp [left, handleFrame, Half.deliver, ho.listed x, hw, StreamFrame.left]
    omega
  · simp only [handleFrame, Half.credit]
    split_ifs
    · simp [left, hw, hl, StreamFrame.left]
      omega
    · simp [left, hw, hl, StreamFrame.left]

end Open

theorem step_send (s t : Flow α) (x : Bool) (b : SendAct α) (h : s.step (.send x b) = some t) :
    ∃ out f, (s.half x).out.step b = some (out,f) ∧
      t = (s.setHalf x { s.half x with out := out }).emit x f := by
  simp only [step] at h
  split_ifs at h
  obtain ⟨⟨out,f⟩,hm,he⟩ := Option.map_eq_some_iff.mp h
  exact ⟨out,f,hm,he.symm⟩

theorem Open.send_work {s t : Flow α} (ho : s.Open) (x : Bool) (b : SendAct α) (ht : t.Open)
    (hst : s.step (.send x b) = some t) :
    (∃ y c, Act.send x b = .send y (.chunk c) ∧ 0 < size c ∧ t.work = s.work+15*size c+17) ∨
      t.work < s.work := by
  obtain ⟨out,f,hm,rfl⟩ := step_send s t x b hst
  have hp := ht.pumping x
  simp only [emit_half, setHalf_half, Function.update_self] at hp
  rw [work_eq _ x, work_eq s x]
  rcases (s.half x).out.step_left out b f hm (ho.pumping x) hp with ⟨c,rfl,h0,he,rfl⟩ | hlt
  · left
    refine ⟨x,c,rfl,h0,?_⟩
    simp [left, he]
    omega
  · right
    simp [left]
    omega

/-- Every step of an open stream gets something done, unless the pump takes up a
chunk or a reader begins to wait. -/
theorem Open.step_work {s t : Flow α} (ho : s.Open) (h : Sound s) (a : Act α) (ht : t.Open)
    (hst : s.step a = some t) (hd : ∀ x, a ≠ .recv x .drop) :
    (∃ x c, a = .send x (.chunk c) ∧ 0 < size c ∧ t.work = s.work+15*size c+17) ∨
      (∃ x, a = .recv x .park ∧ t.work = s.work) ∨ t.work < s.work := by
  have hopening := h.progress.bounded.opening
  cases moves_of_step s t a hst with
  | ask hs => simp [ho.settled hopening] at hs
  | reply ok hs => simp [ho.settled hopening] at hs
  | register x hl => exact absurd hl (ho.loop hopening x).2
  | endLoop x => exact absurd (ht.alive x) (by simp [Flow.alive])
  | ship x f cmds hc hl =>
    right; right
    have hfree : (afterShip f).left = 0 := by
      obtain ⟨a,rfl⟩ | ⟨n,rfl⟩ := ho.carries h x f (by simp [pipe, hc]) <;> rfl
    rw [work_eq _ x, work_eq s x]
    simp [left, hc, hl, hfree]
    omega
  | pend x hl =>
    right; right
    rw [work_eq _ x, work_eq s x]
    simp [left, hl]
  | handle x offer f rest hw hl => exact Or.inr (Or.inr (ho.handle_left h x offer f rest hw hl))
  | notify x hl =>
    right; right
    have hn := (s.half x).out.notify_left
    rw [work_eq _ x, work_eq s x]
    simp [left, hl]
    omega
  | send x b => exact (ho.send_work x b ht hst).imp_right Or.inr
  | recv x b inn f hadm hm =>
    rw [ho.listed x] at hm
    rw [work_eq _ x, work_eq s x]
    rcases Receiver.moves_left _ _ _ _ hm (fun hb => hd x (hb ▸ rfl)) (ho.kept x) with
      ⟨rfl,he,rfl⟩ | hlt
    · right; left
      refine ⟨x,rfl,?_⟩
      simp [left, he]
    · right; right
      simp [left]
      omega

end Flow

structure Sender.Tallied (s : Sender α) : Prop where
  tally : s.enqueued+total s.pump.hand ≤ total s.taken
  present : s.pump ≠ .absent → s.forwarder ≠ .absent

theorem Sender.moves_tallied (s t : Sender α) (a : SendAct α) (f : Option (StreamFrame α))
    (hm : Moves s a t f) (h : s.Tallied) : t.Tallied := by
  obtain ⟨ht,hp⟩ := h
  cases hm with
  | chunk c hc =>
    refine ⟨?_,fun _ => hp (by simp [hc])⟩
    simp only [hc, Pump.hand, total_append, total_cons, total_nil] at ht ⊢
    omega
  | enqueue c hc =>
    refine ⟨?_,fun _ => hp (by simp [hc])⟩
    simp only [hc, Pump.hand, total_cons, total_nil] at ht ⊢
    omega
  | pass w hw | turn w next hw | subscribe hw | enable hw | wake hw | stop hw | count n hw
  | drained hw | close ok hw | refuse c hw =>
    refine ⟨?_,fun _ => hp (by simp [hw])⟩
    simp only [hw, Pump.hand, total_cons, total_nil] at ht ⊢
    omega
  | take c q hq hf => exact ⟨ht,fun _ => by simp⟩
  | forward c hf => exact ⟨ht,fun _ => by simp⟩
  | lose c hf => exact ⟨ht,fun _ => by simp⟩
  | finish hw hq hf => exact ⟨ht,fun _ => by simp⟩

theorem Half.tallied_stable : Stable (fun _ _ => True) (fun h : Half α => h.out.Tallied) where
  register := ⟨le_rfl,fun _ => by simp [register, Sender.spawn]⟩
  deliver h a ht := by rwa [Half.deliver_out]
  credit h n _ ht := by
    simp only [Half.credit]
    split_ifs
    · exact ⟨ht.tally,ht.present⟩
    · exact ht
  close _ ht := ht
  notify _ ht := ⟨ht.tally,ht.present⟩
  send h a out f hm ht := Sender.moves_tallied _ _ a f hm ht
  recv _ _ _ _ _ ht := ht

end

namespace Flow

theorem handleFrame_kept (s : Flow Bytes) (x : Bool) (offer : Offer) (f : StreamFrame Bytes)
    (h : (s.half x).inn.dropped = false) : ((s.handleFrame x offer f).half x).inn.dropped = false := by
  cases f with
  | openStream => cases offer <;> exact h
  | ack ok =>
    simp only [handleFrame]
    split_ifs
    · simp [Half.register, Receiver.spawn]
    · exact h
    · exact h
  | data a =>
    simp only [handleFrame, setHalf_half, Function.update_self, Half.deliver, Receiver.deliver]
    split_ifs
    · split <;> exact h
    · exact h
  | credit n =>
    simp only [handleFrame, Half.credit]
    split_ifs <;> simpa using h
  | close => simpa [handleFrame, Half.close] using h

/-- Only its application lets go of a stream. -/
theorem step_kept (s t : Flow Bytes) (a : Act Bytes) (hst : s.step a = some t) (x : Bool)
    (h : (s.half x).inn.dropped = false) (ha : a ≠ .recv x .drop) :
    (t.half x).inn.dropped = false := by
  cases moves_of_step s t a hst with
  | ask | ship | pend | reply => exact h
  | register y =>
    rcases eq_or_ne x y with rfl | hne
    · simp [Half.register, Receiver.spawn]
    · simpa [hne] using h
  | handle y offer f rest =>
    rcases Bool.eq_or_eq_not x y with rfl | rfl
    · exact handleFrame_kept _ _ _ _ h
    · rwa [handleFrame_other]
  | notify y | send y | endLoop y =>
    rcases eq_or_ne x y with rfl | hne
    · simpa [Half.orphan] using h
    · simpa [hne] using h
  | recv y b inn f _ hm =>
    rcases eq_or_ne x y with rfl | hne
    · cases hm with
      | drop => exact absurd rfl ha
      | _ => simpa using h
    · simpa [hne] using h

end Flow

def AppAct.quiet : AppAct → Bool
  | .write _ _ => false
  | .close _ => false
  | .flow (.endLoop _) => false
  | .flow (.recv _ .drop) => false
  | .flow _ => true

def AppAct.works : AppAct → Bool
  | .flow (.recv _ .park) => false
  | a => a.quiet

theorem AppAct.quiet_flow (a : AppAct) (h : a.quiet = true) :
    ∃ b, a = .flow b ∧ (∀ x, b ≠ .endLoop x) ∧ ∀ x, b ≠ .recv x .drop := by
  cases a with
  | write | close => cases h
  | flow b =>
    refine ⟨b,rfl,?_,?_⟩ <;>
    · rintro x rfl
      cases h

theorem total_flatten (l : List Bytes) : total l = l.flatten.length :=
  (List.length_flatten ..).symm

namespace Session

structure Open (s : Session) : Prop where
  alive : ∀ x, s.flow.alive x = true
  born : ∀ x, (s.flow.half x).Born
  unclosed : ∀ x, s.closed x = false
  kept : ∀ x, (s.flow.half x).inn.dropped = false

def left (s : Session) : ℕ :=
  s.flow.work+33*((s.unread false).length+(s.unread true).length)

theorem Open.unseen {s : Session} (ho : s.Open) (h : Sound s) (x : Bool) :
    (s.flow.half x).closeSeen = false := by
  refine Bool.eq_false_iff.mpr fun hc => ?_
  have hfin := h.ended (!x) (Or.inl (by rwa [Bool.not_not]))
  exact absurd hfin.1 (by simp [ho.unclosed])

/-- Neither side has closed, and so no pump has stopped. -/
theorem Open.flow {s : Session} (ho : s.Open) (h : Sound s) : s.flow.Open where
  alive := ho.alive
  born := ho.born
  listed x := h.flow.listed x (ho.alive x) (ho.born x) (ho.unseen h x)
  pumping x := by
    refine Bool.eq_false_iff.mpr fun hp => ?_
    exact absurd (h.stopped x (ho.alive x) hp).1 (by simp [ho.unclosed])
  kept := ho.kept

theorem left_eq (s : Session) (x : Bool) :
    s.left = s.flow.work+33*((s.unread x).length+(s.unread (!x)).length) := by
  cases x
  · rfl
  · rw [left, Nat.add_comm (s.unread false).length]
    rfl

theorem Open.step {s t : Session} (ho : s.Open) (h : Sound s) (b : Act Bytes)
    (he : ∀ x, b ≠ .endLoop x) (hd : ∀ x, b ≠ .recv x .drop)
    (hst : s.step (.flow b) = some t) : t.Open := by
  cases moves_of_step s t _ hst with
  | flow _ f hr hf =>
    refine ⟨fun x => ?_,fun x => ?_,ho.unclosed,fun x => ?_⟩
    · by_contra hx
      exact he x (Flow.step_dies _ _ _ hf x (ho.alive x) (by simpa using hx)).1
    · exact Flow.step_born _ _ _ h.flow.progress.bounded.opening hf x (ho.born x)
    · exact Flow.step_kept _ _ _ hf x (ho.kept x) (hd x)

/-- A pump reads what was written, and nothing else reads it. -/
theorem Open.unread {s t : Session} (ho : s.Open) (h : Sound s) (b : Act Bytes)
    (hst : s.step (.flow b) = some t) (x : Bool) :
    (∃ c, b = .send x (.chunk c) ∧
      (t.unread x).length+size c = (s.unread x).length) ∨
      (∀ c, b ≠ .send x (.chunk c)) ∧ t.unread x = s.unread x := by
  cases moves_of_step s t _ hst with
  | flow _ f hr hf =>
    have htaken := Flow.step_out _ _ _ h.flow.progress.bounded.opening hf x
    by_cases hc : ∃ c, b = .send x (.chunk c)
    · left
      obtain ⟨c,rfl⟩ := hc
      obtain ⟨out,g,hm,rfl⟩ := Flow.step_send _ _ x _ hf
      have hle : size c ≤ (s.unread x).length :=
        (List.isPrefixOf_iff_prefix.mp (by simpa [reads] using hr)).length_le
      refine ⟨c,rfl,?_⟩
      cases Sender.moves_of_step _ _ _ _ hm with
      | chunk =>
        simp only [Session.unread, List.length_drop] at hle ⊢
        simp [size] at hle ⊢
        omega
    · right
      push Not at hc
      refine ⟨hc,?_⟩
      have hsame : (f.half x).out.taken = (s.flow.half x).out.taken := by
        rcases htaken with ⟨-,ht⟩ | ⟨hi,-⟩ | ⟨d,g,hd,-,hm⟩
        · exact ht
        · exact absurd hi ((ho.flow h).not_idle x)
        · obtain ht | ⟨c,rfl,-⟩ := Sender.moves_taken _ _ _ _ hm
          · exact ht
          · exact absurd hd (hc c)
      simp only [Session.unread, hsame]

/-- Every quiet step that does something leaves less to do. -/
theorem step_left (s t : Session) (a : AppAct) (ho : s.Open) (h : Sound s) (hq : a.quiet = true)
    (hst : s.step a = some t) : t.Open ∧ Sound t ∧ a.works.toNat+t.left ≤ s.left := by
  obtain ⟨b,rfl,he,hd⟩ := a.quiet_flow hq
  have hopen := ho.step h b he hd hst
  have hsound := step_sound s t _ h hst
  refine ⟨hopen,hsound,?_⟩
  have hu := ho.unread h b hst
  have hflow : s.flow.step b = some t.flow := by
    cases moves_of_step s t _ hst with
    | flow _ f _ hf => exact hf
  rcases (ho.flow h).step_work h.flow b (hopen.flow hsound) hflow hd with
    ⟨x,c,rfl,h0,hwork⟩ | ⟨x,rfl,hwork⟩ | hlt
  · have hx : (t.unread x).length+size c = (s.unread x).length := by
      obtain ⟨d,hd,hlen⟩ | ⟨hne,-⟩ := hu x
      · cases hd
        exact hlen
      · exact absurd rfl (hne c)
    have hy : t.unread (!x) = s.unread (!x) := by
      obtain ⟨d,hd,-⟩ | ⟨-,hsame⟩ := hu (!x)
      · cases x <;> cases hd
      · exact hsame
    rw [left_eq t x, left_eq s x, hwork, hy]
    have hw : (AppAct.flow (.send x (.chunk c))).works.toNat ≤ 1 := Bool.toNat_le _
    omega
  · have hsame : ∀ y, t.unread y = s.unread y := fun y => ((hu y).resolve_left (by simp)).2
    rw [left, left, hsame, hsame, hwork]
    simp [AppAct.works]
  · have hle : ∀ y, (t.unread y).length ≤ (s.unread y).length := by
      intro y
      obtain ⟨c,-,hlen⟩ | ⟨-,hsame⟩ := hu y
      · omega
      · rw [hsame]
    have h0 := hle false
    have h1 := hle true
    have hw : (AppAct.flow b).works.toNat ≤ 1 := Bool.toNat_le _
    simp only [left]
    omega

def Rests (s : Session) : Prop := ∀ a, AppAct.works a = true → s.step a = none

namespace Rests
variable {s : Session}

theorem flow (hr : s.Rests) (b : Act Bytes) (hw : AppAct.works (.flow b) = true)
    (hb : s.reads b = true) : s.flow.step b = none := by
  have hn := hr _ hw
  simpa [step, hb] using hn

theorem loop (hr : s.Rests) (ho : s.Open) (h : Sound s) (x : Bool) : s.flow.loop x = .free := by
  have hnot := hr.flow (.notify x) rfl rfl
  have hbind := hr.flow (.bind x) rfl rfl
  obtain ⟨he,hg⟩ := (ho.flow h).loop h.flow.progress.bounded.opening x
  cases hl : s.flow.loop x with
  | free => rfl
  | pend => simp [Flow.step, hl] at hbind
  | register => exact absurd hl hg
  | granting => simp [Flow.step, hl] at hnot
  | ended => exact absurd hl he

theorem pipe (hr : s.Rests) (ho : s.Open) (h : Sound s) (x : Bool) : s.flow.pipe x = [] := by
  have hcmds : s.flow.cmds x = [] := by
    have hship := hr.flow (.ship x) rfl rfl
    cases hc : s.flow.cmds x with
    | nil => rfl
    | cons f cmds => simp [Flow.step, hc, hr.loop ho h x] at hship
  have hwire : s.flow.wire x = [] := by
    have hhandle := hr.flow (.handle (!x) .accept) rfl rfl
    cases hw : s.flow.wire x with
    | nil => rfl
    | cons f rest => simp [Flow.step, hw, hr.loop ho h (!x)] at hhandle
  rw [Flow.pipe, hcmds, hwire]
  rfl

theorem duplex (hr : s.Rests) (ho : s.Open) (x : Bool) : (s.flow.half x).inn.duplex = 0 := by
  have hread := hr.flow (.recv x (.read 1 false)) rfl rfl
  by_contra hn
  have h1 : 1 ≤ (s.flow.half x).inn.duplex := Nat.one_le_iff_ne_zero.mpr hn
  simp [Flow.step, RecvAct.admits, Receiver.step, ho.alive x, ho.kept x, h1] at hread

theorem writer (hr : s.Rests) (ho : s.Open) (h : Sound s) (x : Bool) :
    (s.flow.half x).inn.writer = .recv ∧ (s.flow.half x).inn.chan = [] := by
  have hp := (h.flow.served x).present ((ho.flow h).listed x)
  have h0 := hr.duplex ho x
  have hrecv := hr.flow (.recv x .recv) rfl rfl
  have hwrite := hr.flow (.recv x (.write 1)) rfl rfl
  have hfinish := hr.flow (.recv x .finish) rfl rfl
  simp only [Flow.step, RecvAct.admits, if_true, Receiver.step] at hrecv hwrite hfinish
  cases hw : (s.flow.half x).inn.writer with
  | absent => exact absurd hw hp.1
  | shut => exact absurd hw hp.2
  | failed a i => exact absurd ((h.flow.served x).failed a i hw).2 (by simp [ho.kept x])
  | writing a i =>
    have hi := (h.filled x).within a i (Or.inl hw)
    rcases Nat.lt_or_eq_of_le hi with hlt | rfl
    · have hs : i+1 ≤ size a := hlt
      simp [hw, h0, hs, duplexLen, ho.kept x] at hwrite
    · simp [hw, size] at hfinish
  | recv =>
    refine ⟨rfl,?_⟩
    cases hc : (s.flow.half x).inn.chan with
    | nil => rfl
    | cons a chan => simp [hw, hc] at hrecv

theorem forwarder (hr : s.Rests) (ho : s.Open) (h : Sound s)
    (hp : ∀ x, (s.flow.half x).out.Tallied) (x : Bool) :
    (s.flow.half x).out.forwarder = .waiting ∧ (s.flow.half x).out.q = [] := by
  have htake := hr.flow (.send x .take) rfl rfl
  have hforward := hr.flow (.send x (.forward true)) rfl rfl
  simp only [Flow.step, SendAct.admits, ho.alive x, beq_self_eq_true, if_true, Sender.step]
    at htake hforward
  cases hf : (s.flow.half x).out.forwarder with
  | absent => exact absurd hf ((hp x).present (ho.born x))
  | holding a => simp [hf] at hforward
  | ended =>
    have hpump := (ho.flow h).pumping x
    rcases h.flow.lively x (ho.alive x) hf with hd | hd | hd <;>
    · rw [hd] at hpump
      cases hpump
  | waiting =>
    refine ⟨rfl,?_⟩
    cases hq : (s.flow.half x).out.q with
    | nil => rfl
    | cons a q => simp [hf, hq] at htake

/-- The pump waits for the application or for the window. -/
theorem pump (hr : s.Rests) (ho : s.Open) (h : Sound s)
    (hp : ∀ x, (s.flow.half x).out.Tallied) (x : Bool) :
    (s.flow.half x).out.pump = .read ∨
      (s.flow.half x).out.pump = .wait .parked ∧ (s.flow.half x).out.notified = false := by
  obtain ⟨hf,hq⟩ := hr.forwarder ho h hp x
  have hpump := (ho.flow h).pumping x
  have hcheck := hr.flow (.send x .check) rfl rfl
  have henqueue := hr.flow (.send x .enqueue) rfl rfl
  have hcount := hr.flow (.send x .count) rfl rfl
  simp only [Flow.step, SendAct.admits, if_true, Sender.step] at hcheck henqueue hcount
  cases hs : (s.flow.half x).out.pump with
  | absent => exact absurd hs (ho.born x)
  | read => exact Or.inl rfl
  | enqueue a => simp [hs, hf, hq, streamOutQueue] at henqueue
  | count n => simp [hs] at hcount
  | drain | close | done =>
    rw [hs] at hpump
    cases hpump
  | wait w =>
    right
    cases w with
    | parked => simpa [hs, Sender.check] using hcheck
    | _ => simp [hs, Sender.check] at hcheck

/-- Everything that the pump has read has been read by the other application. -/
theorem delivered (hr : s.Rests) (ho : s.Open) (h : Sound s)
    (hp : ∀ x, (s.flow.half x).out.Tallied) (x : Bool) :
    s.received (!x) = (s.flow.half x).out.taken.flatten ∧
      (s.flow.half (!x)).inn.appRead = (s.flow.half x).out.taken.flatten.length := by
  obtain ⟨hw,hc⟩ := hr.writer ho h (!x)
  obtain ⟨hf,hq⟩ := hr.forwarder ho h hp x
  have hfilled := (h.filled (!x)).length
  rw [hr.duplex ho, Nat.add_zero] at hfilled
  have hkept : (s.flow.half x).out.kept = [] := by
    rcases hr.pump ho h hp x with hs | ⟨hs,-⟩ <;> simp [Sender.kept, hf, hq, hs, Forwarder.hand,
      Pump.hand]
  have hgot : (s.flow.half (!x)).inn.got.flatten = (s.flow.half (!x)).inn.delivered := by
    simp [Receiver.got_flatten, Receiver.held, hw, hc, Writer.remaining]
  obtain ⟨rest,he,hrest,-⟩ := (h.flow.ordered x).whole (by rw [hw]; rfl)
  rw [hrest (ho.alive x), hkept, hr.pipe ho h x] at he
  have hall : (s.flow.half (!x)).inn.delivered = (s.flow.half x).out.taken.flatten := by
    rw [← hgot, he]
    simp [dataOf]
  rw [received, ← hfilled, List.take_length, hall]
  exact ⟨rfl,rfl⟩

/-- A pump that waits for the window waits for a credit that could not be sent. -/
theorem parked (hr : s.Rests) (ho : s.Open) (h : Sound s)
    (hp : ∀ x, (s.flow.half x).out.Tallied) (x : Bool)
    (hs : (s.flow.half x).out.pump = .wait .parked ∧ (s.flow.half x).out.notified = false) :
    (s.flow.half (!x)).inn.missed = true := by
  have hprogress := h.flow.progress
  have hread : (s.flow.half (!x)).inn.appRead = (s.flow.half x).out.enqueued := by
    have hlen := (hr.delivered ho h hp x).2
    have htally := (hp x).tally
    have hdue := hprogress.bounded.balanced x
    rw [total_flatten (s.flow.half x).out.taken] at htally
    simp only [Flow.due] at hdue
    omega
  have hgranted : (s.flow.half x).out.granted = (s.flow.half (!x)).inn.returned := by
    have hknown := ((hprogress.known x (ho.alive x)).entry (ho.born x) (ho.unseen h x)).2
    have hexact := hprogress.exact x (ho.alive x) (ho.alive (!x))
    rw [hr.pipe ho h, amounts_nil, Nat.zero_add] at hexact
    exact hknown.trans (hexact.trans (hprogress.returned (!x)))
  have hfree : s.flow.loop x ≠ .granting := by simp [hr.loop ho h x]
  exact (hprogress.counted (!x)).missed.mpr
    (Flow.parked_owes _ hprogress x hs.1 hs.2 hfree hread hgranted)

/-- A pump that waits for the application has read all it wrote. -/
theorem taken (hr : s.Rests) (h : Sound s) (x : Bool)
    (hs : (s.flow.half x).out.pump = .read) :
    (s.flow.half x).out.taken.flatten = s.wrote x := by
  refine (h.read x).eq_of_length_le ?_
  cases hu : s.unread x with
  | nil => simpa [unread] using hu
  | cons b rest =>
    have hchunk := hr.flow (.send x (.chunk [b])) rfl (by simp [reads, hu])
    simp [Flow.step, SendAct.admits, Sender.step, hs, size, bufLen] at hchunk

end Rests

theorem rests_of_left (s : Session) (ho : s.Open) (h : Sound s) (h0 : s.left = 0) : s.Rests := by
  intro a hw
  by_contra hn
  obtain ⟨t,hst⟩ := Option.ne_none_iff_exists'.mp hn
  have hq : a.quiet = true := by
    cases a with
    | write | close => exact hw
    | flow b => cases b with
      | recv x b => cases b <;> first | exact hw | rfl
      | _ => exact hw
  have hle := (step_left s t a ho h hq hst).2.2
  rw [hw, Bool.toNat_true] at hle
  omega

theorem quiet_wrote (s t : Session) (a : AppAct) (hq : a.quiet = true) (hst : s.step a = some t) :
    t.wrote = s.wrote := by
  obtain ⟨b,rfl,-⟩ := a.quiet_flow hq
  cases moves_of_step s t _ hst with
  | flow => rfl

theorem step_tallied (s t : Session) (a : AppAct) (hst : s.step a = some t)
    (hp : ∀ x, (s.flow.half x).out.Tallied) (x : Bool) : (t.flow.half x).out.Tallied := by
  cases moves_of_step s t a hst with
  | write | close => exact hp x
  | flow b f hr hf =>
    rcases Flow.step_stable Half.tallied_stable _ _ _ hf x (fun _ _ _ _ _ _ => trivial) (hp x) with
      hx | ⟨hx,-⟩
    · exact hx
    · rw [hx]
      exact ⟨(hp x).tally,(hp x).present⟩

theorem init_tallied (x : Bool) : (init.flow.half x).out.Tallied := ⟨le_rfl,fun hn => absurd rfl hn⟩

def settling : List AppAct :=
  .flow (.send true .check)::sent [7,8]++([.send false .check,.recv true .recv,
    .recv true (.write 2),.recv true .finish,.recv true (.read 2 true)] : List (Act Bytes)).map .flow

instance (s : Session) : Decidable s.Open :=
  decidable_of_iff ((∀ x, s.flow.alive x = true) ∧ (∀ x, (s.flow.half x).out.pump ≠ .absent) ∧
      (∀ x, s.closed x = false) ∧ ∀ x, (s.flow.half x).inn.dropped = false)
    ⟨fun ⟨h1,h2,h3,h4⟩ => ⟨h1,h2,h3,h4⟩,fun ⟨h1,h2,h3,h4⟩ => ⟨h1,h2,h3,h4⟩⟩

theorem settling_settles : (((run step greeting init).bind fun s =>
    if s.Open then run step settling s else none).map fun t =>
      decide (t.Open ∧ t.left = 0 ∧ (t.flow.half false).out.pump = .read)) = some true := by
  decide +kernel

end Session
end Hydr.Stream
