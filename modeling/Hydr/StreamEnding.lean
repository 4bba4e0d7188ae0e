import Mathlib
import Hydr.StreamDelivery

/-!
# The end of a stream

The applications at the two ends write, close their sending direction and read.
A read returns zero once the duplex is shut down and empty. The writer task
shuts the duplex down when the loop drops its queue: after a StreamClose, and
also when the loop ends.
-/

set_option autoImplicit false

namespace Hydr.Stream
open Transition

def Pump.stopped {α : Type} : Pump α → Bool
  | .drain => true
  | .close => true
  | .done => true
  | _ => false

structure Session where
  flow : Flow Bytes
  wrote : Bool → Bytes
  closed : Bool → Bool
  accepted : Bool

inductive AppAct where
  | write (x : Bool) (bytes : Bytes)
  | close (x : Bool)
  | flow (a : Act Bytes)

namespace Session

def init : Session := ⟨.init,fun _ => [],fun _ => false,false⟩

def unread (s : Session) (x : Bool) : Bytes :=
  (s.wrote x).drop (s.flow.half x).out.taken.flatten.length

def Holds (s : Session) (x : Bool) : Prop :=
  (s.flow.half x).Born ∨ x = true ∧ s.accepted = true

instance (s : Session) (x : Bool) : Decidable (s.Holds x) :=
  inferInstanceAs (Decidable ((s.flow.half x).out.pump ≠ .absent ∨ _))

def reads (s : Session) : Act Bytes → Bool
  | .send x (.chunk a) => a.isPrefixOf (s.unread x)
  | .send x .stop => s.closed x && (s.unread x).isEmpty
  | _ => true

def accepts : Act Bytes → Bool
  | .reply ok => ok
  | _ => false

def step (s : Session) : AppAct → Option Session
  | .write x bytes =>
    if s.Holds x ∧ s.closed x = false ∧ (s.unread x).length+bytes.length ≤ duplexLen then
      some { s with wrote := Function.update s.wrote x (s.wrote x++bytes) }
    else none
  | .close x =>
    if s.Holds x ∧ s.closed x = false then
      some { s with closed := Function.update s.closed x true }
    else none
  | .flow a =>
    if s.reads a then (s.flow.step a).map fun f => { s with
      flow := f
      accepted := s.accepted || accepts a }
    else none

def received (s : Session) (x : Bool) : Bytes :=
  (s.flow.half x).inn.delivered.take (s.flow.half x).inn.appRead

/-- A read of the application returns zero: the duplex is empty and shut down,
or was dropped with the command that should have registered it. -/
def Eof (s : Session) (x : Bool) : Prop :=
  (s.flow.half x).inn.dropped = false ∧ (s.flow.half x).inn.duplex = 0 ∧
    ((s.flow.half x).Born ∧ (s.flow.half x).inn.writer = .shut ∨
      s.Holds x ∧ ¬(s.flow.half x).Born ∧ s.flow.alive x = false)

def Clean (s : Session) (x : Bool) : Prop :=
  s.Eof x → (s.flow.half x).closeSeen = true ∧ s.closed (!x) = true ∧
    s.received x = s.wrote (!x)

/-- A loop that ends owes nothing to its application: the stream is not its,
or was dropped, or its StreamClose was handled. -/
def Settles (s : Session) (a : AppAct) : Prop :=
  ∀ x, a = .flow (.endLoop x) → s.Holds x →
    (s.flow.half x).closeSeen = true ∨ (s.flow.half x).inn.dropped = true

inductive Moves (s : Session) : AppAct → Session → Prop where
  | write (x : Bool) (bytes : Bytes) (hh : s.Holds x) (hc : s.closed x = false) :
    Moves s (.write x bytes) { s with wrote := Function.update s.wrote x (s.wrote x++bytes) }
  | close (x : Bool) (hh : s.Holds x) :
    Moves s (.close x) { s with closed := Function.update s.closed x true }
  | flow (a : Act Bytes) (f : Flow Bytes) (hr : s.reads a = true) (hf : s.flow.step a = some f) :
    Moves s (.flow a) { s with flow := f, accepted := s.accepted || accepts a }

theorem moves_of_step (s t : Session) (a : AppAct) (h : s.step a = some t) : Moves s a t := by
  cases a with
  | write x bytes =>
    simp only [step] at h
    split_ifs at h with hc
    cases h
    exact .write x bytes hc.1 hc.2.1
  | close x =>
    simp only [step] at h
    split_ifs at h with hc
    cases h
    exact .close x hc.1
  | flow a =>
    simp only [step] at h
    split_ifs at h with hc
    obtain ⟨f,hf,he⟩ := Option.map_eq_some_iff.mp h
    cases he
    exact .flow a f hc hf

end Session

structure Receiver.Filled (r : Receiver Bytes) : Prop where
  length : r.delivered.length = r.appRead+r.duplex
  within : ∀ a i, r.writer = .writing a i ∨ r.writer = .failed a i → i ≤ a.length

theorem Receiver.deliver_filled (r : Receiver Bytes) (a : Bytes) (h : r.Filled) :
    (r.deliver a).Filled := by
  unfold deliver
  split
  · rename_i hw
    exact ⟨h.length,h.within⟩
  · exact ⟨h.length,h.within⟩
  · exact h

theorem Receiver.moves_filled (closed : Bool) (r t : Receiver Bytes) (a : RecvAct)
    (f : Option (StreamFrame Bytes)) (hm : Receiver.Moves closed r a t f) (h : r.Filled) :
    t.Filled := by
  have hl := h.length
  cases hm with
  | recv a chan hw hc =>
    refine ⟨?_,?_⟩
    · simpa [delivered, hw, Writer.part] using hl
    · rintro b i (⟨⟨⟩⟩ | ⟨⟨⟩⟩)
      exact Nat.zero_le _
  | write a i k hw h0 hs hd ha =>
    have hs' : i+k ≤ a.length := hs
    refine ⟨?_,?_⟩
    · simp only [delivered, hw, Writer.part, List.length_append, List.length_take] at hl ⊢
      omega
    · rintro b j (⟨⟨⟩⟩ | ⟨⟨⟩⟩)
      exact hs'
  | finish a hw =>
    refine ⟨?_,?_⟩
    · simpa [delivered, hw, Writer.part, Chunk.size] using hl
    · rintro b j (⟨⟨⟩⟩ | ⟨⟨⟩⟩)
  | fail a i hw ha hi =>
    refine ⟨?_,?_⟩
    · simpa [delivered, hw, Writer.part] using hl
    · rintro b j (⟨⟨⟩⟩ | ⟨⟨⟩⟩)
      exact h.within a i (Or.inl hw)
  | shutdown hw =>
    refine ⟨?_,?_⟩
    · simpa [delivered, hw, Writer.part] using hl
    · rintro b j (⟨⟨⟩⟩ | ⟨⟨⟩⟩)
  | keep n refused h0 hn | miss n h0 hn | giveBack n h0 hn =>
    refine ⟨?_,h.within⟩
    change r.delivered.length = r.appRead+n+(r.duplex-n)
    omega
  | park | drop => exact ⟨hl,h.within⟩

theorem Half.filled_stable : Stable (fun _ _ => True) (fun h : Half Bytes => h.inn.Filled) where
  register := ⟨rfl,by rintro a i (⟨⟨⟩⟩ | ⟨⟨⟩⟩)⟩
  deliver h a hi := by
    unfold deliver
    split_ifs
    · exact h.inn.deliver_filled a hi
    · exact hi
  credit h n _ hi := by
    rw [(Half.credit_tables h n).2.2.1]
    exact hi
  close _ hi := hi
  notify _ hi := hi
  send _ _ _ _ _ hi := hi
  recv h a inn f hm hi := Receiver.moves_filled _ _ _ _ _ hm hi

namespace Flow

theorem step_out (s t : Flow Bytes) (a : Act Bytes) (ho : Opening s) (hst : s.step a = some t)
    (x : Bool) :
    ((t.half x).out.pump = (s.half x).out.pump ∧ (t.half x).out.taken = (s.half x).out.taken) ∨
      (s.half x).Idle ∧ (t.half x).out = .spawn ∨
      ∃ b f, a = .send x b ∧ b.admits (s.alive x) = true ∧
        Sender.Moves (s.half x).out b (t.half x).out f := by
  cases moves_of_step s t a hst with
  | ask | ship | pend | reply => exact Or.inl ⟨rfl,rfl⟩
  | register y hl =>
    rcases eq_or_ne x y with rfl | hne
    · refine Or.inr (Or.inl ⟨?_,by simp [Half.register]⟩)
      cases x with
      | false => exact absurd hl ho.asking
      | true => exact (ho.registering hl).1
    · exact Or.inl (by simp [hne])
  | handle y offer f rest hw hl =>
    rcases handleFrame_out { s with wire := Function.update s.wire (!y) rest } y offer f x with
      ⟨hp,-,-,ht⟩ | ⟨rfl,rfl,rfl,hr⟩
    · exact Or.inl ⟨hp,ht⟩
    · exact Or.inr (Or.inl ⟨ack_idle s ho true rest hw,by rw [hr]; rfl⟩)
  | notify y =>
    left
    rcases eq_or_ne x y with rfl | hne
    · simp [Sender.notify]
    · simp [hne]
  | send y b out f ha hm =>
    rcases eq_or_ne x y with rfl | hne
    · exact Or.inr (Or.inr ⟨b,f,rfl,ha,by simpa using hm⟩)
    · exact Or.inl (by simp [hne])
  | recv y b inn f =>
    left
    rcases eq_or_ne x y with rfl | hne
    · simp
    · simp [hne]
  | endLoop y =>
    left
    rcases eq_or_ne x y with rfl | hne
    · simp [Half.orphan]
    · simp [hne]

theorem step_born (s t : Flow Bytes) (a : Act Bytes) (ho : Opening s) (hst : s.step a = some t)
    (x : Bool) (hb : (s.half x).Born) : (t.half x).Born := by
  rcases step_out s t a ho hst x with ⟨hp,-⟩ | ⟨hi,-⟩ | ⟨b,f,-,-,hm⟩
  · rwa [Half.Born, hp]
  · exact absurd (by rw [hi.out]; rfl) hb
  · exact (not_congr (Sender.moves_born _ _ _ _ hm)).mp hb

/-- A StreamClose comes from a living pump that has read to the end. -/
theorem step_over (s t : Flow Bytes) (a : Act Bytes) (hst : s.step a = some t) (x : Bool)
    (h : t.Over x) : s.Over x ∨ s.alive x = true ∧ (s.half x).out.pump = .close := by
  cases moves_of_step s t a hst with
  | ask | reply =>
    left
    refine h.imp id fun hm => ?_
    cases x <;> simpa [pipe] using hm
  | ship y f cmds hc =>
    left
    refine h.imp id fun hm => ?_
    rcases eq_or_ne x y with rfl | hne
    · simpa [pipe, hc, or_assoc] using hm
    · simpa [pipe, hne] using hm
  | pend y => exact Or.inl h
  | register y =>
    left
    refine h.imp (fun hc => ?_) id
    rcases eq_or_ne (!x) y with rfl | hne
    · simp [Half.register] at hc
    · simpa [hne] using hc
  | handle y offer f rest hw =>
    left
    rcases h with hc | hm
    · rcases handleFrame_closeSeen _ _ _ _ _ hc with hs | ⟨rfl,rfl⟩
      · exact Or.inl hs
      · right
        rw [Bool.not_not] at hw
        simp [pipe, hw]
    · right
      rw [← close_mem_payload, handleFrame_payload] at hm
      rw [← close_mem_payload, pop_payload s (!y) f rest hw]
      exact List.mem_append_right _ hm
  | notify y =>
    left
    refine h.imp (fun hc => ?_) id
    rcases eq_or_ne (!x) y with rfl | hne
    · simpa using hc
    · simpa [hne] using hc
  | send y b out f ha hm =>
    rcases eq_or_ne x y with rfl | hne
    · rcases h with hc | hmem
      · exact Or.inl (Or.inl (by simpa using hc))
      · rcases List.mem_append.mp (show .close ∈ s.pipe x++f.toList by simpa [pipe] using hmem)
          with hs | hf
        · exact Or.inl (Or.inr hs)
        · obtain ⟨hp,-,rfl⟩ := Sender.moves_close _ _ _ _ hm (by simpa using hf)
          exact Or.inr ⟨by simpa [SendAct.admits] using ha.symm,hp⟩
    · left
      refine h.imp (fun hc => ?_) fun hm => ?_
      · rcases eq_or_ne (!x) y with rfl | hny
        · simpa using hc
        · simpa [hny] using hc
      · simpa [pipe, hne] using hm
  | recv y b inn f _ hm =>
    left
    refine h.imp (fun hc => ?_) fun hmem => ?_
    · rcases eq_or_ne (!x) y with rfl | hny
      · simpa using hc
      · simpa [hny] using hc
    · rcases eq_or_ne x y with rfl | hne
      · rcases Receiver.moves_emit _ _ _ _ _ hm with rfl | ⟨n,rfl⟩ <;> simpa [pipe] using hmem
      · simpa [pipe, hne] using hmem
  | endLoop y =>
    left
    refine h.imp (fun hc => ?_) fun hmem => ?_
    · rcases eq_or_ne (!x) y with rfl | hny
      · simpa [Half.orphan] using hc
      · simpa [hny] using hc
    · rcases eq_or_ne x y with rfl | hne
      · simp [pipe] at hmem ⊢
        exact Or.inl hmem
      · simpa [pipe, hne] using hmem

/-- A side whose loop has ended before. -/
theorem step_dead (s t : Flow Bytes) (a : Act Bytes) (hst : s.step a = some t) (x : Bool)
    (hx : s.alive x = false) :
    ((t.half x).Born ↔ (s.half x).Born) ∧ (t.half x).closeSeen = (s.half x).closeSeen ∧
      ((s.half x).inn.dropped = true → (t.half x).inn.dropped = true) := by
  have hl : s.loop x = .ended := by simpa [alive] using hx
  have hne : ∀ y, s.loop y ≠ .ended → x ≠ y := by
    rintro y hy rfl
    exact hy hl
  cases moves_of_step s t a hst with
  | ask | ship | pend | reply => exact ⟨Iff.rfl,rfl,id⟩
  | register y hy | notify y hy =>
    have hxy := hne y (by simp [hy])
    simp [hxy]
  | endLoop y hy =>
    have hxy := hne y (by simp [hy])
    simp [hxy]
  | handle y offer f rest hw hy =>
    obtain rfl : x = !y := Bool.eq_not.mpr (hne y (by simp [hy]))
    rw [handleFrame_other]
    exact ⟨Iff.rfl,rfl,id⟩
  | send y b out f ha hm =>
    rcases eq_or_ne x y with rfl | hxy
    · have hb := Sender.moves_born _ _ _ _ hm
      simpa [Half.Born] using (not_congr hb).symm
    · simp [hxy]
  | recv y b inn f _ hm =>
    rcases eq_or_ne x y with rfl | hxy
    · refine ⟨by simp [Half.Born],by simp,fun hd => ?_⟩
      cases hm <;> simp [hd]
    · simp [hxy]

/-- A loop is gone only after its own end. -/
theorem step_dies (s t : Flow Bytes) (a : Act Bytes) (hst : s.step a = some t) (x : Bool)
    (hx : s.alive x = true) (ht : t.alive x = false) :
    a = .endLoop x ∧ t.half x = (s.half x).orphan := by
  have hset : ∀ (u : Flow Bytes) y l, u.alive x = true → l ≠ .ended →
      (u.setLoop y l).alive x = false → False := by
    intro u y l hu hl ha
    rcases eq_or_ne x y with rfl | hne
    · simp [alive, hl] at ha
    · rw [alive, setLoop_loop, Function.update_of_ne hne] at ha
      exact absurd (hu.symm.trans ha) (by decide)
  cases moves_of_step s t a hst with
  | ask | reply | send | recv => exact absurd (hx.symm.trans ht) (by decide)
  | ship y f =>
    have hf : afterShip f ≠ .ended := by rcases f with _ | (_ | _) | _ | _ | _ <;> simp [afterShip]
    exact (hset _ y _ hx hf ht).elim
  | pend y => exact (hset { s with pending := true } y .free hx (by decide) ht).elim
  | register y => exact (hset (s.setHalf y .register) y .free hx (by decide) ht).elim
  | notify y =>
    exact (hset (s.setHalf y { s.half y with out := (s.half y).out.notify }) y .free hx (by decide) ht).elim
  | handle y offer f rest hw hl =>
    have ha := handleFrame_alive { s with wire := Function.update s.wire (!y) rest } y offer f hl x
    exact absurd ((ha.trans hx).symm.trans ht) (by decide)
  | endLoop y hl =>
    rcases eq_or_ne x y with rfl | hne
    · exact ⟨rfl,by simp⟩
    · simp [alive, hne] at ht hx
      exact absurd ht hx

end Flow

/-- Only a chunk adds to what was read. -/
theorem Sender.moves_taken (s t : Sender Bytes) (a : SendAct Bytes) (f : Option (StreamFrame Bytes))
    (hm : Sender.Moves s a t f) :
    t.taken = s.taken ∨ ∃ c, a = .chunk c ∧ t.taken = s.taken++[c] := by
  cases hm with
  | chunk c => exact Or.inr ⟨c,rfl,rfl⟩
  | _ => exact Or.inl rfl

/-- A pump stops at the end of what it reads, or when its forwarder is gone. -/
theorem Sender.moves_stopped (s t : Sender Bytes) (a : SendAct Bytes)
    (f : Option (StreamFrame Bytes)) (hm : Sender.Moves s a t f) (h : t.pump.stopped = true) :
    t.taken = s.taken ∧
      (s.pump.stopped = true ∨ a = .stop ∨ s.pump.stopped = false ∧ s.forwarder = .ended) := by
  cases hm with
  | pass | turn | subscribe | enable | wake | chunk | enqueue | count => cases h
  | stop => exact ⟨rfl,Or.inr (Or.inl rfl)⟩
  | refuse c hp hf => exact ⟨rfl,Or.inr (Or.inr ⟨by rw [hp]; rfl,hf⟩)⟩
  | take | forward | lose | finish => exact ⟨rfl,Or.inl h⟩
  | drained hp | close ok hp => exact ⟨rfl,Or.inl (by rw [hp]; rfl)⟩

theorem Flow.step_keeps (s t : Flow Bytes) (a : Act Bytes) (ho : Opening s)
    (hst : s.step a = some t) (x : Bool) (hb : (s.half x).Born) :
    (s.half x).out.taken <+: (t.half x).out.taken := by
  rcases step_out s t a ho hst x with ⟨-,ht⟩ | ⟨hi,-⟩ | ⟨b,f,-,-,hm⟩
  · rw [ht]
  · exact absurd (by rw [hi.out]; rfl) hb
  · rcases Sender.moves_taken _ _ _ _ hm with ht | ⟨c,-,ht⟩
    · rw [ht]
    · rw [ht]
      exact List.prefix_append _ _

namespace Session

def Finished (s : Session) (x : Bool) : Prop :=
  s.closed x = true ∧ (s.flow.half x).out.taken.flatten = s.wrote x

structure Sound (s : Session) : Prop where
  flow : s.flow.Sound
  filled : ∀ x, (s.flow.half x).inn.Filled
  read : ∀ x, (s.flow.half x).out.taken.flatten <+: s.wrote x
  stopped : ∀ x, s.flow.alive x = true → (s.flow.half x).out.pump.stopped = true → s.Finished x
  ended : ∀ x, s.flow.Over x → s.Finished x

def Settled (s : Session) : Prop := ∀ x, s.flow.alive x = false → s.Holds x →
  (s.flow.half x).closeSeen = true ∨ (s.flow.half x).inn.dropped = true

theorem init_sound : Sound init where
  flow := Flow.init_sound
  filled _ := ⟨rfl,by rintro a i (⟨⟨⟩⟩ | ⟨⟨⟩⟩)⟩
  read _ := List.prefix_refl _
  stopped _ _ h := nomatch h
  ended x h := by simp [init, Flow.Over, Flow.init, Flow.pipe, Half.absent] at h

theorem init_settled : Settled init := fun x h => by simp [init, Flow.init, Flow.alive] at h

theorem Finished.write (s : Session) (x y : Bool) (bytes : Bytes) (hc : s.closed y = false)
    (h : s.Finished x) :
    Finished { s with wrote := Function.update s.wrote y (s.wrote y++bytes) } x := by
  have hne : x ≠ y := by
    rintro rfl
    rw [h.1] at hc
    cases hc
  exact ⟨h.1,by simpa [hne] using h.2⟩

theorem Finished.close (s : Session) (x y : Bool) (h : s.Finished x) :
    Finished { s with closed := Function.update s.closed y true } x := by
  refine ⟨?_,h.2⟩
  rcases eq_or_ne x y with rfl | hne
  · simp
  · simpa [hne] using h.1

/-- A pump that has stopped in one state and reads no more. -/
theorem flow_read (s : Session) (h : Sound s) (a : Act Bytes) (f : Flow Bytes)
    (hr : s.reads a = true) (hf : s.flow.step a = some f) (x : Bool) :
    (f.half x).out.taken.flatten <+: s.wrote x := by
  have hx := h.read x
  rcases Flow.step_out _ _ _ h.flow.progress.bounded.opening hf x with
    ⟨-,ht⟩ | ⟨-,ht⟩ | ⟨b,g,rfl,-,hm⟩
  · rwa [ht]
  · rw [ht]
    exact List.nil_prefix
  · rcases Sender.moves_taken _ _ _ _ hm with ht | ⟨c,rfl,ht⟩
    · rwa [ht]
    · rw [ht]
      simp only [reads, List.isPrefixOf_iff_prefix, unread] at hr
      obtain ⟨rest,hw⟩ := hx
      rw [← hw, List.drop_left] at hr
      rw [← hw, List.flatten_append, List.flatten_singleton]
      exact (List.prefix_append_right_inj _).mpr hr

theorem flow_stopped (s : Session) (h : Sound s) (a : Act Bytes) (f : Flow Bytes)
    (hr : s.reads a = true) (hf : s.flow.step a = some f) (x : Bool) (ha : f.alive x = true)
    (hp : (f.half x).out.pump.stopped = true) :
    s.closed x = true ∧ (f.half x).out.taken.flatten = s.wrote x := by
  have halive := Flow.step_alive _ _ _ hf x ha
  rcases Flow.step_out _ _ _ h.flow.progress.bounded.opening hf x with
    ⟨hq,ht⟩ | ⟨-,ht⟩ | ⟨b,g,rfl,-,hm⟩
  · rw [ht]
    exact h.stopped x halive (hq ▸ hp)
  · rw [ht] at hp
    cases hp
  · obtain ⟨ht,hs | rfl | ⟨hs,hfw⟩⟩ := Sender.moves_stopped _ _ _ _ hm hp
    · rw [ht]
      exact h.stopped x halive hs
    · rw [ht]
      simp only [reads, Bool.and_eq_true, List.isEmpty_iff, unread, List.drop_eq_nil_iff] at hr
      exact ⟨hr.1,(h.read x).eq_of_length_le hr.2⟩
    · rcases h.flow.lively x halive hfw with hd | hd | hd <;> simp [hd, Pump.stopped] at hs

theorem flow_over (s : Session) (h : Sound s) (a : Act Bytes) (f : Flow Bytes)
    (hr : s.reads a = true) (hf : s.flow.step a = some f) (x : Bool) (ho : f.Over x) :
    s.closed x = true ∧ (f.half x).out.taken.flatten = s.wrote x := by
  obtain ⟨hfin,hb⟩ : s.Finished x ∧ (s.flow.half x).Born := by
    rcases Flow.step_over _ _ _ hf x ho with hs | ⟨ha,hp⟩
    · exact ⟨h.ended x hs,by simp [Half.Born, h.flow.closing.done x hs]⟩
    · exact ⟨h.stopped x ha (by rw [hp]; rfl),by simp [Half.Born, hp]⟩
  refine ⟨hfin.1,(flow_read s h a f hr hf x).eq_of_length_le ?_⟩
  rw [← hfin.2]
  exact (Flow.step_keeps _ _ _ h.flow.progress.bounded.opening hf x hb).flatten.length_le

theorem step_sound (s t : Session) (a : AppAct) (h : Sound s) (hst : s.step a = some t) :
    Sound t := by
  cases moves_of_step s t a hst with
  | write y bytes hh hc =>
    refine ⟨h.flow,h.filled,fun x => ?_,fun x ha hp => ?_,fun x ho => ?_⟩
    · rcases eq_or_ne x y with rfl | hne
      · simpa using (h.read x).trans (List.prefix_append _ _)
      · simpa [hne] using h.read x
    · exact (h.stopped x ha hp).write s x y bytes hc
    · exact (h.ended x ho).write s x y bytes hc
  | close y =>
    exact ⟨h.flow,h.filled,h.read,fun x ha hp => (h.stopped x ha hp).close s x y,
      fun x ho => (h.ended x ho).close s x y⟩
  | flow a f hr hf =>
    refine ⟨Flow.step_sound _ _ _ h.flow hf,fun x => ?_,flow_read s h a f hr hf,
      flow_stopped s h a f hr hf,flow_over s h a f hr hf⟩
    rcases Flow.step_stable Half.filled_stable _ _ _ hf x (fun _ _ _ _ _ _ => trivial)
      (h.filled x) with hx | ⟨hx,-⟩
    · exact hx
    · rw [hx]
      exact h.filled x

theorem accepts_alive (s : Session) (f : Flow Bytes) (a : Act Bytes) (hf : s.flow.step a = some f)
    (ha : accepts a = true) : s.flow.alive true = true := by
  cases Flow.moves_of_step _ _ _ hf with
  | reply ok hs halive => exact halive
  | _ => cases ha

theorem step_settled (s t : Session) (a : AppAct) (hs : Settled s) (hk : s.Settles a)
    (hst : s.step a = some t) : Settled t := by
  intro x hx hh
  cases moves_of_step s t a hst with
  | write | close => exact hs x hx hh
  | flow a f hr hf =>
    cases ha : s.flow.alive x with
    | false =>
      obtain ⟨hb,hc,hd⟩ := Flow.step_dead _ _ _ hf x ha
      have hold : s.Holds x := by
        refine hh.imp hb.mp fun ⟨hx1,hacc⟩ => ⟨hx1,?_⟩
        subst hx1
        cases hold : s.accepted with
        | true => rfl
        | false =>
          have hreply := accepts_alive s f a hf (by simpa [hold] using hacc)
          exact absurd (hreply.symm.trans ha) nofun
      exact (hs x ha hold).imp (fun h => hc.trans h) hd
    | true =>
      obtain ⟨rfl,hhalf⟩ := Flow.step_dies _ _ _ hf x ha hx
      simp only [Settles, Holds, Half.Born, accepts, Bool.or_false, hhalf] at hk hh ⊢
      exact hk x rfl hh

def endsLoop : AppAct → Bool
  | .flow (.endLoop _) => true
  | _ => false

theorem running_settles (acts : List AppAct) (s : Session) (h : acts.all fun a => !endsLoop a) :
    Meets step Settles acts s := by
  induction acts generalizing s with
  | nil => trivial
  | cons a acts ih =>
    simp only [List.all_cons, Bool.and_eq_true] at h
    refine ⟨?_,fun t _ => ih t h.2⟩
    rintro x rfl
    simp [endsLoop] at h

def greeting : List AppAct :=
  ([.ask,.ship false,.bind false,.handle true .accept,.reply true,.ship true,.bind true,
    .handle false .accept] : List (Act Bytes)).map .flow++[.write false [7,8]]

def sent (bytes : Bytes) : List AppAct :=
  ([.send false .check,.send false (.chunk bytes),.send false .enqueue,.send false .count,
    .send false .take,.send false (.forward true),.ship false,.handle true .accept] :
    List (Act Bytes)).map .flow

def readOut (n : ℕ) : List AppAct :=
  ([.recv true .recv,.recv true (.write n),.recv true .finish,.recv true .shutdown,
    .recv true (.read n true)] : List (Act Bytes)).map .flow

def closing : List AppAct :=
  .close false::([.send false .check,.send false .stop,.send false .finish,.send false .drained,
    .send false (.close true),.ship false,.handle true .accept] : List (Act Bytes)).map .flow

instance (s : Session) (x : Bool) : Decidable (s.Eof x) :=
  inferInstanceAs (Decidable (_ = false ∧ _ = 0 ∧
    ((s.flow.half x).out.pump ≠ .absent ∧ _ ∨ _ ∧ ¬((s.flow.half x).out.pump ≠ .absent) ∧ _)))

end Session
end Hydr.Stream
