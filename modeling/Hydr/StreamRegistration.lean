import Mathlib
import Hydr.StreamProgress

/-!
# Registration comes before data

The acceptor registers a stream while its acknowledgement is already on the
way, and the opener when that acknowledgement arrives. Still no side handles
data of a stream that it has not registered: the acceptor's loop takes no frame
in between, and the opener's finds the acknowledgement first.
-/

set_option autoImplicit false

namespace Hydr.Stream

variable {α : Type}

def Half.Born (h : Half α) : Prop := h.out.pump ≠ .absent

structure Sender.Shaped (s : Sender α) : Prop where
  born : s.pump = .absent → s.forwarder = .absent
  closed : s.pump = .close ∨ s.pump = .done → s.forwarder = .ended
  ended : s.forwarder = .ended → s.q = []

structure Half.Served (h : Half α) : Prop where
  present : h.streams = true → h.inn.writer ≠ .absent ∧ h.inn.writer ≠ .shut
  failed : ∀ a i, h.inn.writer = .failed a i → h.inn.chan = [] ∧ h.inn.dropped = true
  shut : h.inn.writer = .shut → h.inn.chan = []

def Half.Listed (h : Half α) : Prop := h.Born → h.closeSeen = false → h.streams = true

theorem Half.deliver_tables (h : Half α) (a : α) :
    (h.deliver a).streams = h.streams ∧ (h.deliver a).closeSeen = h.closeSeen := by
  unfold deliver
  split_ifs <;> exact ⟨rfl,rfl⟩

theorem Half.credit_tables (h : Half α) (n : ℕ) :
    (h.credit n).streams = h.streams ∧ (h.credit n).closeSeen = h.closeSeen ∧
      (h.credit n).inn = h.inn ∧ (h.credit n).out.pump = h.out.pump := by
  simp only [credit]
  split_ifs <;> exact ⟨rfl,rfl,rfl,rfl⟩

theorem Half.deliver_served (h : Half α) (a : α) (hs : h.Served) : (h.deliver a).Served := by
  obtain ⟨hp,hf,hsh⟩ := hs
  unfold deliver Receiver.deliver
  split_ifs
  · split
    · rename_i hw
      exact ⟨hp,fun b i hb => by simp [hw] at hb,fun hb => by simp [hw] at hb⟩
    · rename_i c j hw
      exact ⟨hp,fun b i hb => by simp [hw] at hb,fun hb => by simp [hw] at hb⟩
    · exact ⟨hp,hf,hsh⟩
  · exact ⟨hp,hf,hsh⟩

namespace Flow

structure Registration (s : Flow α) : Prop where
  pending : .openStream ∈ s.wire false ∨ s.stage = .offered ∨ s.stage = .replied →
    s.pending = true ∨ s.loop false = .pend
  acked : .ack true ∈ s.wire true → (s.half true).Born ∨ s.loop true = .register
  opener : (s.half false).Born → (s.half true).Born ∨ s.loop true = .register
  acceptor : (s.half true).Born ∨ s.loop true = .register → (s.half false).Born ∨
    ∃ pre post, s.wire true = pre++.ack true::post ∧ ∀ f ∈ pre, f.isPayload = false

theorem init_registration : Registration (init : Flow α) where
  pending h := by simp [init] at h
  acked h := nomatch h
  opener h := absurd rfl h
  acceptor h := by
    rcases h with h | h
    · exact absurd rfl h
    · cases h

theorem Registration.frame {s t : Flow α} (h : Registration s) (hw : t.wire = s.wire)
    (hs : t.stage = s.stage) (hp : t.pending = s.pending)
    (hl : ∀ x l, l = .pend ∨ l = .register → (t.loop x = l ↔ s.loop x = l))
    (hb : ∀ x, (t.half x).Born ↔ (s.half x).Born) : Registration t := by
  have hpend := hl false .pend (Or.inl rfl)
  have hreg := hl true .register (Or.inr rfl)
  refine ⟨?_,?_,?_,?_⟩
  · rw [hw, hs, hp, hpend]
    exact h.pending
  · rw [hw, hb, hreg]
    exact h.acked
  · rw [hb, hb, hreg]
    exact h.opener
  · rw [hw, hb, hb, hreg]
    exact h.acceptor

theorem setHalf_born (s : Flow α) (x : Bool) (g : Half α) (hg : g.Born ↔ (s.half x).Born)
    (y : Bool) : ((s.setHalf x g).half y).Born ↔ (s.half y).Born := by
  rcases eq_or_ne y x with rfl | hne
  · simpa using hg
  · simp [hne]

theorem setLoop_same (s : Flow α) (x : Bool) (l : Loop) (y : Bool) (k : Loop) (hs : s.loop x ≠ k)
    (hl : l ≠ k) : (s.setLoop x l).loop y = k ↔ s.loop y = k := by
  rcases eq_or_ne y x with rfl | hne
  · simp [hs, hl]
  · simp [hne]

/-- Before the acknowledgement is shipped the acceptor has sent no payload. -/
theorem answering_silent (s : Flow α) (ho : Opening s) (cmds : List (StreamFrame α)) (ok : Bool)
    (hc : s.cmds true = .ack ok::cmds) : ∀ f ∈ s.wire true, f.isPayload = false := by
  have hi : (s.half true).Idle := by
    apply ho.answering
    rw [hc, List.countP_cons_of_pos rfl]
    omega
  have hs := ho.silent true (by rw [hi.out]; exact ⟨rfl,rfl⟩)
  rw [pipe, List.countP_append] at hs
  intro f hf
  have h0 := List.countP_eq_zero.mp (Nat.eq_zero_of_add_eq_zero_right hs) f hf
  simpa using h0

theorem ship_registration (s : Flow α) (h : Registration s) (ho : Opening s) (x : Bool)
    (f : StreamFrame α) (cmds : List (StreamFrame α)) (hc : s.cmds x = f::cmds)
    (hl : s.loop x = .free) :
    Registration ({ s with
      cmds := Function.update s.cmds x cmds
      wire := Function.update s.wire x (s.wire x++[f]) }.setLoop x (afterShip f)) := by
  cases x with
  | false =>
    refine ⟨fun hp => ?_,h.acked,h.opener,h.acceptor⟩
    by_cases hf : f = .openStream
    · right
      simp [hf, afterShip]
    · left
      have hp' : .openStream ∈ s.wire false ∨ s.stage = .offered ∨ s.stage = .replied := by
        simpa [Ne.symm hf] using hp
      simpa [hl] using h.pending hp'
  | true =>
    have hborn : (s.half true).Born ∨ s.loop true = .register → (s.half true).Born := by
      simp [hl]
    refine ⟨h.pending,fun hm => ?_,fun hb => Or.inl (hborn (h.opener hb)),fun hb => ?_⟩
    · by_cases hf : f = .ack true
      · right
        simp [hf, afterShip]
      · left
        apply hborn
        apply h.acked
        simpa [Ne.symm hf] using hm
    · by_cases hf : f = .ack true
      · right
        subst hf
        exact ⟨s.wire true,[],by simp,answering_silent s ho cmds true hc⟩
      · have hb' : (s.half true).Born := by
          simpa [afterShip_register, hf] using hb
        rcases h.acceptor (Or.inl hb') with hd | ⟨pre,post,he,hs⟩
        · exact Or.inl hd
        · right
          exact ⟨pre,post++[f],by simp [he],hs⟩

theorem handleFrame_loop (s : Flow α) (x : Bool) (offer : Offer) (f : StreamFrame α) (y : Bool)
    (hl : s.loop x = .free) (k : Loop) (hk : k = .pend ∨ k = .register) :
    (s.handleFrame x offer f).loop y = k ↔ s.loop y = k := by
  cases f with
  | openStream => cases offer <;> rfl
  | ack ok =>
    simp only [handleFrame]
    split_ifs <;> rfl
  | credit n =>
    simp only [handleFrame]
    split_ifs
    · apply setLoop_same
      · rcases hk with rfl | rfl <;> simp [hl]
      · rcases hk with rfl | rfl <;> decide
    · rfl
  | _ => rfl

/-- Only the acknowledgement registers a side. -/
theorem handleFrame_born (s : Flow α) (x : Bool) (offer : Offer) (f : StreamFrame α)
    (hf : x = true ∨ f ≠ .ack true) (y : Bool) :
    ((s.handleFrame x offer f).half y).Born ↔ (s.half y).Born := by
  rcases handleFrame_out s x offer f y with ⟨hp,-⟩ | ⟨-,rfl,rfl,-⟩
  · rw [Half.Born, hp, Half.Born]
  · simp at hf

theorem handleFrame_plain (s : Flow α) (x : Bool) (offer : Offer) (f : StreamFrame α)
    (ho : f.isOpen = false) (ha : f.isAck = false) :
    (s.handleFrame x offer f).stage = s.stage ∧ (s.handleFrame x offer f).pending = s.pending := by
  cases f with
  | openStream => cases ho
  | ack ok => cases ha
  | credit n =>
    simp only [handleFrame]
    split_ifs <;> exact ⟨rfl,rfl⟩
  | _ => exact ⟨rfl,rfl⟩

theorem accept_registration (s : Flow α) (h : Registration s) (offer : Offer) (f : StreamFrame α)
    (rest : List (StreamFrame α)) (hw : s.wire false = f::rest) (hl : s.loop true = .free) :
    Registration ({ s with wire := Function.update s.wire false rest }.handleFrame true offer
      f) := by
  have hborn := handleFrame_born { s with wire := Function.update s.wire false rest } true offer f
    (Or.inl rfl)
  have hloop := handleFrame_loop { s with wire := Function.update s.wire false rest } true offer f
  have hreg := hloop true hl .register (Or.inr rfl)
  refine ⟨fun hp => ?_,fun hm => ?_,fun hb => ?_,fun hb => ?_⟩
  · rw [hloop false hl .pend (Or.inl rfl)]
    have hpend : ∀ b, s.pending = b →
        ({ s with wire := Function.update s.wire false rest }.handleFrame true offer f).pending = b := by
      intro b hb
      cases f with
      | openStream => cases offer <;> exact hb
      | credit n =>
        simp only [handleFrame]
        split_ifs <;> exact hb
      | _ => exact hb
    refine (h.pending ?_).imp (hpend true) id
    rw [handleFrame_wire] at hp
    simp only [Function.update_self] at hp
    by_cases hf : f = .openStream
    · exact Or.inl (by simp [hw, hf])
    · rcases hp with hp | hp
      · exact Or.inl (by simp [hw, hp])
      · right
        cases f with
        | openStream => exact absurd rfl hf
        | ack ok => simp [handleFrame] at hp
        | credit n =>
          simp only [handleFrame] at hp
          split_ifs at hp <;> exact hp
        | _ => exact hp
  · rw [hborn, hreg]
    exact h.acked (by simpa using hm)
  · rw [hborn] at hb ⊢
    rw [hreg]
    exact h.opener hb
  · rw [hborn] at hb ⊢
    rw [hreg] at hb
    simpa using h.acceptor hb

theorem pass_registration (s : Flow α) (h : Registration s) (ho : Opening s) (offer : Offer)
    (f : StreamFrame α) (rest : List (StreamFrame α)) (hw : s.wire true = f::rest)
    (hl : s.loop false = .free) (hf : f.isAck = false) :
    Registration ({ s with wire := Function.update s.wire true rest }.handleFrame false offer
      f) := by
  have hopen : f.isOpen = false := by
    by_contra hn
    have hc := ho.opens true
    rw [pipe, hw, List.cons_append, List.countP_cons_of_pos (by simpa using hn)] at hc
    simp at hc
  have hne : f ≠ .ack true := by
    rintro rfl
    cases hf
  have hborn := handleFrame_born { s with wire := Function.update s.wire true rest } false offer f
    (Or.inr hne)
  have hloop := handleFrame_loop { s with wire := Function.update s.wire true rest } false offer f
  have hreg := hloop true hl .register (Or.inr rfl)
  obtain ⟨hstage,hpend⟩ := handleFrame_plain
    { s with wire := Function.update s.wire true rest } false offer f hopen hf
  refine ⟨fun hp => ?_,fun hm => ?_,fun hb => ?_,fun hb => ?_⟩
  · rw [hstage, handleFrame_wire] at hp
    rw [hpend, hloop false hl .pend (Or.inl rfl)]
    exact h.pending (by simpa using hp)
  · rw [hborn, hreg]
    apply h.acked
    rw [hw]
    exact List.mem_cons_of_mem _ (by simpa using hm)
  · rw [hborn] at hb ⊢
    rw [hreg]
    exact h.opener hb
  · rw [hborn] at hb ⊢
    rw [hreg] at hb
    refine (h.acceptor hb).imp id ?_
    rintro ⟨pre,post,he,hs⟩
    cases pre with
    | nil =>
      rw [hw] at he
      exact absurd (List.cons.inj he).1 hne
    | cons g pre =>
      rw [hw] at he
      refine ⟨pre,post,?_,fun k hk => hs k (List.mem_cons_of_mem _ hk)⟩
      simpa using (List.cons.inj he).2

/-- The acknowledgement finds the opener's pending entry. -/
theorem ack_registration (s : Flow α) (h : Registration s) (ho : Opening s) (offer : Offer)
    (ok : Bool) (rest : List (StreamFrame α)) (hw : s.wire true = .ack ok::rest)
    (hl : s.loop false = .free) :
    Registration ({ s with wire := Function.update s.wire true rest }.handleFrame false offer
      (.ack ok)) := by
  have hacks := ho.acks true
  rw [pipe, hw, List.cons_append, List.countP_cons_of_pos rfl] at hacks
  have hst : s.stage = .replied := by
    by_contra hn
    rw [if_neg (fun hx => hn hx.2)] at hacks
    omega
  have hp : s.pending = true := by
    simpa [hl] using h.pending (Or.inr (Or.inr hst))
  have hopen : .openStream ∉ s.wire false := by
    intro hm
    have hc := ho.opens false
    rw [if_neg (fun hx => by simp [hst] at hx), pipe, List.countP_append] at hc
    have hpos : 0 < (s.wire false).countP StreamFrame.isOpen :=
      List.countP_pos_iff.mpr ⟨_,hm,rfl⟩
    omega
  cases ok with
  | true =>
    have hb := h.acked (by simp [hw])
    refine ⟨fun hpr => ?_,fun _ => ?_,fun _ => ?_,fun _ => Or.inl ?_⟩
    · simp [handleFrame, hp, hopen] at hpr
    · simpa [handleFrame, hp] using hb
    · simpa [handleFrame, hp] using hb
    · simp [handleFrame, hp, Half.Born, Half.register, Sender.spawn]
  | false =>
    refine ⟨fun hpr => ?_,fun hm => ?_,fun hb => ?_,fun hb => ?_⟩
    · simp [handleFrame, hp, hopen] at hpr
    · have hm' : StreamFrame.ack true ∈ rest := by simpa [handleFrame, hp] using hm
      simpa [handleFrame, hp] using h.acked (by rw [hw]; exact List.mem_cons_of_mem _ hm')
    · simpa [handleFrame, hp] using h.opener (by simpa [handleFrame, hp] using hb)
    · refine (h.acceptor (by simpa [handleFrame, hp] using hb)).imp
        (fun hx => by simpa [handleFrame, hp] using hx) ?_
      rintro ⟨pre,post,he,hs⟩
      rw [hw] at he
      cases pre with
      | nil => cases he
      | cons g pre =>
        refine ⟨pre,post,?_,fun k hk => hs k (List.mem_cons_of_mem _ hk)⟩
        simpa [handleFrame, hp] using (List.cons.inj he).2

theorem handle_registration (s : Flow α) (h : Registration s) (ho : Opening s) (x : Bool)
    (offer : Offer) (f : StreamFrame α) (rest : List (StreamFrame α))
    (hw : s.wire (!x) = f::rest) (hl : s.loop x = .free) :
    Registration ({ s with wire := Function.update s.wire (!x) rest }.handleFrame x offer f) := by
  cases x with
  | true => exact accept_registration s h offer f rest hw hl
  | false =>
    by_cases hf : f.isAck
    · cases f with
      | ack ok => exact ack_registration s h ho offer ok rest hw hl
      | _ => cases hf
    · exact pass_registration s h ho offer f rest hw hl (by simpa using hf)

end Flow

variable [Chunk α]

theorem Sender.moves_shaped (s t : Sender α) (a : SendAct α) (f : Option (StreamFrame α))
    (h : s.Shaped) (hm : Sender.Moves s a t f) : t.Shaped := by
  obtain ⟨hb,hc,he⟩ := h
  cases hm with
  | pass w hp | turn w next hp | subscribe hp | enable hp | wake hp | chunk a hp | stop hp
  | refuse _ hp | count _ hp => exact ⟨nofun,by simp,he⟩
  | enqueue a hp hf => exact ⟨nofun,by simp,fun hx => absurd hx hf⟩
  | take a q hq hf =>
    exact ⟨fun hp => absurd (hb hp) (by simp [hf]),fun hp => absurd (hc hp) (by simp [hf]),nofun⟩
  | forward a hf =>
    exact ⟨fun hp => absurd (hb hp) (by simp [hf]),fun hp => absurd (hc hp) (by simp [hf]),nofun⟩
  | lose a hf =>
    exact ⟨fun hp => absurd (hb hp) (by simp [hf]),fun _ => rfl,fun _ => rfl⟩
  | finish hp hq => exact ⟨fun hn => absurd hn (by simp [hp]),fun _ => rfl,fun _ => hq⟩
  | drained hp hf => exact ⟨nofun,fun _ => hf,he⟩
  | close _ hp => exact ⟨nofun,fun _ => hc (Or.inl hp),he⟩

/-- Only a registered side has steps of its own that change its pump. -/
theorem Sender.moves_born (s t : Sender α) (a : SendAct α) (f : Option (StreamFrame α))
    (hm : Sender.Moves s a t f) : s.pump = .absent ↔ t.pump = .absent := by
  cases hm <;> simp_all

theorem Half.shaped_stable : Stable (fun _ _ => True) (fun h : Half α => h.out.Shaped) where
  register := ⟨nofun,by simp [Half.register, Sender.spawn],nofun⟩
  deliver h a hs := by rwa [Half.deliver_out]
  credit h n _ hs := by
    simp only [Half.credit]
    split_ifs
    · exact ⟨hs.born,hs.closed,hs.ended⟩
    · exact hs
  close _ hs := hs
  notify _ hs := ⟨hs.born,hs.closed,hs.ended⟩
  send _ a out f hm hs := Sender.moves_shaped _ _ a f hs hm
  recv _ _ _ _ _ hs := hs

theorem Half.served_stable : Stable (fun _ _ => True) (Half.Served (α := α)) where
  register := ⟨fun _ => ⟨nofun,nofun⟩,nofun,nofun⟩
  deliver h a hs := Half.deliver_served h a hs
  credit h n _ hs := by
    obtain ⟨ht,-,hi,-⟩ := Half.credit_tables h n
    exact ⟨by rw [ht, hi]; exact hs.present,by rw [hi]; exact hs.failed,by rw [hi]; exact hs.shut⟩
  close h hs := ⟨nofun,hs.failed,hs.shut⟩
  notify h hs := ⟨hs.present,hs.failed,hs.shut⟩
  send h a out f hm hs := ⟨hs.present,hs.failed,hs.shut⟩
  recv h a inn f hm hs := by
    obtain ⟨hp,hf,hsh⟩ := hs
    cases hm with
    | recv | write | finish => exact ⟨fun _ => ⟨nofun,nofun⟩,nofun,nofun⟩
    | fail b i hw hd => exact ⟨fun _ => ⟨nofun,nofun⟩,fun _ _ _ => ⟨rfl,hd⟩,nofun⟩
    | shutdown hw hc hcl =>
      have hst : h.streams = false := by simpa using hcl
      exact ⟨fun hn => absurd (hst.symm.trans hn) nofun,nofun,fun _ => hc⟩
    | keep | miss | giveBack | park => exact ⟨hp,hf,hsh⟩
    | drop => exact ⟨hp,fun b i hb => ⟨(hf b i hb).1,rfl⟩,hsh⟩

theorem Half.listed_stable : Stable (fun _ _ => True) (Half.Listed (α := α)) where
  register := fun _ _ => rfl
  deliver h a hl hb hc := by
    obtain ⟨ht,hs⟩ := Half.deliver_tables h a
    rw [Half.Born, Half.deliver_out] at hb
    exact ht.trans (hl hb (hs.symm.trans hc))
  credit h n _ hl hb hc := by
    obtain ⟨ht,hs,-,hp⟩ := Half.credit_tables h n
    rw [Half.Born, hp] at hb
    exact ht.trans (hl hb (hs.symm.trans hc))
  close h _ _ hc := by cases hc
  notify _ hl := hl
  send h a out f hm hl hb hc := hl (fun hn => hb ((Sender.moves_born _ _ _ _ hm).mp hn)) hc
  recv _ _ _ _ _ hl := hl

namespace Flow

theorem step_registration (s : Flow α) (a : Act α) (t : Flow α) (h : Registration s)
    (ho : Opening s) (hst : s.step a = some t) : Registration t := by
  cases moves_of_step s t a hst with
  | ask hs =>
    refine ⟨fun hp => ?_,h.acked,h.opener,h.acceptor⟩
    simp only [emit_wire, emit_stage, reduceCtorEq, or_false] at hp
    exact h.pending (Or.inl hp)
  | ship x f cmds hc hl => exact ship_registration s h ho x f cmds hc hl
  | pend x hl =>
    have hreg : ∀ y, (s.setLoop x .free).loop y = .register ↔ s.loop y = .register :=
      fun y => setLoop_same s x .free y .register (by simp [hl]) nofun
    exact ⟨fun _ => Or.inl rfl,fun hm => (h.acked hm).imp id (hreg true).mpr,
      fun hb => (h.opener hb).imp id (hreg true).mpr,
      fun hb => h.acceptor (hb.imp id (hreg true).mp)⟩
  | register x hl =>
    cases x with
    | false => exact absurd hl ho.asking
    | true =>
      have hb : (((s.setHalf true .register).setLoop true .free).half true).Born := by
        simp [Half.Born, Half.register, Sender.spawn]
      exact ⟨h.pending,fun _ => Or.inl hb,fun _ => Or.inl hb,fun _ => h.acceptor (Or.inr hl)⟩
  | handle x offer f rest hw hl => exact handle_registration s h ho x offer f rest hw hl
  | notify x hl =>
    apply Registration.frame h
    · rfl
    · rfl
    · rfl
    · intro y k hk
      exact setLoop_same s x .free y k (by rcases hk with rfl | rfl <;> simp [hl])
        (by rcases hk with rfl | rfl <;> decide)
    · exact setHalf_born s x _ Iff.rfl
  | reply ok hs =>
    exact ⟨fun _ => h.pending (Or.inr (Or.inl hs)),h.acked,h.opener,h.acceptor⟩
  | send x a out f _ hm =>
    apply Registration.frame h
    · rfl
    · rfl
    · rfl
    · exact fun _ _ _ => Iff.rfl
    · exact setHalf_born s x _ (not_congr (Sender.moves_born _ _ _ _ hm)).symm
  | recv x a inn f =>
    apply Registration.frame h
    · rfl
    · rfl
    · rfl
    · exact fun _ _ _ => Iff.rfl
    · exact setHalf_born s x _ Iff.rfl
  | endLoop x hl =>
    apply Registration.frame h
    · rfl
    · rfl
    · rfl
    · intro y k hk
      exact setLoop_same s x .ended y k (by rcases hk with rfl | rfl <;> simp [hl])
        (by rcases hk with rfl | rfl <;> decide)
    · exact setHalf_born s x _ Iff.rfl

end Flow
end Hydr.Stream
