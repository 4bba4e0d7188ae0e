import Mathlib
import Hydr.Library.Table
import Hydr.Library.Transition
import Hydr.TunnelStreams

/-!
# Streams that share an id

The counter and the callers draw stream ids from one space, and nothing keeps
them apart. As long as each call takes an id whose low 62 bits no other stream of
the tunnel still goes by, every table entry, command and frame with an id belongs
to one stream; the first call that does not breaks this.
-/

set_option autoImplicit false

namespace Hydr.Ws
open Hydr.Stream Transition

variable {α : Type}

structure Tasks.Over (k : Tasks α) : Prop where
  pump : k.out.pump = .absent ∨ k.out.pump = .done
  forwarder : k.out.forwarder = .absent ∨ k.out.forwarder = .ended
  reader : k.inn.dropped = true ∨ k.inn.duplex = 0 ∧ (k.inn.writer = .absent ∨ k.inn.writer = .shut)

theorem Sender.moves_busy [Chunk α] (s t : Sender α) (a : SendAct α) (f : Option (StreamFrame α))
    (hm : Sender.Moves s a t f) :
    ¬((s.pump = .absent ∨ s.pump = .done) ∧ (s.forwarder = .absent ∨ s.forwarder = .ended)) := by
  cases hm with
  | pass w hp | turn w next hp | subscribe hp | enable hp | wake hp | chunk b hp | stop hp
  | enqueue b hp | refuse b hp | count n hp | drained hp | close ok hp | finish hp => simp [hp]
  | take b q hq hf => simp [hf]
  | forward b hf | lose b hf => simp [hf]

theorem Receiver.moves_over [Chunk α] (closed : Bool) (r t : Receiver α) (a : RecvAct)
    (f : Option (StreamFrame α)) (hm : Receiver.Moves closed r a t f)
    (hr : r.dropped = true ∨ r.duplex = 0 ∧ (r.writer = .absent ∨ r.writer = .shut)) :
    f = none ∧ (t.dropped = true ∨ t.duplex = 0 ∧ (t.writer = .absent ∨ t.writer = .shut)) := by
  cases hm with
  | recv b chan hw hc => exact ⟨rfl,by simpa [hw] using hr⟩
  | write b i k hw h0 hs hd ha => simp [hw, ha] at hr
  | finish b hw => exact ⟨rfl,by simpa [hw] using hr⟩
  | fail b i hw ha hi => exact ⟨rfl,Or.inl ha⟩
  | shutdown hw hc hcl => exact ⟨rfl,by simpa [hw] using Or.inl (by simpa [hw] using hr)⟩
  | keep n refused h0 hn ha hp | miss n h0 hn ha hp | giveBack n h0 hn ha hp =>
    simp only [ha, Bool.false_eq_true, false_or] at hr
    omega
  | park hb hw hd ha => exact ⟨rfl,hr⟩
  | drop hb => exact ⟨rfl,Or.inl rfl⟩

theorem Receiver.deliver_over (r : Receiver α) (a : α)
    (hr : r.dropped = true ∨ r.duplex = 0 ∧ (r.writer = .absent ∨ r.writer = .shut)) :
    (r.deliver a).dropped = true ∨
      (r.deliver a).duplex = 0 ∧ ((r.deliver a).writer = .absent ∨ (r.deliver a).writer = .shut) := by
  unfold Receiver.deliver
  split
  · rename_i hw
    simpa [hw] using hr
  · rename_i c i hw
    simpa [hw] using hr
  · exact hr

def TunnelAct.sessionId : TunnelAct α → Option ℕ
  | .openStreamAs id => some id
  | _ => none

namespace Streams

inductive Names (s : Streams α) : ℕ → ℕ → Prop where
  | caller (t : ℕ) (h : t ∈ s.callers) : Names s t (s.ids.getD t 0)
  | message (x : Bool) (m : Tagged α) (h : m ∈ s.cmds x ∨ m ∈ s.wire x) : Names s m.stream m.id
  | duty (x : Bool) (t id : ℕ) (h : s.duty x = .pend t id ∨ s.duty x = .register t id) :
    Names s t id
  | offer (x : Bool) (t id : ℕ) (h : (t,id) ∈ s.offers x) : Names s t id
  | entry (x : Bool) (t id : ℕ)
      (h : s.pending x id = some t ∨ s.credits x id = some t ∨ s.streams x id = some t) :
    Names s t id
  | running (x : Bool) (t : ℕ) (h : ¬(s.tasks x t).Over) : Names s t (s.tasks x t).id

def Live (s : Streams α) (t : ℕ) : Prop := ∃ id, s.Names t id

def wireId (s : Streams α) (t : ℕ) : ℕ := s.ids.getD t 0%2^62

def Distinct (s : Streams α) : Prop :=
  ∀ t t', s.Live t → s.Live t' → s.wireId t = s.wireId t' → t = t'

def Crosses (s : Streams α) : TunnelAct α → Prop
  | .handle x _ => ∃ m rest t, s.wire (!x) = m::rest ∧ t ≠ m.stream ∧
    match m.frame with
    | .openStream => False
    | .ack _ => s.pending x m.id = some t
    | .data _ => s.streams x m.id = some t
    | .credit _ => s.credits x m.id = some t
    | .close => s.credits x m.id = some t ∨ s.streams x m.id = some t
  | _ => False

def Overwrites (s : Streams α) : TunnelAct α → Prop
  | .bind x => ∃ t t' id, t' ≠ t ∧
    (s.duty x = .pend t id ∧ s.pending x id = some t' ∨
      s.duty x = .register t id ∧ (s.credits x id = some t' ∨ s.streams x id = some t'))
  | .handle x _ => ∃ m rest t t', s.wire (!x) = m::rest ∧ m.frame = .ack true ∧ t' ≠ t ∧
    s.pending x m.id = some t ∧ (s.credits x m.id = some t' ∨ s.streams x m.id = some t')
  | _ => False

structure Apart [Chunk α] (s : Streams α) (a : TunnelAct α) : Prop where
  distinct : ∀ t, s.step a = some t → t.Distinct
  crossing : ¬s.Crosses a
  overwriting : ¬s.Overwrites a

def Free (s : Streams α) (id : ℕ) : Prop := ∀ t, s.Live t → s.wireId t ≠ id%2^62

def TakesFree (s : Streams α) : TunnelAct α → Prop
  | .openStream => s.alive false = true → s.Free ((s.nextStreamId+1)%2^64)
  | .openStreamAs id => s.alive false = true → s.Free id
  | _ => True

structure Sound (s : Streams α) : Prop where
  named : ∀ t id, s.Names t id → t < s.ids.length ∧ id%2^62 = s.wireId t
  distinct : s.Distinct

theorem Sound.unique {s : Streams α} (h : s.Sound) (t t' id : ℕ) (ht : s.Names t id)
    (ht' : s.Names t' id) : t = t' :=
  h.distinct t t' ⟨id,ht⟩ ⟨id,ht'⟩ ((h.named t id ht).2.symm.trans (h.named t' id ht').2)

/-- A frame reaches the stream that it was made for. -/
theorem Sound.not_crosses {s : Streams α} (h : s.Sound) (a : TunnelAct α) : ¬s.Crosses a := by
  cases a with
  | handle x offer =>
    rintro ⟨m,rest,t,hw,hne,hm⟩
    have hf : s.Names m.stream m.id := .message (!x) m (Or.inr (by simp [hw]))
    have hu : (s.pending x m.id = some t ∨ s.credits x m.id = some t ∨ s.streams x m.id = some t) →
        False := fun ht => hne (h.unique t _ _ (.entry x t m.id ht) hf)
    split at hm
    · exact hm
    · exact hu (Or.inl hm)
    · exact hu (Or.inr (Or.inr hm))
    · exact hu (Or.inr (Or.inl hm))
    · exact hu (Or.inr hm)
  | _ => exact fun hn => hn

theorem Sound.not_overwrites {s : Streams α} (h : s.Sound) (a : TunnelAct α) : ¬s.Overwrites a := by
  cases a with
  | bind x =>
    rintro ⟨t,t',id,hne,⟨hd,hp⟩ | ⟨hd,hp⟩⟩
    · exact hne (h.unique t' t id (.entry x t' id (Or.inl hp)) (.duty x t id (Or.inl hd)))
    · exact hne (h.unique t' t id (.entry x t' id (Or.inr hp)) (.duty x t id (Or.inr hd)))
  | handle x offer =>
    rintro ⟨m,rest,t,t',hw,hf,hne,hp,hc⟩
    exact hne (h.unique t' t _ (.entry x t' _ (Or.inr hc)) (.entry x t _ (Or.inl hp)))
  | _ => exact fun hn => hn

section Parts

variable (s : Streams α) (x : Bool) (t id t' id' : ℕ)

theorem names_setDuty (d : Duty) (h : (s.setDuty x d).Names t id) :
    s.Names t id ∨ d = .pend t id ∨ d = .register t id := by
  cases h with
  | duty y t id h =>
    rcases eq_or_ne y x with rfl | hne
    · exact Or.inr (by simpa using h)
    · exact Or.inl (.duty y t id (by simpa [Function.update_of_ne hne] using h))
  | caller t h => exact Or.inl (.caller t h)
  | message y m h => exact Or.inl (.message y m h)
  | offer y t id h => exact Or.inl (.offer y t id h)
  | entry y t id h => exact Or.inl (.entry y t id h)
  | running y t h => exact Or.inl (.running y t h)

theorem names_setFree (h : (s.setDuty x .free).Names t id) : s.Names t id := by
  rcases names_setDuty s x t id _ h with h | h | h
  · exact h
  · cases h
  · cases h

theorem names_setTasks (k : Tasks α) (h : (s.setTasks x t' k).Names t id) :
    s.Names t id ∨ t = t' ∧ id = k.id ∧ ¬k.Over := by
  cases h with
  | running y t h =>
    by_cases hk : y = x ∧ t = t'
    · obtain ⟨rfl,rfl⟩ := hk
      rw [setTasks_tasks, Function.update_self, Function.update_self] at h ⊢
      exact Or.inr ⟨rfl,rfl,h⟩
    · have he : (s.setTasks x t' k).tasks y t = s.tasks y t := by
        rw [setTasks_tasks]
        rcases eq_or_ne y x with rfl | hne
        · rw [Function.update_self, Function.update_of_ne fun ht => hk ⟨rfl,ht⟩]
        · rw [Function.update_of_ne hne]
      rw [he] at h ⊢
      exact Or.inl (.running y t h)
  | caller t h => exact Or.inl (.caller t h)
  | message y m h => exact Or.inl (.message y m h)
  | duty y t id h => exact Or.inl (.duty y t id h)
  | offer y t id h => exact Or.inl (.offer y t id h)
  | entry y t id h => exact Or.inl (.entry y t id h)

theorem names_keepTasks (k : Tasks α) (h : (s.setTasks x t' k).Names t id)
    (hid : k.id = (s.tasks x t').id) (ho : (s.tasks x t').Over → k.Over) : s.Names t id := by
  rcases names_setTasks s x t id t' k h with h | ⟨rfl,rfl,hk⟩
  · exact h
  · rw [hid]
    exact .running x t fun h => hk (ho h)

theorem names_cmds (l : List (Tagged α))
    (h : Names { s with cmds := Function.update s.cmds x l } t id) :
    s.Names t id ∨ ∃ m ∈ l, m.stream = t ∧ m.id = id := by
  cases h with
  | message y m h =>
    rcases h with h | h
    · rcases eq_or_ne y x with rfl | hne
      · exact Or.inr ⟨m,by simpa using h,rfl,rfl⟩
      · exact Or.inl (.message y m (Or.inl (by simpa [Function.update_of_ne hne] using h)))
    · exact Or.inl (.message y m (Or.inr h))
  | caller t h => exact Or.inl (.caller t h)
  | duty y t id h => exact Or.inl (.duty y t id h)
  | offer y t id h => exact Or.inl (.offer y t id h)
  | entry y t id h => exact Or.inl (.entry y t id h)
  | running y t h => exact Or.inl (.running y t h)

theorem names_wire (l : List (Tagged α))
    (h : Names { s with wire := Function.update s.wire x l } t id) :
    s.Names t id ∨ ∃ m ∈ l, m.stream = t ∧ m.id = id := by
  cases h with
  | message y m h =>
    rcases h with h | h
    · exact Or.inl (.message y m (Or.inl h))
    · rcases eq_or_ne y x with rfl | hne
      · exact Or.inr ⟨m,by simpa using h,rfl,rfl⟩
      · exact Or.inl (.message y m (Or.inr (by simpa [Function.update_of_ne hne] using h)))
  | caller t h => exact Or.inl (.caller t h)
  | duty y t id h => exact Or.inl (.duty y t id h)
  | offer y t id h => exact Or.inl (.offer y t id h)
  | entry y t id h => exact Or.inl (.entry y t id h)
  | running y t h => exact Or.inl (.running y t h)

theorem names_offers (l : List (ℕ × ℕ))
    (h : Names { s with offers := Function.update s.offers x l } t id) :
    s.Names t id ∨ (t,id) ∈ l := by
  cases h with
  | offer y t id h =>
    rcases eq_or_ne y x with rfl | hne
    · exact Or.inr (by simpa using h)
    · exact Or.inl (.offer y t id (by simpa [Function.update_of_ne hne] using h))
  | caller t h => exact Or.inl (.caller t h)
  | message y m h => exact Or.inl (.message y m h)
  | duty y t id h => exact Or.inl (.duty y t id h)
  | entry y t id h => exact Or.inl (.entry y t id h)
  | running y t h => exact Or.inl (.running y t h)

theorem names_callers (l : List ℕ) (hl : l ⊆ s.callers)
    (h : Names { s with callers := l } t id) : s.Names t id := by
  cases h with
  | caller t h => exact .caller t (hl h)
  | message y m h => exact .message y m h
  | duty y t id h => exact .duty y t id h
  | offer y t id h => exact .offer y t id h
  | entry y t id h => exact .entry y t id h
  | running y t h => exact .running y t h

theorem names_emit (f : Option (StreamFrame α)) (h : (s.emit x t' id' f).Names t id) :
    s.Names t id ∨ t = t' ∧ id = id' ∧ f ≠ none := by
  rcases names_cmds s x t id _ h with h | ⟨m,hm,rfl,rfl⟩
  · exact Or.inl h
  · rcases List.mem_append.mp hm with hm | hm
    · exact Or.inl (.message x m (Or.inl hm))
    · cases f with
      | none => cases hm
      | some f =>
        obtain rfl := List.mem_singleton.mp hm
        exact Or.inr ⟨rfl,rfl,by simp⟩

theorem update_entry (f : Bool → ℕ → Option ℕ) (y : Bool) (o : Option ℕ)
    (h : Function.update f x (Function.update (f x) id' o) y id = some t) :
    f y id = some t ∨ id = id' ∧ o = some t := by
  by_cases hy : y = x
  · subst hy
    rw [Function.update_self] at h
    rcases Table.update_cases h with ⟨hid,ho⟩ | ⟨-,hold⟩
    · exact Or.inr ⟨hid,ho⟩
    · exact Or.inl hold
  · rw [Function.update_of_ne hy] at h
    exact Or.inl h

theorem names_setPending (o : Option ℕ) (h : (s.setPending x id' o).Names t id) :
    s.Names t id ∨ id = id' ∧ o = some t := by
  cases h with
  | entry y t id h =>
    rcases h with h | h
    · exact (update_entry x t id id' s.pending y o h).imp_left fun hp => .entry y t id (Or.inl hp)
    · exact Or.inl (.entry y t id (Or.inr h))
  | caller t h => exact Or.inl (.caller t h)
  | message y m h => exact Or.inl (.message y m h)
  | duty y t id h => exact Or.inl (.duty y t id h)
  | offer y t id h => exact Or.inl (.offer y t id h)
  | running y t h => exact Or.inl (.running y t h)

theorem names_tables (o : Option ℕ) (h : Names { s with
    credits := Function.update s.credits x (Function.update (s.credits x) id' o)
    streams := Function.update s.streams x (Function.update (s.streams x) id' o) } t id) :
    s.Names t id ∨ id = id' ∧ o = some t := by
  cases h with
  | entry y t id h =>
    rcases h with h | h | h
    · exact Or.inl (.entry y t id (Or.inl h))
    · exact (update_entry x t id id' s.credits y o h).imp_left
        fun hp => .entry y t id (Or.inr (Or.inl hp))
    · exact (update_entry x t id id' s.streams y o h).imp_left
        fun hp => .entry y t id (Or.inr (Or.inr hp))
  | caller t h => exact Or.inl (.caller t h)
  | message y m h => exact Or.inl (.message y m h)
  | duty y t id h => exact Or.inl (.duty y t id h)
  | offer y t id h => exact Or.inl (.offer y t id h)
  | running y t h => exact Or.inl (.running y t h)

theorem names_register (h : (s.register x t' id').Names t id) :
    s.Names t id ∨ t = t' ∧ id = id' := by
  rcases names_tables (s.setTasks x t' ⟨id',.spawn,.spawn⟩) x t id id' (some t') h with h | ⟨hi,ht⟩
  · exact (names_setTasks s x t id t' _ h).imp_right fun h => ⟨h.1,h.2.1⟩
  · exact Or.inr ⟨(Option.some.inj ht).symm,hi⟩

theorem names_close (h : (s.close x id').Names t id) : s.Names t id := by
  rcases names_tables s x t id id' none h with h | ⟨-,hn⟩
  · exact h
  · cases hn

theorem names_endLoop (h : (s.endLoop x).Names t id) : s.Names t id := by
  have hn : ∀ (f : Bool → ℕ → Option ℕ) y i,
      Function.update f x (fun _ => none) y i = some t → f y i = some t := by
    intro f y i hf
    rcases eq_or_ne y x with rfl | hne
    · simp at hf
    · rwa [Function.update_of_ne hne] at hf
  cases h with
  | caller t h =>
    cases x with
    | false => cases h
    | true => exact .caller t h
  | message y m h =>
    refine .message y m (h.imp_left fun h => ?_)
    rcases eq_or_ne y x with rfl | hne
    · simp [endLoop] at h
    · simpa [endLoop, Function.update_of_ne hne] using h
  | duty y t id h =>
    rcases eq_or_ne y x with rfl | hne
    · simp [endLoop] at h
    · exact .duty y t id (by simpa [endLoop, Function.update_of_ne hne] using h)
  | offer y t id h => exact .offer y t id h
  | entry y t id h => exact .entry y t id (h.imp (hn _ y id) (Or.imp (hn _ y id) (hn _ y id)))
  | running y t h => exact .running y t h

end Parts

def Known (s : Streams α) (t id : ℕ) : Prop := ∃ id', s.Names t id' ∧ id'%2^62 = id%2^62

theorem Names.known {s : Streams α} {t id : ℕ} (h : s.Names t id) : s.Known t id := ⟨id,h,rfl⟩

theorem handleFrame_ids (s : Streams α) (x : Bool) (offer : Offer) (m : Tagged α) :
    (s.handleFrame x offer m).ids = s.ids := by
  unfold handleFrame
  split
  · split <;> rfl
  · split
    · dsimp only
      split <;> rfl
    · rfl
  · split <;> rfl
  · split
    · split <;> rfl
    · rfl
  · rfl

/-- What is left of a stream after a frame was there before, or is the frame. -/
theorem handleFrame_names (s : Streams α) (x : Bool) (offer : Offer) (m : Tagged α) (t id : ℕ)
    (h : (s.handleFrame x offer m).Names t id) : s.Names t id ∨ t = m.stream ∧ id = m.id := by
  unfold handleFrame at h
  split at h
  · split at h
    · rcases names_offers s x t id _ h with h | h
      · exact Or.inl h
      · rcases List.mem_append.mp h with h | h
        · exact Or.inl (.offer x t id h)
        · cases List.mem_singleton.mp h
          exact Or.inr ⟨rfl,rfl⟩
    · rcases names_cmds s x t id _ h with h | ⟨m',hm',rfl,rfl⟩
      · exact Or.inl h
      · rcases List.mem_cons.mp hm' with rfl | hm'
        · exact Or.inr ⟨rfl,rfl⟩
        · exact Or.inl (.message x m' (Or.inl hm'))
    · exact Or.inl h
  · left
    split at h
    · rename_i i hp
      have hclear : ∀ t id, (s.setPending x m.id none).Names t id → s.Names t id := by
        intro t id h
        rcases names_setPending s x t id m.id none h with h | ⟨-,hn⟩
        · exact h
        · cases hn
      dsimp only at h
      split at h
      · rcases names_register _ x t id i m.id h with h | ⟨rfl,rfl⟩
        · exact hclear t id h
        · exact .entry x t m.id (Or.inl hp)
      · exact hclear t id h
    · exact h
  · left
    split at h
    · exact names_keepTasks s x t id _ _ h rfl
        fun ho => ⟨ho.pump,ho.forwarder,Receiver.deliver_over _ _ ho.reader⟩
    · exact h
  · left
    split at h
    · split at h
      · rcases names_setDuty _ x t id _ h with h | h | h
        · exact names_keepTasks s x t id _ _ h rfl fun ho => ⟨ho.pump,ho.forwarder,ho.reader⟩
        · cases h
        · cases h
      · exact h
    · exact h
  · exact Or.inl (names_close s x t id m.id h)

variable [Chunk α]

/-- But for the calls, no step brings a stream back or gives it another id. -/
theorem step_known (s u : Streams α) (a : TunnelAct α) (hs : s.Sound) (h : s.step a = some u)
    (ho : a ≠ .openStream) (ha : ∀ id, a ≠ .openStreamAs id) :
    u.ids = s.ids ∧ ∀ t id, u.Names t id → s.Known t id := by
  cases moves_of_step s u a h with
  | openStream => exact absurd rfl ho
  | openStreamAs i => exact absurd rfl (ha i)
  | enter i hi =>
    refine ⟨rfl,fun t id hu => ?_⟩
    rcases names_emit _ false t id i _ _ hu with hu | ⟨rfl,rfl,-⟩
    · exact (names_callers s t id _ (List.erase_subset) hu).known
    · exact (Names.caller t hi).known
  | ship x m rest hc hd =>
    have hm : s.Names m.stream m.id := .message x m (Or.inl (by simp [hc]))
    refine ⟨rfl,fun t id hu => ?_⟩
    rcases names_setDuty _ x t id _ hu with hu | hu | hu
    · rcases names_wire { s with cmds := Function.update s.cmds x rest } x t id _ hu with
        hu | ⟨m',hm',rfl,rfl⟩
      · rcases names_cmds s x t id rest hu with hu | ⟨m',hm',rfl,rfl⟩
        · exact hu.known
        · exact (Names.message x m' (Or.inl (by simp [hc, hm']))).known
      · rcases List.mem_append.mp hm' with hm' | hm'
        · exact (Names.message x m' (Or.inr hm')).known
        · obtain rfl := List.mem_singleton.mp hm'
          exact ⟨m.id,hm,by simp⟩
    all_goals
      unfold afterShip at hu
      split at hu <;> cases hu
      exact hm.known
  | pend x i j hd =>
    refine ⟨rfl,fun t id hu => ?_⟩
    rcases names_setPending s x t id j _ (names_setFree _ x t id hu) with hu | ⟨rfl,hi⟩
    · exact hu.known
    · cases hi
      exact (Names.duty x _ _ (Or.inl hd)).known
  | register x i j hd =>
    refine ⟨rfl,fun t id hu => ?_⟩
    rcases names_register s x t id i j (names_setFree _ x t id hu) with hu | ⟨rfl,rfl⟩
    · exact hu.known
    · exact (Names.duty x t id (Or.inr hd)).known
  | handle x offer m rest hw hd =>
    refine ⟨handleFrame_ids ..,fun t id hu => ?_⟩
    rcases handleFrame_names _ x offer m t id hu with hu | ⟨rfl,rfl⟩
    · rcases names_wire s (!x) t id rest hu with hu | ⟨m',hm',rfl,rfl⟩
      · exact hu.known
      · exact (Names.message (!x) m' (Or.inr (by simp [hw, hm']))).known
    · exact (Names.message (!x) m (Or.inr (by simp [hw]))).known
  | notify x i hd =>
    refine ⟨rfl,fun t id hu => Names.known ?_⟩
    exact names_keepTasks s x t id i _ (names_setFree _ x t id hu) rfl
      fun ho => ⟨ho.pump,ho.forwarder,ho.reader⟩
  | reply x i j ok hoff hal =>
    refine ⟨rfl,fun t id hu => ?_⟩
    rcases names_emit _ x t id i j _ hu with hu | ⟨rfl,rfl,-⟩
    · rcases names_offers s x t id _ hu with hu | hu
      · exact hu.known
      · exact (Names.offer x t id (List.erase_subset hu)).known
    · exact (Names.offer x t id hoff).known
  | send x i b out f hm =>
    have hbusy : ¬(s.tasks x i).Over := fun ho => Sender.moves_busy _ _ b f hm ⟨ho.pump,ho.forwarder⟩
    refine ⟨rfl,fun t id hu => ?_⟩
    rcases names_emit _ x t id i _ _ hu with hu | ⟨rfl,rfl,-⟩
    · rcases names_setTasks s x t id i _ hu with hu | ⟨rfl,rfl,-⟩
      · exact hu.known
      · exact (Names.running x t hbusy).known
    · exact (Names.running x t hbusy).known
  | recv x i b inn f hm =>
    refine ⟨rfl,fun t id hu => ?_⟩
    rcases names_emit _ x t id i _ _ hu with hu | ⟨rfl,rfl,hf⟩
    · refine Names.known (names_keepTasks s x t id i _ hu rfl fun ho => ?_)
      exact ⟨ho.pump,ho.forwarder,(Receiver.moves_over _ _ _ b f hm ho.reader).2⟩
    · have hr : s.Names t (s.tasks x t).id :=
        .running x t fun ho => hf (Receiver.moves_over _ _ _ b f hm ho.reader).1
      refine ⟨_,hr,?_⟩
      cases x with
      | true => rfl
      | false => exact (hs.named t _ hr).2
  | lose x n =>
    refine ⟨rfl,fun t id hu => ?_⟩
    rcases names_wire s x t id _ hu with hu | ⟨m,hm,rfl,rfl⟩
    · exact hu.known
    · exact (Names.message x m (Or.inr (List.mem_of_mem_take hm))).known
  | endLoop x hd => exact ⟨rfl,fun t id hu => (names_endLoop s x t id hu).known⟩

omit [Chunk α] in
theorem Sound.of_known {s u : Streams α} (h : s.Sound) (hi : u.ids = s.ids)
    (hu : ∀ t id, u.Names t id → s.Known t id) : u.Sound := by
  have hw : u.wireId = s.wireId := by
    funext t
    rw [wireId, wireId, hi]
  have hlive : ∀ t, u.Live t → s.Live t := fun t ⟨id,ht⟩ =>
    (hu t id ht).imp fun id' h => h.1
  constructor
  · intro t id ht
    obtain ⟨id',hs,he⟩ := hu t id ht
    obtain ⟨hlt,hn⟩ := h.named t id' hs
    rw [hw, hi, ← he]
    exact ⟨hlt,hn⟩
  · intro t t' ht ht' he
    rw [hw] at he
    exact h.distinct t t' (hlive t ht) (hlive t' ht') he

section Request

omit [Chunk α]

variable {s : Streams α} (h : s.Sound) (id : ℕ)
include h

theorem Sound.request_wireId (t : ℕ) (ht : s.Live t) : (s.request id).wireId t = s.wireId t := by
  obtain ⟨i,hi⟩ := ht
  have hlt : t < s.ids.length := (h.named t i hi).1
  simp [wireId, request, List.getD_eq_getElem?_getD, List.getElem?_append_left hlt]

theorem Sound.request_names (t i : ℕ) (ht : s.Names t i) : (s.request id).Names t i := by
  cases ht with
  | caller t hc =>
    have hlt : t < s.ids.length := (h.named t _ (.caller t hc)).1
    have he : (s.request id).ids.getD t 0 = s.ids.getD t 0 := by
      simp [request, List.getD_eq_getElem?_getD, List.getElem?_append_left hlt]
    rw [← he]
    refine .caller t ?_
    simp only [request]
    split
    · exact List.mem_append_left _ hc
    · exact hc
  | message y m hm => exact .message y m hm
  | duty y t i hd => exact .duty y t i hd
  | offer y t i ho => exact .offer y t i ho
  | entry y t i he => exact .entry y t i he
  | running y t hr => exact .running y t hr

theorem Sound.names_request (t i : ℕ) (ht : (s.request id).Names t i) :
    s.Names t i ∨ s.alive false = true ∧ t = s.ids.length ∧ i = id := by
  cases ht with
  | caller t hc =>
    have hold : ∀ t ∈ s.callers, s.Names t ((s.request id).ids.getD t 0) := by
      intro t ht
      have hlt : t < s.ids.length := (h.named t _ (.caller t ht)).1
      have he : (s.request id).ids.getD t 0 = s.ids.getD t 0 := by
        simp [request, List.getD_eq_getElem?_getD, List.getElem?_append_left hlt]
      rw [he]
      exact .caller t ht
    have hc' : t ∈ if s.alive false then s.callers++[s.ids.length] else s.callers := hc
    split at hc'
    · rename_i ha
      rcases List.mem_append.mp hc' with hc' | hc'
      · exact Or.inl (hold t hc')
      · obtain rfl := List.mem_singleton.mp hc'
        exact Or.inr ⟨ha,rfl,by simp [request]⟩
    · exact Or.inl (hold t hc')
  | message y m hm => exact Or.inl (.message y m hm)
  | duty y t i hd => exact Or.inl (.duty y t i hd)
  | offer y t i ho => exact Or.inl (.offer y t i ho)
  | entry y t i he => exact Or.inl (.entry y t i he)
  | running y t hr => exact Or.inl (.running y t hr)

omit h in
theorem request_last : (s.request id).wireId s.ids.length = id%2^62 := by
  simp [wireId, request]

theorem Sound.request_sound (hf : s.alive false = true → s.Free id) : (s.request id).Sound := by
  have hlen : (s.request id).ids.length = s.ids.length+1 := by simp [request]
  have hcases : ∀ t, (s.request id).Live t →
      s.Live t ∨ s.alive false = true ∧ t = s.ids.length := by
    rintro t ⟨i,hi⟩
    rcases h.names_request id t i hi with hi | ⟨ha,ht,-⟩
    · exact Or.inl ⟨i,hi⟩
    · exact Or.inr ⟨ha,ht⟩
  constructor
  · intro t i hi
    rcases h.names_request id t i hi with hi | ⟨-,rfl,rfl⟩
    · obtain ⟨hlt,he⟩ := h.named t i hi
      rw [h.request_wireId id t ⟨i,hi⟩, hlen]
      exact ⟨hlt.trans (Nat.lt_succ_self _),he⟩
    · rw [request_last, hlen]
      exact ⟨Nat.lt_succ_self _,rfl⟩
  · intro t t' ht ht' he
    rcases hcases t ht with ht | ⟨ha,rfl⟩ <;> rcases hcases t' ht' with ht' | ⟨ha',rfl⟩
    · rw [h.request_wireId id t ht, h.request_wireId id t' ht'] at he
      exact h.distinct t t' ht ht' he
    · rw [h.request_wireId id t ht, request_last] at he
      exact absurd he (hf ha' t ht)
    · rw [h.request_wireId id t' ht', request_last] at he
      exact absurd he.symm (hf ha t' ht')
    · rfl

theorem Sound.free_of_request (ha : s.alive false = true) (hd : (s.request id).Distinct) :
    s.Free id := by
  intro t ⟨i,hi⟩ he
  have hlt : t < s.ids.length := (h.named t i hi).1
  have hlast : s.ids.length ∈ (s.request id).callers := by simp [request, ha]
  refine hlt.ne (hd t s.ids.length ⟨i,h.request_names id t i hi⟩ ⟨_,.caller _ hlast⟩ ?_)
  rw [h.request_wireId id t ⟨i,hi⟩, request_last, he]

omit h in
/-- The counter is no part of what is left of a stream. -/
theorem names_counter (s : Streams α) (n t i : ℕ) (ht : s.Names t i) :
    Names { s with nextStreamId := n } t i := by
  cases ht with
  | caller t hc => exact .caller t hc
  | message y m hm => exact .message y m hm
  | duty y t i hd => exact .duty y t i hd
  | offer y t i ho => exact .offer y t i ho
  | entry y t i he => exact .entry y t i he
  | running y t hr => exact .running y t hr

omit h in
theorem counter_names (n t i : ℕ) (ht : Names { s with nextStreamId := n } t i) : s.Names t i :=
  names_counter { s with nextStreamId := n } s.nextStreamId t i ht

theorem Sound.counter (n : ℕ) : Sound { s with nextStreamId := n } :=
  h.of_known rfl fun t i hi => (counter_names n t i hi).known

omit h in
theorem counter_free (n : ℕ) : Free { s with nextStreamId := n } id ↔ s.Free id :=
  ⟨fun hf t ht => hf t (ht.imp fun i hi => names_counter s n t i hi),
    fun hf t ht => hf t (ht.imp fun i hi => counter_names n t i hi)⟩

end Request

omit [Chunk α] in
theorem init_sound : (init : Streams α).Sound := by
  have hn : ∀ t id, ¬(init : Streams α).Names t id := by
    intro t id h
    cases h with
    | caller t h => cases h
    | message y m h => rcases h with h | h <;> cases h
    | duty y t id h => rcases h with h | h <;> cases h
    | offer y t id h => cases h
    | entry y t id h => rcases h with h | h | h <;> cases h
    | running y t h => exact h ⟨Or.inl rfl,Or.inl rfl,Or.inr ⟨rfl,Or.inl rfl⟩⟩
  exact ⟨fun t id h => absurd h (hn t id),fun t _ ⟨id,h⟩ => absurd h (hn t id)⟩

theorem step_sound (s u : Streams α) (a : TunnelAct α) (hs : s.Sound) (hf : s.TakesFree a)
    (h : s.step a = some u) : u.Sound := by
  by_cases ho : a = .openStream
  · subst ho
    cases h
    exact (hs.counter _).request_sound _ fun ha => (counter_free _ _).mpr (hf ha)
  · by_cases ha : ∃ id, a = .openStreamAs id
    · obtain ⟨id,rfl⟩ := ha
      cases h
      exact hs.request_sound id hf
    · obtain ⟨hi,hk⟩ := step_known s u a hs h ho fun id hid => ha ⟨id,hid⟩
      exact hs.of_known hi hk

theorem apart_iff (s : Streams α) (a : TunnelAct α) (hs : s.Sound) : s.Apart a ↔ s.TakesFree a := by
  constructor
  · intro h
    cases a with
    | openStream =>
      intro ha
      have hd := h.distinct _ (by rw [step])
      have hc := hs.counter ((s.nextStreamId+1)%2^64)
      exact (counter_free _ _).mp (hc.free_of_request _ ha hd)
    | openStreamAs id => exact fun ha => hs.free_of_request id ha (h.distinct _ rfl)
    | _ => trivial
  · exact fun hf => ⟨fun u hu => (step_sound s u a hs hf hu).distinct,hs.not_crosses a,
      hs.not_overwrites a⟩

/-- In every run of a tunnel, whatever mix of calls, its streams are kept apart
exactly when each call takes an id that no stream still goes by. -/
theorem streams_apart_iff (as : List (TunnelAct α)) :
    Meets step Apart as init ↔ Meets step TakesFree as init :=
  meets_iff_along (fun s a u hs ha h => step_sound s u a hs ((apart_iff s a hs).mp ha) h)
    apart_iff as _ init_sound

def collision : List (TunnelAct ℕ) :=
  [.openStream,.openStreamAs 1,.enter 0,.ship false,.bind false,.enter 1,.ship false]

theorem counter_meets_session :
    ¬∀ as : List (TunnelAct ℕ), (as.filterMap TunnelAct.sessionId).Nodup →
      Meets step Apart as init := by
  intro h
  have hm := h (collision++[TunnelAct.bind false]) (by decide)
  have hr : ∃ s : Streams ℕ, run step collision init = some s ∧ s.duty false = .pend 1 1 ∧
      s.pending false 1 = some 0 := ⟨_,rfl,rfl,rfl⟩
  obtain ⟨s,hr,hd,hp⟩ := hr
  exact (meets_at _ _ _ _ s hm hr).overwriting ⟨1,0,1,by decide,Or.inl ⟨hd,hp⟩⟩

end Streams
end Hydr.Ws
