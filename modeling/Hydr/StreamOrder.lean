import Mathlib
import Hydr.StreamRegistration

/-!
# The order of a stream

The chunks that the writer has taken up, then those on the way, then those that
the pump and its forwarder still keep are the chunks that were read from the
application, in that order. A loop that ends cuts the tail off; a StreamClose
is sent only when nothing is kept.
-/

set_option autoImplicit false

namespace Hydr.Stream

variable {α : Type}

def Pump.hand : Pump α → List α
  | .enqueue a => [a]
  | _ => []

def Sender.kept (s : Sender α) : List α := s.forwarder.hand++s.q++s.pump.hand

def Writer.hand : Writer α → List α
  | .writing a _ => [a]
  | .failed a _ => [a]
  | _ => []

def Writer.hasFailed : Writer α → Bool
  | .failed _ _ => true
  | _ => false

def Receiver.got (r : Receiver α) : List α := r.written++r.writer.hand++r.chan

def payload (l : List (StreamFrame α)) : List (StreamFrame α) := l.filter StreamFrame.isPayload

@[simp] theorem payload_append (l m : List (StreamFrame α)) :
    payload (l++m) = payload l++payload m := List.filter_append ..

theorem payload_cons (f : StreamFrame α) (l : List (StreamFrame α)) :
    payload (f::l) = payload [f]++payload l := payload_append [f] l

theorem close_mem_payload (l : List (StreamFrame α)) : .close ∈ payload l ↔ .close ∈ l := by
  simp [payload, StreamFrame.isPayload]

/-- A list without a StreamClose and one more frame. -/
theorem nothing_after (l m : List (StreamFrame α)) (hl : .close ∉ l) (hm : m.length ≤ 1)
    (pre post : List (StreamFrame α)) (he : l++m = pre++.close::post) : post = [] := by
  rcases List.eq_nil_or_concat post with hp | ⟨init,f,rfl⟩
  · exact hp
  · exfalso
    have hm1 : m ≠ [] := by
      rintro rfl
      apply hl
      rw [← List.append_nil l, he]
      simp
    obtain ⟨g,rfl⟩ := List.length_eq_one_iff.mp
      (le_antisymm hm (List.length_pos_of_ne_nil hm1))
    have hs : l++[g] = (pre++.close::init)++[f] := by simp [he]
    apply hl
    rw [(List.append_inj' hs rfl).1]
    simp

theorem dataOf_payload (l : List (StreamFrame α)) : dataOf (payload l) = dataOf l := by
  induction l with
  | nil => rfl
  | cons f l ih =>
    rw [payload_cons, dataOf_append, ih]
    cases f <;> rfl

theorem dataOf_silent (l : List (StreamFrame α)) (h : payload l = []) : dataOf l = [] := by
  rw [← dataOf_payload, h]
  rfl

def Flow.Over (s : Flow α) (x : Bool) : Prop :=
  (s.half (!x)).closeSeen = true ∨ .close ∈ s.pipe x

namespace Flow

structure Closing (s : Flow α) : Prop where
  last : ∀ x pre post, payload (s.pipe x) = pre++.close::post → post = []
  seen : ∀ x, (s.half (!x)).closeSeen = true → payload (s.pipe x) = []
  done : ∀ x, s.Over x → (s.half x).out.pump = .done

theorem init_closing : Closing (init : Flow α) where
  last x pre post h := by simp [init, pipe, payload] at h
  seen x h := nomatch h
  done x h := by simp [Over, init, pipe, Half.absent] at h

theorem Closing.frame {s t : Flow α} (h : Closing s)
    (hp : ∀ x, payload (t.pipe x) <:+: payload (s.pipe x))
    (hc : ∀ x, (t.half x).closeSeen = true → (s.half x).closeSeen = true)
    (hd : ∀ x, (s.half x).out.pump = .done → (t.half x).out.pump = .done) : Closing t := by
  refine ⟨fun x pre post he => ?_,fun x hx => ?_,fun x hx => ?_⟩
  · obtain ⟨a,b,hab⟩ := hp x
    have hs : payload (s.pipe x) = (a++pre)++.close::(post++b) := by simp [← hab, he]
    exact (List.append_eq_nil_iff.mp (h.last x _ _ hs)).1
  · have hs := h.seen x (hc _ hx)
    exact List.eq_nil_of_infix_nil (hs ▸ hp x)
  · apply hd
    apply h.done
    refine hx.imp (hc _) fun hm => ?_
    rw [← close_mem_payload] at hm ⊢
    exact (hp x).subset hm

def Lively (s : Flow α) : Prop :=
  ∀ x, s.alive x = true → (s.half x).out.forwarder = .ended →
    (s.half x).out.pump = .drain ∨ (s.half x).out.pump = .close ∨ (s.half x).out.pump = .done

structure Ordered (s : Flow α) (x : Bool) : Prop where
  ahead : (s.half (!x)).inn.got <+: (s.half x).out.taken
  whole : (s.half (!x)).inn.writer.hasFailed = false → ∃ rest,
    (s.half x).out.taken = (s.half (!x)).inn.got++dataOf (s.pipe x)++rest ∧
      (s.alive x = true → rest = (s.half x).out.kept) ∧ (s.Over x → rest = [])

theorem init_ordered (x : Bool) : Ordered (init : Flow α) x where
  ahead := List.prefix_refl _
  whole _ := ⟨[],rfl,fun _ => rfl,fun _ => rfl⟩

theorem Ordered.frame {s t : Flow α} {x : Bool} (h : Ordered s x)
    (hg : (t.half (!x)).inn.got = (s.half (!x)).inn.got)
    (hf : (t.half (!x)).inn.writer.hasFailed = (s.half (!x)).inn.writer.hasFailed)
    (ht : (t.half x).out.taken = (s.half x).out.taken)
    (hk : (t.half x).out.kept = (s.half x).out.kept)
    (hd : dataOf (t.pipe x) = dataOf (s.pipe x)) (ha : t.alive x = true → s.alive x = true)
    (ho : t.Over x → s.Over x) : Ordered t x := by
  refine ⟨by rw [hg, ht]; exact h.ahead,fun hn => ?_⟩
  obtain ⟨rest,he,hr,hc⟩ := h.whole (hf.symm.trans hn)
  refine ⟨rest,by rw [ht, hg, hd, he],fun hx => ?_,fun hx => hc (ho hx)⟩
  rw [hk]
  exact hr (ha hx)

/-- A side registers with nothing taken and nothing got. -/
theorem register_ordered (s : Flow α) (h : ∀ x, Ordered s x) (x : Bool) (hi : (s.half x).Idle)
    (y : Bool) : Ordered (s.setHalf x .register) y := by
  have hin : (s.half x).inn.got = [] ∧ (s.half x).inn.writer.hasFailed = false := by
    rw [hi.inn]
    exact ⟨rfl,rfl⟩
  have hout : (s.half x).out.taken = [] ∧ (s.half x).out.kept = [] := by
    rw [hi.out]
    exact ⟨rfl,rfl⟩
  rcases Bool.eq_or_eq_not y x with rfl | rfl
  · apply (h y).frame
    · simp
    · simp
    · simp [hout.1, Half.register, Sender.spawn]
    · rw [hout.2, setHalf_half, Function.update_self]
      rfl
    · rfl
    · exact id
    · exact fun ho => ho.imp (by simp) id
  · apply (h (!x)).frame
    · rw [Bool.not_not, hin.1, setHalf_half, Function.update_self]
      rfl
    · rw [Bool.not_not, hin.2, setHalf_half, Function.update_self]
      rfl
    · simp
    · simp
    · rfl
    · exact id
    · refine fun ho => ho.imp (fun hc => ?_) id
      simp [Half.register] at hc

theorem emit_payload (s : Flow α) (x : Bool) (f : Option (StreamFrame α)) (y : Bool) :
    payload ((s.emit x f).pipe y) =
      payload (s.pipe y)++(if y = x then payload f.toList else []) := by
  rcases eq_or_ne y x with rfl | hne
  · simp [pipe]
  · simp [pipe, hne]

theorem handleFrame_payload (s : Flow α) (x : Bool) (offer : Offer) (f : StreamFrame α)
    (y : Bool) : payload ((s.handleFrame x offer f).pipe y) = payload (s.pipe y) := by
  rcases handleFrame_cmds s x offer f y with hc | hc
  · simp [pipe, hc]
  · rw [pipe, handleFrame_wire, hc, payload_append, payload_cons, pipe, payload_append]
    rfl

theorem handleFrame_closeSeen (s : Flow α) (x : Bool) (offer : Offer) (f : StreamFrame α)
    (y : Bool) (h : ((s.handleFrame x offer f).half y).closeSeen = true) :
    (s.half y).closeSeen = true ∨ y = x ∧ f = .close := by
  rcases Bool.eq_or_eq_not y x with rfl | rfl
  · cases f with
    | openStream => cases offer <;> exact Or.inl h
    | ack ok =>
      simp only [handleFrame] at h
      split_ifs at h
      · simp [Half.register] at h
      · exact Or.inl h
      · exact Or.inl h
    | data a =>
      simp only [handleFrame, setHalf_half, Function.update_self, (Half.deliver_tables _ a).2] at h
      exact Or.inl h
    | credit n =>
      simp only [handleFrame] at h
      split_ifs at h <;>
        simp only [setLoop_half, setHalf_half, Function.update_self,
          (Half.credit_tables _ n).2.1] at h <;> exact Or.inl h
    | close => exact Or.inr ⟨rfl,rfl⟩
  · rw [handleFrame_other] at h
    exact Or.inl h

/-- A pump that has returned stays so; a new one is not put in its place. -/
theorem handleFrame_done (s : Flow α) (x : Bool) (offer : Offer) (f : StreamFrame α)
    (hf : ∀ ok, f = .ack ok → x = false → (s.half x).Idle) (y : Bool)
    (h : (s.half y).out.pump = .done) : ((s.handleFrame x offer f).half y).out.pump = .done := by
  rcases handleFrame_out s x offer f y with ⟨hp,-⟩ | ⟨rfl,hx,rfl,-⟩
  · rw [hp, h]
  · rw [(hf true rfl hx).out] at h
    cases h

theorem pop_payload (s : Flow α) (x : Bool) (f : StreamFrame α) (rest : List (StreamFrame α))
    (hw : s.wire x = f::rest) (y : Bool) :
    payload (s.pipe y) = (if y = x then payload [f] else [])++
      payload (Flow.pipe { s with wire := Function.update s.wire x rest } y) := by
  rcases eq_or_ne y x with rfl | hne
  · rw [pipe, hw, List.cons_append, payload_cons]
    simp [pipe]
  · simp [pipe, hne]

theorem handle_closing (s : Flow α) (h : Closing s) (ho : Opening s) (x : Bool) (offer : Offer)
    (f : StreamFrame α) (rest : List (StreamFrame α)) (hw : s.wire (!x) = f::rest) :
    Closing ({ s with wire := Function.update s.wire (!x) rest }.handleFrame x offer f) := by
  have hpop := pop_payload s (!x) f rest hw
  have hi : ∀ ok, f = .ack ok → x = false → (s.half x).Idle := by
    rintro ok rfl rfl
    exact ack_idle s ho ok rest hw
  have hdone := handleFrame_done { s with wire := Function.update s.wire (!x) rest } x offer f hi
  refine ⟨fun y pre post he => ?_,fun y hy => ?_,fun y hy => ?_⟩
  · rw [handleFrame_payload] at he
    exact h.last y (_++pre) post (by rw [hpop, he, List.append_assoc])
  · rw [handleFrame_payload]
    rcases handleFrame_closeSeen _ _ _ _ _ hy with hs | ⟨hyx,rfl⟩
    · have h0 := h.seen y hs
      rw [hpop] at h0
      exact (List.append_eq_nil_iff.mp h0).2
    · obtain rfl : y = !x := by rw [← hyx, Bool.not_not]
      exact h.last (!x) [] _ (by rw [hpop, if_pos rfl]; rfl)
  · apply hdone
    apply h.done
    rcases hy with hy | hy
    · rcases handleFrame_closeSeen _ _ _ _ _ hy with hs | ⟨hyx,rfl⟩
      · exact Or.inl hs
      · right
        obtain rfl : y = !x := by rw [← hyx, Bool.not_not]
        simp [pipe, hw]
    · right
      rw [← close_mem_payload, handleFrame_payload] at hy
      rw [← close_mem_payload, hpop]
      exact List.mem_append_right _ hy

end Flow

variable [Chunk α]

/-- A pump that has returned leaves no task behind that moves. -/
theorem Sender.done_still (s t : Sender α) (a : SendAct α) (f : Option (StreamFrame α))
    (h : s.Shaped) (hp : s.pump = .done) (hm : Sender.Moves s a t f) : False := by
  have hf := h.closed (Or.inr hp)
  have hq := h.ended hf
  cases hm <;> simp_all

theorem Sender.moves_close (s t : Sender α) (a : SendAct α) (f : Option (StreamFrame α))
    (hm : Sender.Moves s a t f) (hf : f = some .close) :
    s.pump = .close ∧ t.pump = .done ∧ a = .close true := by
  cases hm with
  | close ok hp =>
    cases ok with
    | true => exact ⟨hp,rfl,rfl⟩
    | false => cases hf
  | _ => cases hf

namespace Flow

theorem send_closing (s : Flow α) (h : Closing s) (hsh : ∀ x, (s.half x).out.Shaped) (x : Bool)
    (a : SendAct α) (out : Sender α) (f : Option (StreamFrame α))
    (hm : Sender.Moves (s.half x).out a out f) :
    Closing ((s.setHalf x { s.half x with out := out }).emit x f) := by
  have hover : ¬s.Over x := fun ho => Sender.done_still _ _ a f (hsh x) (h.done x ho) hm
  set t := (s.setHalf x { s.half x with out := out }).emit x f with ht
  have hcs : ∀ y, (t.half y).closeSeen = (s.half y).closeSeen := by
    intro y
    rcases eq_or_ne y x with rfl | hne
    · simp [ht]
    · simp [ht, hne]
  have hpay : ∀ y, payload (t.pipe y) =
      payload (s.pipe y)++(if y = x then payload f.toList else []) := emit_payload _ x f
  have hclose : .close ∉ payload (s.pipe x) := by
    rw [close_mem_payload]
    exact fun hc => hover (Or.inr hc)
  refine ⟨fun y pre post he => ?_,fun y hy => ?_,fun y hy => ?_⟩
  · rw [hpay] at he
    rcases eq_or_ne y x with rfl | hne
    · rw [if_pos rfl] at he
      refine nothing_after _ _ hclose ?_ pre post he
      cases f with
      | none => exact Nat.zero_le _
      | some f => exact List.length_filter_le _ _
    · rw [if_neg hne, List.append_nil] at he
      exact h.last y pre post he
  · rw [hcs] at hy
    rw [hpay, h.seen y hy]
    rcases eq_or_ne y x with rfl | hne
    · exact absurd (Or.inl hy) hover
    · rw [if_neg hne]
      rfl
  · have hnew : t.Over y ↔ s.Over y ∨ y = x ∧ f = some .close := by
      rw [Over, Over, hcs, ← close_mem_payload, hpay, ← close_mem_payload]
      rcases eq_or_ne y x with rfl | hne
      · rcases Sender.moves_emit _ _ _ _ hm with rfl | ⟨c,rfl⟩ | rfl <;>
          simp [payload, StreamFrame.isPayload]
      · simp [hne, close_mem_payload]
    rcases hnew.mp hy with hs | ⟨rfl,hf⟩
    · have hne : y ≠ x := by
        rintro rfl
        exact hover hs
      simpa [t, hne] using h.done y hs
    · simpa [t] using (Sender.moves_close _ _ _ _ hm hf).2.1

theorem step_closing (s : Flow α) (a : Act α) (t : Flow α) (h : Closing s) (ho : Opening s)
    (hsh : ∀ x, (s.half x).out.Shaped) (hst : s.step a = some t) : Closing t := by
  cases moves_of_step s t a hst with
  | ask =>
    apply h.frame
    · intro x
      rw [emit_payload]
      simp [payload, StreamFrame.isPayload, pipe]
    · exact fun _ => id
    · exact fun _ => id
  | reply ok =>
    apply h.frame
    · intro x
      rw [emit_payload]
      simp [payload, StreamFrame.isPayload, pipe]
    · exact fun _ => id
    · exact fun _ => id
  | ship x f cmds hc =>
    apply h.frame
    · intro y
      rcases eq_or_ne y x with rfl | hne
      · simp [pipe, hc]
      · simp [pipe, hne]
    · exact fun _ => id
    · exact fun _ => id
  | pend x => exact ⟨h.last,h.seen,h.done⟩
  | register x hl =>
    cases x with
    | false => exact absurd hl ho.asking
    | true =>
      have hi := (ho.registering hl).1
      apply h.frame
      · exact fun _ => List.infix_refl _
      · intro y hy
        cases y with
        | false => exact hy
        | true => cases hy
      · intro y hy
        cases y with
        | false => exact hy
        | true =>
          rw [hi.out] at hy
          cases hy
  | handle x offer f rest hw => exact handle_closing s h ho x offer f rest hw
  | notify x =>
    apply h.frame
    · exact fun _ => List.infix_refl _
    · intro y hy
      rcases eq_or_ne y x with rfl | hne
      · simpa using hy
      · simpa [hne] using hy
    · intro y hy
      rcases eq_or_ne y x with rfl | hne
      · simpa [Sender.notify] using hy
      · simpa [hne] using hy
  | send x a out f _ hm => exact send_closing s h hsh x a out f hm
  | recv x a inn f _ hm =>
    apply h.frame
    · intro y
      rw [emit_payload]
      rcases Receiver.moves_emit _ _ _ _ _ hm with rfl | ⟨n,rfl⟩ <;>
        simp [payload, StreamFrame.isPayload, pipe]
    · intro y hy
      rcases eq_or_ne y x with rfl | hne
      · simpa using hy
      · simpa [hne] using hy
    · intro y hy
      rcases eq_or_ne y x with rfl | hne
      · simpa using hy
      · simpa [hne] using hy
  | endLoop x =>
    apply h.frame
    · intro y
      rcases eq_or_ne y x with rfl | hne
      · simpa [pipe] using (List.prefix_append _ _).isInfix
      · simp [pipe, hne]
    · intro y hy
      rcases eq_or_ne y x with rfl | hne
      · simpa [Half.orphan] using hy
      · simpa [hne] using hy
    · intro y hy
      rcases eq_or_ne y x with rfl | hne
      · simpa [Half.orphan] using hy
      · simpa [hne] using hy

end Flow
end Hydr.Stream
