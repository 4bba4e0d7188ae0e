import Mathlib
import Hydr.StreamOrder

/-!
# The delivery of a stream

Step by step, nothing is lost, repeated or overtaken between the application
that writes and the duplex of the one that reads. What is written there is at
every moment a prefix of what was read here, and after the StreamClose it is
all of it before the end of the stream shows.
-/

set_option autoImplicit false

namespace Hydr.Stream

variable {α : Type}

theorem Receiver.deliver_got (r : Receiver α) (a : α)
    (hw : r.writer ≠ .absent ∧ r.writer ≠ .shut) (hf : r.writer.hasFailed = false) :
    (r.deliver a).got = r.got++[a] ∧ (r.deliver a).writer.hasFailed = false := by
  unfold deliver
  split
  · exact ⟨by simp [got],hf⟩
  · exact ⟨by simp [got],hf⟩
  · rename_i h1 h2
    cases hr : r.writer with
    | absent => exact absurd hr hw.1
    | recv => exact absurd hr h1
    | writing b i => exact absurd hr (h2 b i)
    | failed b i => simp [hr, Writer.hasFailed] at hf
    | shut => exact absurd hr hw.2

theorem Receiver.deliver_failed (r : Receiver α) (a : α) (hf : r.writer.hasFailed = true) :
    r.deliver a = r := by
  unfold deliver
  split
  · rename_i hw
    simp [hw, Writer.hasFailed] at hf
  · rename_i hw
    simp [hw, Writer.hasFailed] at hf
  · rfl

namespace Flow

theorem endLoop_ordered (s : Flow α) (h : ∀ x, Ordered s x) (hc : Closing s) (x : Bool)
    (hl : s.loop x = .free) (y : Bool) :
    Ordered (({ s with cmds := Function.update s.cmds x [] }.setHalf x (s.half x).orphan).setLoop x
      .ended) y := by
  rcases Bool.eq_or_eq_not y x with rfl | rfl
  · have hy := h y
    refine ⟨?_,fun hf => ?_⟩
    · simpa [Half.orphan] using hy.ahead
    · obtain ⟨rest,he,-,hr⟩ := hy.whole (by simpa using hf)
      refine ⟨dataOf (s.cmds y)++rest,?_,fun ha => ?_,fun ho => ?_⟩
      · simp [pipe, Half.orphan, he]
      · simp [alive] at ha
      · have hs : s.Over y := by
          refine ho.imp (by simp) fun hm => ?_
          simp [pipe] at hm ⊢
          exact Or.inl hm
        rw [hr hs, List.append_nil]
        apply dataOf_silent
        rcases ho with ho | ho
        · have h0 := hc.seen y (by simpa using ho)
          rw [pipe, payload_append] at h0
          exact (List.append_eq_nil_iff.mp h0).2
        · have hw : .close ∈ payload (s.wire y) := by
            rw [close_mem_payload]
            simpa [pipe] using ho
          obtain ⟨pre,post,hp⟩ := List.append_of_mem hw
          have h0 := hc.last y pre (post++payload (s.cmds y)) (by simp [pipe, hp])
          exact (List.append_eq_nil_iff.mp h0).2
  · apply (h (!x)).frame
    · simp [Half.orphan]
    · simp [Half.orphan]
    · simp
    · simp
    · simp [pipe]
    · simp [alive]
    · simp [Over, pipe, Half.orphan]

/-- Data is handled where the stream is registered, and before its StreamClose. -/
theorem data_listed (s : Flow α) (ho : Opening s) (hr : Registration s) (hc : Closing s)
    (hsh : ∀ x, (s.half x).out.Shaped) (hli : ∀ x, s.alive x = true → (s.half x).Listed)
    (x : Bool) (a : α) (rest : List (StreamFrame α)) (hw : s.wire (!x) = .data a::rest)
    (hl : s.loop x = .free) : (s.half x).streams = true := by
  have hsent : (s.half (!x)).Born := by
    intro hn
    have h0 := ho.silent (!x) ⟨hn,(hsh _).born hn⟩
    rw [pipe, hw, List.cons_append, List.countP_cons_of_pos rfl] at h0
    omega
  have hborn : (s.half x).Born := by
    cases x with
    | true => simpa [hl] using hr.opener hsent
    | false =>
      rcases hr.acceptor (Or.inl hsent) with hb | ⟨pre,post,he,hp⟩
      · exact hb
      · rw [Bool.not_false] at hw
        rw [hw] at he
        cases pre with
        | nil => cases he
        | cons g pre =>
          obtain ⟨rfl,-⟩ := List.cons.inj he
          cases hp _ (List.mem_cons_self ..)
  have hseen : (s.half x).closeSeen = false := by
    by_contra hn
    have h0 := hc.seen (!x) (by rw [Bool.not_not]; simpa using hn)
    rw [pipe, hw] at h0
    cases h0
  exact hli x (by simp [alive, hl]) hborn hseen

theorem deliver_ordered (s : Flow α) (h : ∀ x, Ordered s x) (hse : ∀ x, (s.half x).Served)
    (x : Bool) (a : α) (rest : List (StreamFrame α)) (hw : s.wire (!x) = .data a::rest)
    (hs : (s.half x).streams = true) (y : Bool) :
    Ordered ({ s with wire := Function.update s.wire (!x) rest }.setHalf x
      ((s.half x).deliver a)) y := by
  have hinn : ((s.half x).deliver a).inn = (s.half x).inn.deliver a := by
    rw [Half.deliver, if_pos hs]
  rcases Bool.eq_or_eq_not y x with rfl | rfl
  · apply (h y).frame
    · simp
    · simp
    · simp
    · simp
    · simp [pipe]
    · exact id
    · intro ho
      refine ho.imp (by simp) fun hm => ?_
      simpa [pipe] using hm
  · have hx := h (!x)
    have ha := hx.ahead
    have hwhole := hx.whole
    simp only [Bool.not_not] at ha hwhole
    by_cases hf : (s.half x).inn.writer.hasFailed = true
    · rw [Receiver.deliver_failed _ a hf] at hinn
      refine ⟨?_,fun hn => ?_⟩
      · simpa [hinn] using ha
      · simp [hinn, hf] at hn
    · obtain ⟨rest',he,hr,hc⟩ := hwhole (by simpa using hf)
      obtain ⟨hg,hgf⟩ := Receiver.deliver_got _ a ((hse x).present hs) (by simpa using hf)
      have hd : dataOf (s.pipe (!x)) = a::dataOf (rest++s.cmds (!x)) := by
        rw [pipe, hw]
        rfl
      refine ⟨?_,fun _ => ⟨rest',?_,?_,?_⟩⟩
      · simp only [setHalf_half, Bool.not_not, Function.update_self, update_other, hinn, hg, he, hd]
        exact ⟨dataOf (rest++s.cmds (!x))++rest',by simp⟩
      · simp [pipe, hinn, hg, he, hw, dataOf]
      · intro hal
        simpa using hr hal
      · intro hov
        apply hc
        refine hov.imp (fun hs => ?_) fun hm => ?_
        · simpa [(Half.deliver_tables _ a).2] using hs
        · simp only [pipe, setHalf_wire, setHalf_cmds, Function.update_self] at hm
          rw [pipe, hw]
          exact List.mem_cons_of_mem _ hm

def SameChunks (g h : Half α) : Prop :=
  g.inn.got = h.inn.got ∧ g.inn.writer.hasFailed = h.inn.writer.hasFailed ∧
    g.out.taken = h.out.taken ∧ g.out.kept = h.out.kept

theorem register_chunks (h : Half α) (hi : h.Idle) : SameChunks .register h := by
  rw [SameChunks, hi.inn, hi.out]
  exact ⟨rfl,rfl,rfl,rfl⟩

theorem handleFrame_chunks (s : Flow α) (x : Bool) (offer : Offer) (f : StreamFrame α)
    (hf : ∀ a, f ≠ .data a) (hi : ∀ ok, f = .ack ok → x = false → (s.half x).Idle) (y : Bool) :
    SameChunks ((s.handleFrame x offer f).half y) (s.half y) := by
  have hsame : SameChunks (s.half y) (s.half y) := ⟨rfl,rfl,rfl,rfl⟩
  rcases Bool.eq_or_eq_not y x with rfl | rfl
  · cases f with
    | openStream => cases offer <;> exact hsame
    | ack ok =>
      simp only [handleFrame]
      split_ifs with hy
      · have hid := hi ok rfl (by simpa using (Bool.and_eq_true_iff.mp hy).1)
        simpa using register_chunks _ hid
      · exact hsame
      · exact hsame
    | data a => exact absurd rfl (hf a)
    | credit n =>
      simp only [handleFrame, Half.credit]
      split_ifs <;> simp [SameChunks, Sender.grant, Sender.kept]
    | close => simp [handleFrame, Half.close, SameChunks]
  · rw [handleFrame_other]
    exact hsame

theorem handle_ordered (s : Flow α) (h : ∀ x, Ordered s x) (ho : Opening s) (hr : Registration s)
    (hc : Closing s) (hsh : ∀ x, (s.half x).out.Shaped) (hse : ∀ x, (s.half x).Served)
    (hli : ∀ x, s.alive x = true → (s.half x).Listed) (x : Bool) (offer : Offer)
    (f : StreamFrame α) (rest : List (StreamFrame α)) (hw : s.wire (!x) = f::rest)
    (hl : s.loop x = .free) (y : Bool) :
    Ordered ({ s with wire := Function.update s.wire (!x) rest }.handleFrame x offer f) y := by
  by_cases hf : ∃ a, f = .data a
  · obtain ⟨a,rfl⟩ := hf
    exact deliver_ordered s h hse x a rest hw (data_listed s ho hr hc hsh hli x a rest hw hl) y
  · push Not at hf
    have hi : ∀ ok, f = .ack ok → x = false → (s.half x).Idle := by
      rintro ok rfl rfl
      exact ack_idle s ho ok rest hw
    have hch := handleFrame_chunks { s with wire := Function.update s.wire (!x) rest } x offer f
      hf hi
    have hpop := pop_payload s (!x) f rest hw
    have hd : dataOf [f] = [] := by
      cases f with
      | data a => exact absurd rfl (hf a)
      | _ => rfl
    apply (h y).frame
    · exact (hch (!y)).1
    · exact (hch (!y)).2.1
    · exact (hch y).2.2.1
    · exact (hch y).2.2.2
    · rw [← dataOf_payload, handleFrame_payload, ← dataOf_payload (s.pipe y), hpop, dataOf_append]
      split_ifs <;> simp [dataOf_payload, hd, dataOf]
    · intro ha
      rwa [handleFrame_alive] at ha
      exact hl
    · rintro (hcs | hcs)
      · rcases handleFrame_closeSeen _ _ _ _ _ hcs with hs | ⟨hyx,rfl⟩
        · exact Or.inl hs
        · right
          obtain rfl : y = !x := by rw [← hyx, Bool.not_not]
          simp [pipe, hw]
      · right
        rw [← close_mem_payload, handleFrame_payload] at hcs
        rw [← close_mem_payload, hpop]
        exact List.mem_append_right _ hcs

end Flow

variable [Chunk α]

/-- A sending half moves chunks on in order, unless its forwarder is gone. -/
theorem Sender.moves_kept (s t : Sender α) (a : SendAct α) (f : Option (StreamFrame α))
    (hm : Sender.Moves s a t f) :
    (∃ new, t.taken = s.taken++new ∧ dataOf f.toList++t.kept = s.kept++new) ∨
      t.taken = s.taken ∧ f = none ∧
        (a = .forward false ∨ ∃ c, s.pump = .enqueue c ∧ s.forwarder = .ended) := by
  cases hm with
  | chunk a hp => exact Or.inl ⟨[a],rfl,by simp [kept, hp, Pump.hand, dataOf]⟩
  | refuse c hp hf => exact Or.inr ⟨rfl,rfl,Or.inr ⟨c,hp,hf⟩⟩
  | lose => exact Or.inr ⟨rfl,rfl,Or.inl rfl⟩
  | enqueue a hp => exact Or.inl ⟨[],by simp,by simp [kept, hp, Pump.hand, dataOf]⟩
  | take a q hq hf => exact Or.inl ⟨[],by simp,by simp [kept, hq, hf, Forwarder.hand, dataOf]⟩
  | forward a hf => exact Or.inl ⟨[],by simp,by simp [kept, hf, Forwarder.hand, dataOf]⟩
  | finish hp hq hf => exact Or.inl ⟨[],by simp,by simp [kept, hf, Forwarder.hand, dataOf]⟩
  | close ok hp => exact Or.inl ⟨[],by simp,by cases ok <;> simp [kept, hp, Pump.hand, dataOf]⟩
  | pass w hp | turn w next hp | subscribe hp | enable hp | wake hp | stop hp | count n hp
  | drained hp => exact Or.inl ⟨[],by simp,by simp [kept, hp, Pump.hand, dataOf]⟩

theorem Sender.moves_data (s t : Sender α) (a : SendAct α) (f : Option (StreamFrame α))
    (hm : Sender.Moves s a t f) (ha : a.admits false = true) : dataOf f.toList = [] := by
  cases hm with
  | forward => cases ha
  | close ok => cases ok <;> rfl
  | _ => rfl

/-- A living loop's forwarder ends after its pump has stopped reading. -/
theorem Sender.moves_lively (s t : Sender α) (a : SendAct α) (f : Option (StreamFrame α))
    (hm : Sender.Moves s a t f) (ha : a.admits true = true)
    (h : s.forwarder = .ended → s.pump = .drain ∨ s.pump = .close ∨ s.pump = .done) :
    t.forwarder = .ended → t.pump = .drain ∨ t.pump = .close ∨ t.pump = .done := by
  intro hf
  cases hm with
  | pass w hp | turn w next hp | subscribe hp | enable hp | wake hp | chunk a hp | enqueue a hp
  | count n hp =>
    have hd := h hf
    simp [hp] at hd
  | stop | refuse => exact Or.inl rfl
  | finish hp => exact Or.inl hp
  | take | forward => cases hf
  | lose => cases ha
  | drained => exact Or.inr (Or.inl rfl)
  | close => exact Or.inr (Or.inr rfl)

theorem Receiver.moves_got (closed : Bool) (r t : Receiver α) (a : RecvAct)
    (f : Option (StreamFrame α)) (hm : Receiver.Moves closed r a t f) :
    t.got = r.got ∧ t.writer.hasFailed = r.writer.hasFailed ∨
      t.got <+: r.got ∧ t.writer.hasFailed = true := by
  cases hm with
  | recv a chan hw hc => exact Or.inl (by simp [got, hw, hc, Writer.hand, Writer.hasFailed])
  | write a i k hw => exact Or.inl (by simp [got, hw, Writer.hand, Writer.hasFailed])
  | finish a hw => exact Or.inl (by simp [got, hw, Writer.hand, Writer.hasFailed])
  | fail a i hw => exact Or.inr (by simp [got, hw, Writer.hand, Writer.hasFailed])
  | shutdown hw => exact Or.inl (by simp [got, hw, Writer.hand, Writer.hasFailed])
  | keep | miss | giveBack | park | drop => exact Or.inl ⟨rfl,rfl⟩

namespace Flow

theorem step_lively (s : Flow α) (a : Act α) (t : Flow α) (h : Lively s)
    (hst : s.step a = some t) : Lively t := by
  intro y hy
  have hs := h y (step_alive s a t hst y hy)
  cases moves_of_step s t a hst with
  | ask | ship | pend | reply => exact hs
  | register x =>
    rcases eq_or_ne y x with rfl | hne
    · simp [Half.register, Sender.spawn]
    · simpa [hne] using hs
  | handle x offer f rest hw hl =>
    rcases handleFrame_out { s with wire := Function.update s.wire (!x) rest } x offer f y with
      ⟨hp,hf,-⟩ | ⟨-,-,-,hr⟩
    · rw [hp, hf]
      exact hs
    · simp [hr, Half.register, Sender.spawn]
  | notify x =>
    rcases eq_or_ne y x with rfl | hne
    · simpa [Sender.notify] using hs
    · simpa [hne] using hs
  | send x a out f ha hm =>
    rcases eq_or_ne y x with rfl | hne
    · have ha' : s.alive y = true := hy
      rw [ha'] at ha
      simpa using Sender.moves_lively _ _ _ _ hm ha hs
    · simpa [hne] using hs
  | recv x a inn f =>
    rcases eq_or_ne y x with rfl | hne
    · simpa using hs
    · simpa [hne] using hs
  | endLoop x =>
    rcases eq_or_ne y x with rfl | hne
    · simpa [Half.orphan] using hs
    · simpa [hne] using hs

theorem send_ordered (s : Flow α) (h : ∀ x, Ordered s x) (hl : Lively s) (hc : Closing s)
    (hsh : ∀ x, (s.half x).out.Shaped) (x : Bool) (a : SendAct α) (out : Sender α)
    (f : Option (StreamFrame α)) (ha : a.admits (s.alive x) = true)
    (hm : Sender.Moves (s.half x).out a out f) (y : Bool) :
    Ordered ((s.setHalf x { s.half x with out := out }).emit x f) y := by
  have hover : ¬s.Over x := fun ho => Sender.done_still _ _ a f (hsh x) (hc.done x ho) hm
  rcases Bool.eq_or_eq_not y x with rfl | rfl
  · have hy := h y
    have hgot : (((s.setHalf y { s.half y with out := out }).emit y f).half (!y)).inn =
        (s.half (!y)).inn := by simp
    have hpipe : dataOf (((s.setHalf y { s.half y with out := out }).emit y f).pipe y) =
        dataOf (s.pipe y)++dataOf f.toList := by simp [pipe]
    have hout : (((s.setHalf y { s.half y with out := out }).emit y f).half y).out = out := by simp
    have hclose : ((s.setHalf y { s.half y with out := out }).emit y f).Over y →
        s.alive y = true ∧ out.kept = [] := by
      intro ho
      have hf : f = some .close := by
        rcases ho with ho | ho
        · exact absurd (Or.inl (by simpa using ho)) hover
        · rcases List.mem_append.mp (show .close ∈ s.pipe y++f.toList by simpa [pipe] using ho)
            with ho | ho
          · exact absurd (Or.inr ho) hover
          · simpa using ho
      obtain ⟨-,hp,rfl⟩ := Sender.moves_close _ _ _ _ hm hf
      have hs := Sender.moves_shaped _ _ _ _ (hsh y) hm
      have hfw := hs.closed (Or.inr hp)
      exact ⟨by simpa [SendAct.admits] using ha.symm,
        by simp [Sender.kept, hp, hfw, hs.ended hfw, Forwarder.hand, Pump.hand]⟩
    rcases Sender.moves_kept _ _ _ _ hm with ⟨new,ht,hk⟩ | ⟨ht,rfl,hlossy⟩
    · refine ⟨?_,fun hf => ?_⟩
      · rw [hgot, hout, ht]
        exact hy.ahead.trans (List.prefix_append _ _)
      · rw [hgot] at hf
        obtain ⟨rest,he,hr,-⟩ := hy.whole hf
        rw [hgot, hpipe, hout, ht, he]
        by_cases hal : s.alive y = true
        · refine ⟨out.kept,?_,fun _ => rfl,fun ho => (hclose ho).2⟩
          rw [hr hal]
          simp only [List.append_assoc, hk]
        · have hd : dataOf f.toList = [] := by
            apply Sender.moves_data _ _ _ _ hm
            simpa [hal] using ha
          exact ⟨rest++new,by simp [hd],fun hx => absurd hx hal,
            fun ho => absurd (hclose ho).1 hal⟩
    · have hal : s.alive y ≠ true := by
        intro hal
        rcases hlossy with rfl | ⟨c,hp,hf⟩
        · simp [SendAct.admits, hal] at ha
        · have hd := hl y hal hf
          simp [hp] at hd
      refine ⟨?_,fun hf => ?_⟩
      · rw [hgot, hout, ht]
        exact hy.ahead
      · rw [hgot] at hf
        obtain ⟨rest,he,-,-⟩ := hy.whole hf
        rw [hgot, hpipe, hout, ht, he]
        exact ⟨rest,by simp [dataOf],fun hx => absurd hx hal,fun ho => absurd (hclose ho).1 hal⟩
  · apply (h (!x)).frame
    · simp
    · simp
    · simp
    · simp
    · simp [pipe]
    · exact id
    · simp [Over, pipe]

theorem recv_ordered (s : Flow α) (h : ∀ x, Ordered s x) (x : Bool) (closed : Bool) (a : RecvAct)
    (inn : Receiver α) (f : Option (StreamFrame α))
    (hm : Receiver.Moves closed (s.half x).inn a inn f) (y : Bool) :
    Ordered ((s.setHalf x { s.half x with inn := inn }).emit x f) y := by
  have hf := (Receiver.moves_stock _ _ _ _ _ hm).2
  have hpay : .close ∉ f.toList := by
    rcases Receiver.moves_emit _ _ _ _ _ hm with rfl | ⟨n,rfl⟩ <;> simp
  rcases Bool.eq_or_eq_not y x with rfl | rfl
  · apply (h y).frame
    · simp
    · simp
    · simp
    · simp
    · simp [pipe, hf]
    · exact id
    · intro ho
      simpa [Over, pipe, hpay] using ho
  · have hx := h (!x)
    rcases Receiver.moves_got _ _ _ _ _ hm with ⟨hg,hfl⟩ | ⟨hg,hfl⟩
    · apply hx.frame
      · simpa using hg
      · simpa using hfl
      · simp
      · simp
      · simp [pipe]
      · exact id
      · simp [Over, pipe]
    · have ha := hx.ahead
      rw [Bool.not_not] at ha
      refine ⟨?_,fun hn => ?_⟩
      · simpa using hg.trans ha
      · simp [hfl] at hn

theorem step_ordered (s : Flow α) (a : Act α) (t : Flow α) (h : ∀ x, Ordered s x) (ho : Opening s)
    (hr : Registration s) (hc : Closing s) (hl : Lively s) (hsh : ∀ x, (s.half x).out.Shaped)
    (hse : ∀ x, (s.half x).Served) (hli : ∀ x, s.alive x = true → (s.half x).Listed)
    (hst : s.step a = some t) (y : Bool) : Ordered t y := by
  have halive := step_alive s a t hst y
  cases moves_of_step s t a hst with
  | ask | reply =>
    apply (h y).frame
    · rfl
    · rfl
    · rfl
    · rfl
    · cases y <;> simp [pipe, dataOf]
    · exact halive
    · cases y <;> simp [Over, pipe]
  | ship x f cmds hcm hlf =>
    have hpipe : ∀ z, Function.update s.wire x (s.wire x++[f]) z++
        Function.update s.cmds x cmds z = s.pipe z := by
      intro z
      rcases eq_or_ne z x with rfl | hne
      · simp [pipe, hcm]
      · simp [pipe, hne]
    apply (h y).frame
    · rfl
    · rfl
    · rfl
    · rfl
    · exact congrArg dataOf (hpipe y)
    · exact halive
    · refine fun hov => hov.imp id fun hm => ?_
      rw [← hpipe]
      exact hm
  | pend x =>
    exact (h y).frame rfl rfl rfl rfl rfl halive id
  | register x hlr =>
    cases x with
    | false => exact absurd hlr ho.asking
    | true =>
      exact (register_ordered s h true (ho.registering hlr).1 y).frame rfl rfl rfl rfl rfl halive id
  | handle x offer f rest hw hlf =>
    exact handle_ordered s h ho hr hc hsh hse hli x offer f rest hw hlf y
  | notify x =>
    have hch : ∀ z, SameChunks ((s.setHalf x { s.half x with out := (s.half x).out.notify }).half z)
        (s.half z) := by
      intro z
      rcases eq_or_ne z x with rfl | hne
      · simp [SameChunks, Sender.notify, Sender.kept]
      · simp [SameChunks, hne]
    apply (h y).frame
    · exact (hch (!y)).1
    · exact (hch (!y)).2.1
    · exact (hch y).2.2.1
    · exact (hch y).2.2.2
    · rfl
    · exact halive
    · refine fun hov => hov.imp (fun hcs => ?_) id
      rcases eq_or_ne (!y) x with hyx | hne
      · simpa [← hyx] using hcs
      · simpa [hne] using hcs
  | send x a out f ha hm => exact send_ordered s h hl hc hsh x a out f ha hm y
  | recv x a inn f _ hm => exact recv_ordered s h x _ a inn f hm y
  | endLoop x hlf => exact endLoop_ordered s h hc x hlf y

structure Sound (s : Flow α) : Prop where
  progress : Progress s
  registration : Registration s
  shaped : ∀ x, (s.half x).out.Shaped
  served : ∀ x, (s.half x).Served
  listed : ∀ x, s.alive x = true → (s.half x).Listed
  closing : Closing s
  lively : Lively s
  ordered : ∀ x, Ordered s x

theorem init_sound : Sound (init : Flow α) where
  progress := init_progress
  registration := init_registration
  shaped _ := ⟨fun _ => rfl,by simp [init, Half.absent, Sender.absent],nofun⟩
  served _ := ⟨nofun,nofun,nofun⟩
  listed _ _ hb := absurd rfl hb
  closing := init_closing
  lively _ _ hf := nomatch hf
  ordered := init_ordered

theorem step_sound (s : Flow α) (a : Act α) (t : Flow α) (h : Sound s)
    (hst : s.step a = some t) : Sound t where
  progress := step_progress s a t h.progress hst
  registration := step_registration s a t h.registration h.progress.bounded.opening hst
  shaped x := by
    rcases step_stable Half.shaped_stable s a t hst x (fun _ _ _ _ _ _ => trivial)
      (h.shaped x) with hx | ⟨hx,-⟩
    · exact hx
    · rw [hx]
      exact h.shaped x
  served x := by
    rcases step_stable Half.served_stable s a t hst x (fun _ _ _ _ _ _ => trivial)
      (h.served x) with hx | ⟨hx,-⟩
    · exact hx
    · rw [hx]
      exact ⟨nofun,(h.served x).failed,(h.served x).shut⟩
  listed x hx := by
    rcases step_stable Half.listed_stable s a t hst x (fun _ _ _ _ _ _ => trivial)
      (h.listed x (step_alive s a t hst x hx)) with hl | ⟨-,hl⟩
    · exact hl
    · simp [alive, hl] at hx
  closing := step_closing s a t h.closing h.progress.bounded.opening h.shaped hst
  lively := step_lively s a t h.lively hst
  ordered := step_ordered s a t h.ordered h.progress.bounded.opening h.registration h.closing
    h.lively h.shaped h.served h.listed hst

end Flow

def Writer.part : Writer Bytes → Bytes
  | .writing a i => a.take i
  | .failed a i => a.take i
  | _ => []

def Writer.remaining : Writer Bytes → Bytes
  | .writing a i => a.drop i
  | .failed a i => a.drop i
  | _ => []

def Receiver.delivered (r : Receiver Bytes) : Bytes := r.written.flatten++r.writer.part

def Receiver.held (r : Receiver Bytes) : Bytes := r.writer.remaining++r.chan.flatten

theorem Writer.hand_flatten (w : Writer Bytes) : w.hand.flatten = w.part++w.remaining := by
  cases w <;> simp [hand, part, remaining]

theorem Receiver.got_flatten (r : Receiver Bytes) : r.got.flatten = r.delivered++r.held := by
  simp only [got, List.flatten_append, Writer.hand_flatten, delivered, held, List.append_assoc]

namespace Flow

theorem delivered_ahead (s : Flow Bytes) (h : Sound s) (x : Bool) :
    (s.half (!x)).inn.delivered <+: (s.half x).out.taken.flatten := by
  have hg : (s.half (!x)).inn.got.flatten <+: (s.half x).out.taken.flatten :=
    (h.ordered x).ahead.flatten
  rw [Receiver.got_flatten] at hg
  exact (List.prefix_append _ _).trans hg

/-- After the StreamClose everything that was read is in the writer's hands,
and all of it is written before the duplex is shut down. -/
theorem delivered_whole (s : Flow Bytes) (h : Sound s) (x : Bool)
    (hc : (s.half (!x)).closeSeen = true) (hd : (s.half (!x)).inn.dropped = false) :
    (s.half (!x)).inn.delivered++(s.half (!x)).inn.held = (s.half x).out.taken.flatten ∧
      ((s.half (!x)).inn.writer = .shut →
        (s.half (!x)).inn.delivered = (s.half x).out.taken.flatten) := by
  have hfailed : (s.half (!x)).inn.writer.hasFailed = false := by
    cases hw : (s.half (!x)).inn.writer with
    | failed a i =>
      have hdrop := ((h.served (!x)).failed a i hw).2
      rw [hd] at hdrop
      cases hdrop
    | _ => rfl
  obtain ⟨rest,he,-,hr⟩ := (h.ordered x).whole hfailed
  rw [hr (Or.inl hc), dataOf_silent _ (h.closing.seen x hc), List.append_nil, List.append_nil] at he
  have hall : (s.half x).out.taken.flatten =
      (s.half (!x)).inn.delivered++(s.half (!x)).inn.held := by
    rw [he, Receiver.got_flatten]
  refine ⟨hall.symm,fun hw => ?_⟩
  rw [hall, Receiver.held, hw, (h.served (!x)).shut hw]
  simp [Writer.remaining]

end Flow
end Hydr.Stream
