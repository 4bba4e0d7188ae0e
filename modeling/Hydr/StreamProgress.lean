import Mathlib
import Hydr.StreamWindow

/-!
# What keeps a stream moving

Between two sides that run the code, every credit is a batch that the
application has read, the counter follows the bytes that are out by one buffer
at most, and a pump that is parked and not woken still finds its window shut.
-/

set_option autoImplicit false

namespace Hydr.Stream
open Chunk Transition

variable {α : Type}

def Pump.running : Pump α → Bool
  | .absent => false
  | .done => false
  | _ => true

def Sender.Tracked (s : Sender α) : Prop :=
  s.outstanding+s.pump.uncounted+s.granted ≤ s.enqueued+bufLen

theorem Sender.grant_tracked (s : Sender α) (n : ℕ) (h : s.Tracked)
    (hn : s.granted+n ≤ s.enqueued) (hc : s.pump.uncounted ≤ bufLen) : (s.grant n).Tracked := by
  simp only [Tracked, grant] at h ⊢
  omega

structure Receiver.Counted (r : Receiver α) : Prop where
  read : r.appRead = r.pending+r.returned
  missed : r.missed = true ↔ creditBatch ≤ r.pending
  empty : r.parked = true → r.duplex = 0

theorem Receiver.deliver_counted (r : Receiver α) (a : α) (h : r.Counted) :
    (r.deliver a).Counted := by
  unfold deliver
  split <;> exact ⟨h.read,h.missed,h.empty⟩

structure Half.Known (h : Half α) : Prop where
  entry : h.out.pump ≠ .absent → h.closeSeen = false →
    h.credits = true ∧ h.out.granted = h.processed
  closed : h.closeSeen = true → h.credits = false

theorem Half.credit_known (h : Half α) (n : ℕ) (hk : h.Known) : (h.credit n).Known := by
  simp only [Half.credit]
  split_ifs with hc
  · refine ⟨fun hp hs => ?_,hk.closed⟩
    exact ⟨hc,congrArg (·+n) (hk.entry hp hs).2⟩
  · exact ⟨fun hp hs => absurd (hk.entry hp hs).1 hc,hk.closed⟩

namespace Flow

def Returned (s : Flow α) : Prop := ∀ y, s.credited y = (s.half y).inn.returned

def Batched (s : Flow α) : Prop :=
  ∀ y n, .credit n ∈ s.pipe y → creditBatch ≤ n

def Exact (s : Flow α) : Prop :=
  ∀ x, s.alive x → s.alive (!x) →
    amounts (s.pipe (!x))+(s.half x).processed = s.credited (!x)

def Watched (s : Flow α) : Prop :=
  ∀ x, (s.half x).out.pump = .wait .parked → (s.half x).out.notified = false →
    s.loop x ≠ .granting → recvWindow ≤ (s.half x).out.outstanding

theorem setHalf_returned (s : Flow α) (h : Returned s) (x : Bool) (g : Half α)
    (hg : g.inn.returned = (s.half x).inn.returned) : Returned (s.setHalf x g) := by
  intro y
  rcases eq_or_ne y x with rfl | hne
  · simpa [hg] using h y
  · simpa [hne] using h y

theorem handle_returned (s : Flow α) (h : Returned s) (ho : Opening s) (x : Bool) (offer : Offer)
    (f : StreamFrame α) (rest : List (StreamFrame α)) (hw : s.wire (!x) = f::rest) :
    Returned ({ s with wire := Function.update s.wire (!x) rest }.handleFrame x offer f) := by
  cases f with
  | openStream => cases offer <;> exact h
  | ack ok =>
    simp only [handleFrame]
    split_ifs with hx
    · obtain ⟨hx,-⟩ := Bool.and_eq_true_iff.mp hx
      obtain rfl : x = false := by simpa using hx
      apply setHalf_returned
      · exact h
      · show 0 = (s.half false).inn.returned
        rw [(ack_idle s ho ok rest hw).inn]
        rfl
    · exact h
    · exact h
  | data a =>
    apply setHalf_returned
    · exact h
    · simp only [Half.deliver, Receiver.deliver]
      split_ifs
      · split <;> rfl
      · rfl
  | credit n =>
    have hc : Returned (s.setHalf x ((s.half x).credit n)) := by
      apply setHalf_returned s h
      simp only [Half.credit]
      split_ifs <;> rfl
    simp only [handleFrame]
    split_ifs <;> exact hc
  | close => exact setHalf_returned _ h x _ rfl

theorem setHalf_exact (s : Flow α) (h : Exact s) (x : Bool) (g : Half α)
    (hg : g.processed = (s.half x).processed) : Exact (s.setHalf x g) := by
  intro y hy hy'
  have he := h y hy hy'
  rcases eq_or_ne y x with rfl | hne
  · simpa [pipe, hg] using he
  · simpa [pipe, hne] using he

theorem emit_exact (s : Flow α) (h : Exact s) (x : Bool) (f : Option (StreamFrame α)) :
    Exact (s.emit x f) := by
  intro y hy hy'
  have he := h y hy hy'
  rcases Bool.eq_or_eq_not y x with rfl | rfl
  · simpa [pipe] using he
  · cases f with
    | none => simpa [pipe] using he
    | some f =>
      simp [pipe] at he ⊢
      omega

theorem handleFrame_amounts (s : Flow α) (x : Bool) (offer : Offer) (f : StreamFrame α)
    (y : Bool) : amounts ((s.handleFrame x offer f).pipe y) = amounts (s.pipe y) := by
  rcases handleFrame_cmds s x offer f y with hc | hc
  · simp [pipe, hc]
  · simp [pipe, hc, StreamFrame.amount]

theorem handleFrame_processed (s : Flow α) (x : Bool) (offer : Offer) (f : StreamFrame α) :
    ((s.handleFrame x offer f).half x).processed = (s.half x).processed+f.amount ∨
      (∃ ok, f = .ack ok) ∧ x = false ∧ (s.handleFrame x offer f).half x = .register := by
  cases f with
  | openStream => cases offer <;> exact Or.inl rfl
  | ack ok =>
    by_cases hx : (!x && s.pending) = true ∧ ok = true
    · right
      refine ⟨⟨ok,rfl⟩,by simpa using (Bool.and_eq_true_iff.mp hx.1).1,?_⟩
      simp [handleFrame, hx.1, hx.2]
    · left
      simp only [handleFrame]
      split_ifs <;> first | rfl | exact absurd ⟨‹_›,‹_›⟩ hx
  | data a =>
    left
    simp only [handleFrame, setHalf_half, Function.update_self, Half.deliver]
    split_ifs <;> rfl
  | credit n =>
    left
    simp only [handleFrame, Half.credit]
    split_ifs <;> simp [StreamFrame.amount]
  | close =>
    left
    simp [handleFrame, Half.close, StreamFrame.amount]

theorem handle_exact (s : Flow α) (h : Exact s) (x : Bool) (offer : Offer) (f : StreamFrame α)
    (rest : List (StreamFrame α)) (hw : s.wire (!x) = f::rest) (hl : s.loop x = .free)
    (hi : (∃ ok, f = .ack ok) → x = false →
      s.credited (!x) = 0 ∧ amounts (s.pipe (!x)) = 0) :
    Exact ({ s with wire := Function.update s.wire (!x) rest }.handleFrame x offer f) := by
  intro y hy hy'
  rw [handleFrame_alive] at hy hy'
  · have he := h y hy hy'
    rw [handleFrame_amounts, handleFrame_credited]
    rcases Bool.eq_or_eq_not y x with rfl | rfl
    · have hpop : amounts (Flow.pipe { s with wire := Function.update s.wire (!y) rest } (!y))+
          f.amount = amounts (s.pipe (!y)) := by
        simp [pipe, hw]
        omega
      rcases handleFrame_processed { s with wire := Function.update s.wire (!y) rest } y offer f with
        hp | ⟨hf,hx,hp⟩
      · rw [hp]
        simp only
        omega
      · obtain ⟨hc,ha⟩ := hi hf hx
        rw [hp]
        simp only [Half.register]
        omega
    · rw [handleFrame_other]
      simpa [pipe] using he
  · exact hl
  · exact hl

/-- A counter is lowered only by a loop that will notify. -/
theorem handle_watched (s : Flow α) (h : Watched s) (x : Bool) (offer : Offer)
    (f : StreamFrame α) : Watched (s.handleFrame x offer f) := by
  have hset : ∀ (u : Flow α) (g : Half α), Watched u →
      (g.out.pump = .wait .parked → g.out = (u.half x).out) → Watched (u.setHalf x g) := by
    intro u g hu hg y hp hn hl
    rcases eq_or_ne y x with rfl | hne
    · simp only [setHalf_half, Function.update_self] at hp hn ⊢
      have ho := hg hp
      rw [ho] at hp hn ⊢
      exact hu y hp hn hl
    · simp only [setHalf_half, Function.update_of_ne hne] at hp hn ⊢
      exact hu y hp hn hl
  cases f with
  | openStream => cases offer <;> exact h
  | ack ok =>
    simp only [handleFrame]
    split_ifs
    · exact hset _ _ h (by simp [Half.register, Sender.spawn])
    · exact h
    · exact h
  | data a => exact hset s _ h fun _ => Half.deliver_out _ a
  | credit n =>
    simp only [handleFrame]
    split_ifs with hc
    · intro y hp hn hl
      rcases eq_or_ne y x with rfl | hne
      · simp at hl
      · simp only [setLoop_half, setHalf_half, setLoop_loop, Function.update_of_ne hne]
          at hp hn hl ⊢
        exact h y hp hn hl
    · apply hset s _ h
      intro _
      simp [Half.credit, hc]
  | close => exact hset s _ h fun _ => rfl

end Flow

variable [Chunk α]

theorem Sender.moves_tracked (s t : Sender α) (a : SendAct α) (f : Option (StreamFrame α))
    (h : s.Tracked) (hm : Sender.Moves s a t f) : t.Tracked := by
  unfold Tracked at h ⊢
  cases hm with
  | pass w hp | turn w next hp | subscribe hp | enable hp | wake hp | chunk a hp | stop hp
  | refuse _ hp | drained hp | close _ hp => simpa [hp, Pump.uncounted] using h
  | enqueue a hp =>
    simp only [hp, Pump.uncounted] at h ⊢
    omega
  | count n hp =>
    simp only [hp, Pump.uncounted] at h ⊢
    omega
  | take | forward | lose | finish => exact h

theorem Receiver.moves_counted (closed : Bool) (r t : Receiver α) (a : RecvAct)
    (f : Option (StreamFrame α)) (h : r.Counted) (hm : Receiver.Moves closed r a t f) :
    t.Counted := by
  obtain ⟨hr,hm',he⟩ := h
  cases hm with
  | recv | finish | fail => exact ⟨hr,hm',he⟩
  | write | shutdown | drop => exact ⟨hr,hm',nofun⟩
  | park _ _ hd => exact ⟨hr,hm',fun _ => hd⟩
  | keep n _ h0 hn _ hp =>
    refine ⟨?_,?_,fun hk => ?_⟩
    · simp only
      omega
    · simp only
      rw [hm']
      omega
    · have hd := he hk
      simp only
      omega
  | miss n h0 hn _ hp =>
    refine ⟨?_,⟨fun _ => hp,fun _ => rfl⟩,fun hk => ?_⟩
    · simp only
      omega
    · have hd := he hk
      simp only
      omega
  | giveBack n h0 hn _ hp =>
    refine ⟨?_,by simp [creditBatch, recvWindow],fun hk => ?_⟩
    · simp only
      omega
    · have hd := he hk
      simp only
      omega

theorem Receiver.moves_returned (closed : Bool) (r t : Receiver α) (a : RecvAct)
    (f : Option (StreamFrame α)) (h : Receiver.Moves closed r a t f) :
    t.returned = r.returned+(f.map StreamFrame.amount).getD 0 := by
  cases h <;> rfl

theorem Sender.moves_amount (s t : Sender α) (a : SendAct α) (f : Option (StreamFrame α))
    (h : Sender.Moves s a t f) : (f.map StreamFrame.amount).getD 0 = 0 := by
  rcases Sender.moves_emit s t a f h with rfl | ⟨c,rfl⟩ | rfl <;> rfl

theorem Half.counted_stable : Stable (fun _ _ => True) (fun h : Half α => h.inn.Counted) where
  register := ⟨rfl,show false = true ↔ creditBatch ≤ 0 by decide,nofun⟩
  deliver h a hc := by
    unfold deliver
    split_ifs
    · exact Receiver.deliver_counted _ a hc
    · exact hc
  credit h n _ hc := by
    simp only [Half.credit]
    split_ifs <;> exact hc
  close _ hc := hc
  notify _ hc := hc
  send _ _ _ _ _ hc := hc
  recv h a inn f hm hc := Receiver.moves_counted _ _ _ a f hc hm

def Half.Covered (h : Half α) (n : ℕ) : Prop :=
  h.out.granted+n ≤ h.out.enqueued ∧ h.out.pump.uncounted ≤ bufLen

theorem Half.tracked_stable : Stable Half.Covered (fun h : Half α => h.out.Tracked) where
  register := Nat.zero_le _
  deliver h a ht := by rwa [Half.deliver_out]
  credit h n hc ht := by
    simp only [Half.credit]
    split_ifs
    · exact Sender.grant_tracked _ n ht hc.1 hc.2
    · exact ht
  close _ ht := ht
  notify _ ht := ht
  send h a out f hm ht := Sender.moves_tracked _ _ a f ht hm
  recv _ _ _ _ _ ht := ht

theorem Half.known_stable : Stable (fun _ _ => True) (Half.Known (α := α)) where
  register := ⟨fun _ _ => ⟨rfl,rfl⟩,nofun⟩
  deliver h a hk := by
    unfold deliver
    split_ifs
    · exact ⟨hk.entry,hk.closed⟩
    · exact hk
  credit h n _ hk := Half.credit_known h n hk
  close h _ := ⟨nofun,fun _ => rfl⟩
  notify h hk := ⟨hk.entry,hk.closed⟩
  send h a out f hm hk := by
    refine ⟨fun hp hs => ?_,hk.closed⟩
    have hb : h.out.pump ≠ .absent := by
      intro hb
      cases hm <;> simp_all
    obtain ⟨hc,hg⟩ := hk.entry hb hs
    exact ⟨hc,(Sender.moves_granted _ _ _ _ hm).trans hg⟩
  recv h a inn f hm hk := ⟨hk.entry,hk.closed⟩

namespace Flow

theorem step_returned (s : Flow α) (a : Act α) (t : Flow α) (h : Returned s) (ho : Opening s)
    (hst : s.step a = some t) : Returned t := by
  cases moves_of_step s t a hst with
  | ask | reply =>
    intro y
    have hy := h y
    cases y <;> simpa [StreamFrame.amount] using hy
  | ship | pend => exact h
  | register x hl =>
    cases x with
    | false => exact absurd hl ho.asking
    | true =>
      apply setHalf_returned s h
      rw [(ho.registering hl).1.inn]
      rfl
  | handle x offer f rest hw => exact handle_returned s h ho x offer f rest hw
  | notify x => exact setHalf_returned s h x _ rfl
  | send x a out f _ hm =>
    intro y
    have hy := h y
    have hf := Sender.moves_amount _ _ _ _ hm
    rcases eq_or_ne y x with rfl | hne
    · simpa [hf] using hy
    · simpa [hne] using hy
  | recv x a inn f _ hm =>
    intro y
    have hy := h y
    have hf := Receiver.moves_returned _ _ _ _ _ hm
    rcases eq_or_ne y x with rfl | hne
    · simp [hy, hf]
    · simpa [hne] using hy
  | endLoop x => exact setHalf_returned _ h x _ rfl

/-- Nothing can have been returned to a side before it is registered. -/
theorem credited_idle (s : Flow α) (h : Returned s) (hb : Balanced s) (hm : Metered s)
    (hc : ∀ x, (s.half x).inn.Counted) (x : Bool) (hi : (s.half x).Idle) :
    s.credited (!x) = 0 ∧ amounts (s.pipe (!x)) = 0 := by
  have hx := hb x
  have hr := h (!x)
  have hd := (hc (!x)).read
  have hp := hm.processed (!x)
  have he : (s.half x).out.enqueued = 0 := by
    rw [hi.out]
    rfl
  simp only [due] at hx
  omega

theorem step_batched (s : Flow α) (a : Act α) (t : Flow α) (h : Batched s)
    (hst : s.step a = some t) : Batched t := by
  have hemit : ∀ (u : Flow α) x f, (∀ n, f = some (.credit n) → creditBatch ≤ n) → Batched u →
      Batched (u.emit x f) := by
    intro u x f hf hu y n hn
    rcases eq_or_ne y x with rfl | hne
    · simp only [pipe, emit_wire, emit_cmds, Function.update_self, ← List.append_assoc] at hn
      rcases List.mem_append.mp hn with hn | hn
      · exact hu y n hn
      · exact hf n (by simpa using hn)
    · exact hu y n (by simpa [pipe, hne] using hn)
  cases moves_of_step s t a hst with
  | ask => exact hemit { s with stage := .opening } _ _ (by simp) h
  | reply ok => exact hemit { s with stage := .replied } _ _ (by simp) h
  | ship x f cmds hc =>
    intro y n hn
    apply h y n
    rcases eq_or_ne y x with rfl | hne
    · simpa [pipe, hc] using hn
    · simpa [pipe, hne] using hn
  | pend | register | notify => exact h
  | handle x offer f rest hw =>
    intro y n hn
    apply h y n
    have hsub : (Function.update s.wire (!x) rest y).Sublist (s.wire y) := by
      rcases eq_or_ne y (!x) with rfl | hne
      · simp [hw]
      · simp [hne]
    rw [pipe, handleFrame_wire, List.mem_append] at hn
    rcases hn with hn | hn
    · exact List.mem_append_left _ (hsub.subset hn)
    · apply List.mem_append_right
      rcases handleFrame_cmds { s with wire := Function.update s.wire (!x) rest } x offer f y with
        hc | hc
      · rwa [hc] at hn
      · rw [hc] at hn
        simpa using hn
  | send x a out f _ hm =>
    apply hemit
    · intro n hn
      rcases Sender.moves_emit _ _ _ _ hm with rfl | ⟨c,rfl⟩ | rfl <;> cases hn
    · exact h
  | recv x a inn f _ hm =>
    apply hemit
    · intro n hn
      cases hm with
      | giveBack k h0 hk ha hp =>
        cases hn
        exact hp
      | _ => cases hn
    · exact h
  | endLoop x =>
    intro y n hn
    apply h y n
    rcases eq_or_ne y x with rfl | hne
    · simp only [pipe, setLoop_wire, setHalf_wire, setLoop_cmds, setHalf_cmds,
        Function.update_self, List.append_nil] at hn
      exact List.mem_append_left _ hn
    · simpa [pipe, hne] using hn

theorem step_exact (s : Flow α) (a : Act α) (t : Flow α) (h : Exact s) (hb : Bounded s)
    (hr : Returned s) (hc : ∀ x, (s.half x).inn.Counted) (hst : s.step a = some t) : Exact t := by
  have hidle := credited_idle s hr hb.balanced hb.metered hc
  have hstill : ∀ x, t.alive x → s.alive x := step_alive s a t hst
  cases moves_of_step s t a hst with
  | ask => exact emit_exact { s with stage := .opening } h _ _
  | reply ok => exact emit_exact { s with stage := .replied } h _ _
  | ship x f cmds hcm =>
    intro y hy hy'
    have he := h y (hstill y hy) (hstill _ hy')
    rcases Bool.eq_or_eq_not y x with rfl | rfl
    · simpa [pipe] using he
    · simpa [pipe, hcm] using he
  | pend => exact fun y hy hy' => h y (hstill y hy) (hstill _ hy')
  | register x hl =>
    intro y hy hy'
    have he := h y (hstill y hy) (hstill _ hy')
    rcases Bool.eq_or_eq_not y x with rfl | rfl
    · cases y with
      | false => exact absurd hl hb.opening.asking
      | true =>
        obtain ⟨hcr,ha⟩ := hidle true (hb.opening.registering hl).1
        simp only [Bool.not_true] at hcr ha
        simp [pipe, Half.register, hcr] at ha ⊢
        exact ha
    · simpa [pipe] using he
  | handle x offer f rest hw hl =>
    apply handle_exact s h x offer f rest hw hl
    rintro ⟨ok,rfl⟩ rfl
    exact hidle false (ack_idle s hb.opening ok rest hw)
  | notify x =>
    intro y hy hy'
    have he := h y (hstill y hy) (hstill _ hy')
    rcases Bool.eq_or_eq_not y x with rfl | rfl
    · simpa [pipe] using he
    · simpa [pipe] using he
  | send x a out f | recv x a inn f =>
    apply emit_exact
    exact setHalf_exact s h x _ rfl
  | endLoop x hl =>
    intro y hy hy'
    rcases Bool.eq_or_eq_not y x with rfl | rfl
    · simp [alive] at hy
    · simp [alive] at hy'

theorem step_watched (s : Flow α) (a : Act α) (t : Flow α) (h : Watched s)
    (hst : s.step a = some t) : Watched t := by
  have hloop : ∀ (u : Flow α) y l, Watched u → u.loop y ≠ .granting → Watched (u.setLoop y l) := by
    intro u y l hu hl z hp hn hz
    rcases eq_or_ne z y with rfl | hne
    · exact hu z hp hn hl
    · exact hu z hp hn (by simpa [hne] using hz)
  cases moves_of_step s t a hst with
  | ask | reply => exact h
  | ship x f cmds hc hl =>
    apply hloop
    · exact h
    · simp [hl]
  | pend x hl =>
    apply hloop
    · exact h
    · simp [hl]
  | register x hl =>
    apply hloop
    · intro y hp hn hy
      rcases eq_or_ne y x with rfl | hne
      · simp [Half.register, Sender.spawn] at hp
      · simp only [setHalf_half, Function.update_of_ne hne] at hp hn ⊢
        exact h y hp hn hy
    · simp [hl]
  | handle x offer f rest =>
    apply handle_watched
    exact h
  | notify x =>
    intro y hp hn hy
    rcases eq_or_ne y x with rfl | hne
    · simp only [setLoop_half, setHalf_half, Function.update_self, Sender.notify] at hp hn
      simp [hp, Sender.subscribed] at hn
    · simp only [setLoop_half, setHalf_half, setLoop_loop, Function.update_of_ne hne] at hp hn hy ⊢
      exact h y hp hn hy
  | send x a out f _ hm =>
    intro y hp hn hy
    rcases eq_or_ne y x with rfl | hne
    · have hy' := h y
      simp only [emit_half, setHalf_half, emit_loop, setHalf_loop, Function.update_self]
        at hp hn hy ⊢
      cases hm with
      | turn w next hw ho => exact ho
      | take | forward | lose | finish => exact hy' hp hn hy
      | _ => cases hp
    · simp only [emit_half, setHalf_half, Function.update_of_ne hne] at hp hn ⊢
      exact h y hp hn hy
  | recv x a inn f =>
    intro y hp hn hy
    rcases eq_or_ne y x with rfl | hne
    · simp only [emit_half, setHalf_half, Function.update_self] at hp hn ⊢
      exact h y hp hn hy
    · simp only [emit_half, setHalf_half, Function.update_of_ne hne] at hp hn ⊢
      exact h y hp hn hy
  | endLoop x hl =>
    apply hloop
    · intro y hp hn hy
      rcases eq_or_ne y x with rfl | hne
      · simp only [setHalf_half, Function.update_self, Half.orphan] at hp hn ⊢
        exact h y hp hn hy
      · simp only [setHalf_half, Function.update_of_ne hne] at hp hn ⊢
        exact h y hp hn hy
    · simp [hl]

structure Progress (s : Flow α) : Prop where
  bounded : Bounded s
  counted : ∀ x, (s.half x).inn.Counted
  returned : Returned s
  batched : Batched s
  exact : Exact s
  watched : Watched s
  tracked : ∀ x, (s.half x).out.Tracked
  known : ∀ x, s.alive x → (s.half x).Known

theorem init_progress : Progress (init : Flow α) where
  bounded := init_bounded
  counted _ := ⟨rfl,show false = true ↔ creditBatch ≤ 0 by decide,nofun⟩
  returned _ := rfl
  batched _ _ hn := nomatch hn
  exact _ _ _ := rfl
  watched _ hp := nomatch hp
  tracked _ := Nat.zero_le _
  known _ _ := ⟨fun hp => absurd rfl hp,nofun⟩

/-- The credits of a direction, on their way and handled, are bytes that the
application has read, and so bytes that are out. -/
theorem credits_covered (s : Flow α) (h : Progress s) (x : Bool) :
    amounts (s.pipe (!x))+(s.half x).processed ≤ (s.half (!x)).inn.returned ∧
      (s.half (!x)).inn.appRead ≤ (s.half x).out.enqueued := by
  have hm := h.bounded.metered.processed (!x)
  have hb := h.bounded.balanced x
  have hr := h.returned (!x)
  rw [Bool.not_not] at hm
  simp only [due] at hb
  constructor
  · omega
  · omega

theorem credit_covered (s : Flow α) (h : Progress s) (x : Bool) (n : ℕ)
    (rest : List (StreamFrame α)) (hw : s.wire (!x) = .credit n::rest) :
    (s.half x).Covered n := by
  obtain ⟨hm,he⟩ := credits_covered s h x
  have hg := h.bounded.metered.granted x
  have hr := (h.counted (!x)).read
  have hn : n ≤ amounts (s.pipe (!x)) := by
    simp [pipe, hw, StreamFrame.amount]
  exact ⟨by omega,(h.bounded.windowed x).counting⟩

theorem step_progress (s : Flow α) (a : Act α) (t : Flow α) (h : Progress s)
    (hst : s.step a = some t) : Progress t where
  bounded := openStep_bounded s (.code a) t h.bounded hst
  counted x := by
    rcases step_stable Half.counted_stable s a t hst x (fun _ _ _ _ _ _ => trivial)
      (h.counted x) with hx | ⟨hx,-⟩
    · exact hx
    · rw [hx]
      exact h.counted x
  returned := step_returned s a t h.returned h.bounded.opening hst
  batched := step_batched s a t h.batched hst
  exact := step_exact s a t h.exact h.bounded h.returned h.counted hst
  watched := step_watched s a t h.watched hst
  tracked x := by
    rcases step_stable Half.tracked_stable s a t hst x
      (fun _ n rest _ _ hw => credit_covered s h x n rest hw) (h.tracked x) with hx | ⟨hx,-⟩
    · exact hx
    · rw [hx]
      exact h.tracked x
  known x hx := by
    rcases step_stable Half.known_stable s a t hst x (fun _ _ _ _ _ _ => trivial)
      (h.known x (step_alive s a t hst x hx)) with hk | ⟨-,hl⟩
    · exact hk
    · simp [alive, hl] at hx

/-- A pump does not wait for bytes that have been read and whose credits it
has, but for less than a batch. -/
theorem parked_owes (s : Flow α) (h : Progress s) (x : Bool)
    (hp : (s.half x).out.pump = .wait .parked) (hn : (s.half x).out.notified = false)
    (hl : s.loop x ≠ .granting) (hread : (s.half (!x)).inn.appRead = (s.half x).out.enqueued)
    (hg : (s.half x).out.granted = (s.half (!x)).inn.returned) :
    creditBatch ≤ (s.half (!x)).inn.pending := by
  have hw := h.watched x hp hn hl
  have ht := h.tracked x
  have hr := (h.counted (!x)).read
  rw [Sender.Tracked, hp] at ht
  simp only [Pump.uncounted, recvWindow, creditBatch, bufLen] at hw ht ⊢
  omega

end Flow
end Hydr.Stream
