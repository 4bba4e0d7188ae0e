import Mathlib
import Hydr.StreamCredits

/-!
# The window of a stream

The bytes queued and not yet granted back stay below the window and one chunk,
whatever credits arrive and whenever: the counter may lose what a credit takes
beyond zero, but then it only grows apart from the true difference upwards. The
bytes on their way are a part of those that are queued and not yet read.
-/

set_option autoImplicit false

namespace Hydr.Stream
open Chunk Transition

variable {α : Type}

/-- What the code does on both sides, and a peer that sends any credit. -/
inductive OpenAct (α : Type) where
  | code (a : Act α)
  | credit (x : Bool) (amount : ℕ)

def Pump.uncounted : Pump α → ℕ
  | .count n => n
  | _ => 0

def dataOf : List (StreamFrame α) → List α
  | [] => []
  | .data a::l => a::dataOf l
  | _::l => dataOf l

@[simp] theorem dataOf_append (l m : List (StreamFrame α)) :
    dataOf (l++m) = dataOf l++dataOf m := by
  induction l with
  | nil => rfl
  | cons f l ih => cases f <;> simp [dataOf, ih]

def Forwarder.hand : Forwarder α → List α
  | .holding a => [a]
  | _ => []

variable [Chunk α]

namespace Sender

structure Windowed (s : Sender α) : Prop where
  enqueued : s.enqueued ≤ s.granted+s.outstanding+s.pump.uncounted
  window : s.outstanding+s.pump.uncounted < recvWindow+bufLen
  reading : s.pump = .read → s.outstanding < recvWindow
  holding : ∀ a, s.pump = .enqueue a → s.outstanding < recvWindow ∧ size a ≤ bufLen
  counting : s.pump.uncounted ≤ bufLen

theorem absent_windowed : (absent : Sender α).Windowed :=
  ⟨le_rfl,show 0+0 < recvWindow+bufLen by decide,nofun,nofun,Nat.zero_le _⟩

theorem spawn_windowed : (spawn : Sender α).Windowed :=
  ⟨le_rfl,show 0+0 < recvWindow+bufLen by decide,nofun,nofun,Nat.zero_le _⟩

theorem grant_windowed (s : Sender α) (n : ℕ) (h : s.Windowed) : (s.grant n).Windowed := by
  obtain ⟨he,hw,hr,hh,hc⟩ := h
  refine ⟨?_,?_,fun hp => ?_,fun a hp => ?_,hc⟩
  · simp only [grant]
    omega
  · simp only [grant]
    omega
  · exact (Nat.sub_le _ _).trans_lt (hr hp)
  · exact ⟨(Nat.sub_le _ _).trans_lt (hh a hp).1,(hh a hp).2⟩

theorem notify_windowed (s : Sender α) (h : s.Windowed) : s.notify.Windowed :=
  ⟨h.enqueued,h.window,h.reading,h.holding,h.counting⟩

theorem moves_windowed (s t : Sender α) (a : SendAct α) (f : Option (StreamFrame α))
    (h : s.Windowed) (hm : Moves s a t f) : t.Windowed := by
  obtain ⟨he,hw,hr,hh,hc⟩ := h
  cases hm with
  | pass w hp ho =>
    simp only [hp, Pump.uncounted] at he hw
    exact ⟨he,hw,fun _ => ho,nofun,Nat.zero_le _⟩
  | turn w next hp | subscribe hp | enable hp | wake hp | stop hp | refuse _ hp | drained hp
  | close _ hp =>
    simp only [hp, Pump.uncounted] at he hw
    exact ⟨he,hw,nofun,nofun,Nat.zero_le _⟩
  | chunk a hp _ hs =>
    simp only [hp, Pump.uncounted] at he hw
    refine ⟨he,hw,nofun,fun _ hq => ?_,Nat.zero_le _⟩
    cases hq
    exact ⟨hr hp,hs⟩
  | enqueue a hp =>
    obtain ⟨ho,hs⟩ := hh a hp
    simp only [hp, Pump.uncounted] at he hw
    refine ⟨?_,?_,nofun,nofun,hs⟩
    · simp only [Pump.uncounted]
      omega
    · simp only [Pump.uncounted]
      omega
  | count n hp =>
    simp only [hp, Pump.uncounted] at he hw
    refine ⟨?_,?_,nofun,nofun,Nat.zero_le _⟩
    · simp only [Pump.uncounted]
      omega
    · simp only [Pump.uncounted]
      omega
  | take | forward | lose | finish => exact ⟨he,hw,hr,hh,hc⟩

end Sender

def total (l : List α) : ℕ := (l.map size).sum

@[simp] theorem total_nil : total ([] : List α) = 0 := rfl

@[simp] theorem total_cons (a : α) (l : List α) : total (a::l) = size a+total l := rfl

@[simp] theorem total_append (l m : List α) : total (l++m) = total l+total m := by
  simp [total]

def Writer.rest : Writer α → ℕ
  | .writing a i => size a-i
  | _ => 0

def Sender.load (s : Sender α) : ℕ := total s.q+total s.forwarder.hand

def Receiver.stock (r : Receiver α) : ℕ := total r.chan+r.writer.rest+r.duplex

theorem Sender.moves_load (s t : Sender α) (a : SendAct α) (f : Option (StreamFrame α))
    (h : Sender.Moves s a t f) :
    t.load+total (dataOf f.toList)+s.enqueued ≤ s.load+t.enqueued := by
  cases h with
  | enqueue a => simp [load, dataOf]; omega
  | take a q hq hf => simp [load, dataOf, hq, hf, Forwarder.hand, Nat.add_comm]
  | forward a hf => simp [load, dataOf, hf, Forwarder.hand]
  | lose a hf => simp [load, dataOf, hf, Forwarder.hand]
  | finish _ hq hf => simp [load, dataOf, hf, hq, Forwarder.hand]
  | close ok => cases ok <;> simp [load, dataOf]
  | _ => simp [load, dataOf]

theorem Receiver.moves_stock (closed : Bool) (r t : Receiver α) (a : RecvAct)
    (f : Option (StreamFrame α)) (h : Receiver.Moves closed r a t f) :
    t.stock+t.appRead ≤ r.stock+r.appRead ∧ dataOf f.toList = [] := by
  cases h with
  | recv a chan hw hc => simp [stock, hw, hc, Writer.rest, dataOf]; omega
  | write a i k hw h0 hs => simp [stock, hw, Writer.rest, dataOf]; omega
  | finish a hw => simp [stock, hw, Writer.rest, dataOf]
  | fail a i hw => simp [stock, hw, Writer.rest, dataOf]
  | shutdown hw => simp [stock, hw, Writer.rest, dataOf]
  | keep n _ h0 hn | miss n h0 hn | giveBack n h0 hn => simp [stock, dataOf]; omega
  | park => simp [stock, dataOf]
  | drop => simp [stock, dataOf]

theorem Receiver.deliver_stock (r : Receiver α) (a : α) :
    (r.deliver a).stock+(r.deliver a).appRead ≤ r.stock+r.appRead+size a := by
  unfold deliver
  split <;> simp [stock] <;> omega

namespace Flow

def due (s : Flow α) (x : Bool) : ℕ :=
  (s.half x).out.load+total (dataOf (s.pipe x))+
    ((s.half (!x)).inn.stock+(s.half (!x)).inn.appRead)

def beyond (s : Flow α) (x : Bool) : ℕ :=
  total (dataOf (s.pipe x))+(s.half (!x)).inn.stock

def Balanced (s : Flow α) : Prop := ∀ x, s.due x ≤ (s.half x).out.enqueued

theorem Balanced.step {s t : Flow α} (h : Balanced s)
    (hd : ∀ x, t.due x+(s.half x).out.enqueued ≤ s.due x+(t.half x).out.enqueued) :
    Balanced t := by
  intro x
  have hx := h x
  have hdx := hd x
  omega

theorem idle_register (h : Half α) (hi : h.Idle) :
    h.out.load = 0 ∧ h.out.enqueued = 0 ∧ h.inn.stock = 0 ∧ h.inn.appRead = 0 := by
  rw [hi.out, hi.inn]
  exact ⟨rfl,rfl,rfl,rfl⟩

theorem register_balanced (s : Flow α) (h : Balanced s) (x : Bool) (hi : (s.half x).Idle) :
    Balanced (s.setHalf x .register) := by
  obtain ⟨hl,he,hs,ha⟩ := idle_register _ hi
  apply h.step
  intro y
  rcases Bool.eq_or_eq_not y x with rfl | rfl
  · have h1 : (Half.register : Half α).out.load = 0 := rfl
    have h2 : (Half.register : Half α).out.enqueued = 0 := rfl
    simp [due, pipe, h1, h2, hl, he]
  · have h3 : (Half.register : Half α).inn.stock = 0 := rfl
    have h4 : (Half.register : Half α).inn.appRead = 0 := rfl
    simp [due, pipe, h3, h4, hs, ha]

theorem send_balanced (s : Flow α) (h : Balanced s) (x : Bool) (a : SendAct α) (out : Sender α)
    (f : Option (StreamFrame α)) (hm : Sender.Moves (s.half x).out a out f) :
    Balanced ((s.setHalf x { s.half x with out := out }).emit x f) := by
  have hl := Sender.moves_load _ _ _ _ hm
  apply h.step
  intro y
  rcases Bool.eq_or_eq_not y x with rfl | rfl
  · simp [due, pipe] at hl ⊢
    omega
  · simp [due, pipe]

theorem recv_balanced (s : Flow α) (h : Balanced s) (x : Bool) (closed : Bool) (a : RecvAct)
    (inn : Receiver α) (f : Option (StreamFrame α))
    (hm : Receiver.Moves closed (s.half x).inn a inn f) :
    Balanced ((s.setHalf x { s.half x with inn := inn }).emit x f) := by
  obtain ⟨hs,hd⟩ := Receiver.moves_stock _ _ _ _ _ hm
  apply h.step
  intro y
  rcases Bool.eq_or_eq_not y x with rfl | rfl
  · simp [due, pipe, hd]
  · simp [due, pipe]
    omega

theorem pop_due (s : Flow α) (x : Bool) (f : StreamFrame α) (rest : List (StreamFrame α))
    (hw : s.wire x = f::rest) (y : Bool) :
    Flow.due { s with wire := Function.update s.wire x rest } y+
      (if y = x then total (dataOf [f]) else 0) = s.due y := by
  rcases eq_or_ne y x with rfl | hne
  · have hf : dataOf (f::(rest++s.cmds y)) = dataOf [f]++dataOf (rest++s.cmds y) :=
      dataOf_append [f] _
    simp only [due, pipe, Function.update_self, hw, List.cons_append, hf, total_append, if_pos]
    omega
  · simp [due, pipe, hne]

theorem pop_balanced (s : Flow α) (h : Balanced s) (x : Bool) (f : StreamFrame α)
    (rest : List (StreamFrame α)) (hw : s.wire x = f::rest) :
    Balanced { s with wire := Function.update s.wire x rest } := by
  apply h.step
  intro y
  have hy := pop_due s x f rest hw y
  show _+(s.half y).out.enqueued ≤ _+(s.half y).out.enqueued
  omega

theorem deliver_balanced (s : Flow α) (h : Balanced s) (x : Bool) (a : α)
    (rest : List (StreamFrame α)) (hw : s.wire (!x) = .data a::rest) :
    Balanced ({ s with wire := Function.update s.wire (!x) rest }.setHalf x
      ((s.half x).deliver a)) := by
  have hd : ((s.half x).deliver a).inn.stock+((s.half x).deliver a).inn.appRead ≤
      (s.half x).inn.stock+(s.half x).inn.appRead+size a := by
    unfold Half.deliver
    split_ifs
    · exact Receiver.deliver_stock _ a
    · exact Nat.le_add_right _ _
  apply h.step
  intro y
  have hy := pop_due s (!x) (.data a) rest hw y
  rcases Bool.eq_or_eq_not y x with rfl | rfl
  · simp [due, pipe]
  · simp [due, pipe, dataOf] at hy ⊢
    omega

theorem grant_balanced (s : Flow α) (h : Balanced s) (x : Bool) (n : ℕ) :
    Balanced (s.setHalf x ((s.half x).credit n)) := by
  have hc : ((s.half x).credit n).out.load = (s.half x).out.load ∧
      ((s.half x).credit n).out.enqueued = (s.half x).out.enqueued ∧
      ((s.half x).credit n).inn = (s.half x).inn := by
    simp only [Half.credit]
    split_ifs <;> exact ⟨rfl,rfl,rfl⟩
  obtain ⟨hl,he,hi⟩ := hc
  apply h.step
  intro y
  rcases Bool.eq_or_eq_not y x with rfl | rfl
  · simp [due, pipe, hl, he]
  · simp [due, pipe, hi]

theorem handle_balanced (s : Flow α) (h : Balanced s) (ho : Opening s) (x : Bool) (offer : Offer)
    (f : StreamFrame α) (rest : List (StreamFrame α)) (hw : s.wire (!x) = f::rest) :
    Balanced ({ s with wire := Function.update s.wire (!x) rest }.handleFrame x offer f) := by
  have hp := pop_balanced s h (!x) f rest hw
  cases f with
  | openStream =>
    cases offer with
    | accept | ignore => exact hp
    | reject =>
      apply hp.step
      intro y
      rcases Bool.eq_or_eq_not y x with rfl | rfl
      · simp [handleFrame, due, pipe, dataOf]
      · simp [handleFrame, due, pipe]
  | ack ok =>
    simp only [handleFrame]
    split_ifs with hx
    · obtain ⟨hx,-⟩ := Bool.and_eq_true_iff.mp hx
      obtain rfl : x = false := by simpa using hx
      exact register_balanced _ hp false (ack_idle s ho ok rest hw)
    · exact hp
    · exact hp
  | data a => exact deliver_balanced s h x a rest hw
  | credit n =>
    have hg := grant_balanced _ hp x n
    simp only [handleFrame]
    split_ifs
    · exact hg
    · exact hg
  | close =>
    apply hp.step
    intro y
    rcases Bool.eq_or_eq_not y x with rfl | rfl
    · simp [handleFrame, due, pipe, Half.close]
    · simp [handleFrame, due, pipe, Half.close]

theorem init_balanced : Balanced (init : Flow α) := fun _ => le_rfl

theorem emit_balanced (s : Flow α) (h : Balanced s) (x : Bool) (f : Option (StreamFrame α))
    (hf : dataOf f.toList = []) : Balanced (s.emit x f) := by
  apply h.step
  intro y
  rcases eq_or_ne y x with rfl | hne
  · simp [due, pipe, hf]
  · simp [due, pipe, hne]

theorem step_balanced (s : Flow α) (a : Act α) (t : Flow α) (h : Balanced s) (ho : Opening s)
    (hst : s.step a = some t) : Balanced t := by
  cases moves_of_step s t a hst with
  | ask | reply => exact emit_balanced _ h _ _ rfl
  | ship x f cmds hc =>
    apply h.step
    intro y
    rcases eq_or_ne y x with rfl | hne
    · simp [due, pipe, hc]
    · simp [due, pipe, hne]
  | pend => exact h
  | register x hl =>
    cases x with
    | false => exact absurd hl ho.asking
    | true => exact register_balanced s h true (ho.registering hl).1
  | handle x offer f rest hw => exact handle_balanced s h ho x offer f rest hw
  | notify x =>
    apply h.step
    intro y
    rcases Bool.eq_or_eq_not y x with rfl | rfl
    · simp [due, pipe, Sender.notify, Sender.load]
    · simp [due, pipe]
  | send x a out f _ hm => exact send_balanced s h x a out f hm
  | recv x a inn f _ hm => exact recv_balanced s h x _ a inn f hm
  | endLoop x =>
    apply h.step
    intro y
    rcases Bool.eq_or_eq_not y x with rfl | rfl
    · simp [due, pipe, Half.orphan]
    · simp [due, pipe, Half.orphan]

def Windowed (s : Flow α) : Prop := ∀ x, (s.half x).out.Windowed

theorem init_windowed : Windowed (init : Flow α) := fun _ => Sender.absent_windowed

theorem windowed_stable : Half.Stable (fun _ _ => True) (fun h : Half α => h.out.Windowed) where
  register := Sender.spawn_windowed
  deliver h a hw := by rwa [Half.deliver_out]
  credit h n _ hw := by
    simp only [Half.credit]
    split_ifs
    · exact Sender.grant_windowed _ n hw
    · exact hw
  close _ hw := hw
  notify h hw := Sender.notify_windowed _ hw
  send h a out f hm hw := Sender.moves_windowed _ _ a f hw hm
  recv _ _ _ _ _ hw := hw

theorem step_windowed (s : Flow α) (a : Act α) (t : Flow α) (h : Windowed s)
    (hst : s.step a = some t) : Windowed t := by
  intro x
  rcases step_stable windowed_stable s a t hst x (fun _ _ _ _ _ _ => trivial) (h x) with
    hx | ⟨hx,-⟩
  · exact hx
  · rw [hx]
    exact h x

def openStep (s : Flow α) : OpenAct α → Option (Flow α)
  | .code a => s.step a
  | .credit x n => if s.alive x then some (s.emit x (some (.credit n))) else none

structure Bounded (s : Flow α) : Prop where
  opening : Opening s
  balanced : Balanced s
  windowed : Windowed s
  metered : Metered s

theorem init_bounded : Bounded (init : Flow α) :=
  ⟨init_opening,init_balanced,init_windowed,init_metered⟩

theorem openStep_bounded (s : Flow α) (a : OpenAct α) (t : Flow α) (h : Bounded s)
    (hst : s.openStep a = some t) : Bounded t := by
  cases a with
  | code a =>
    constructor
    · exact step_opening s a t h.opening hst
    · exact step_balanced s a t h.balanced h.opening hst
    · exact step_windowed s a t h.windowed hst
    · exact step_metered s a t h.metered hst
  | credit x n =>
    simp only [openStep] at hst
    split_ifs at hst
    cases hst
    constructor
    · apply emit_opening s h.opening x
      · intro c hc
        cases hc
        exact ⟨rfl,rfl⟩
      · intro _ c hc
        cases hc
        rfl
    · exact emit_balanced s h.balanced x _ rfl
    · exact h.windowed
    · exact emit_metered s h.metered x _

/-- In every state of every run the bytes queued and not granted back stay
below the window and one buffer, and so do, if no more was returned to a sender
than the application has read, the bytes between its queue and that application. -/
theorem window_bound (as : List (OpenAct α)) (s : Flow α)
    (hr : run openStep as init = some s) (x : Bool) :
    (s.half x).out.enqueued < (s.half x).out.granted+(recvWindow+bufLen) ∧
      (s.credited (!x) ≤ (s.half (!x)).inn.appRead → s.beyond x < recvWindow+bufLen) := by
  have h : Bounded s := run_preserves openStep_bounded as init s hr init_bounded
  have he := (h.windowed x).enqueued
  have hw := (h.windowed x).window
  refine ⟨by omega,fun hc => ?_⟩
  have hb := h.balanced x
  have hg := h.metered.granted x
  have hp := h.metered.processed (!x)
  rw [Bool.not_not] at hp
  simp only [due] at hb
  simp only [beyond]
  omega

def opened : List (OpenAct Bytes) :=
  [.code .ask,.code (.ship false),.code (.bind false),.code (.handle true .accept),
    .code (.reply true),.code (.ship true),.code (.bind true),.code (.handle false .accept),
    .code (.send false .check),.code (.send false (.chunk [7])),.code (.send false .enqueue)]

def overtaking : List (OpenAct Bytes) :=
  opened++[.credit true 100,.code (.ship true),.code (.handle false .accept),
    .code (.notify false),.code (.send false .count)]

theorem window_bound_overtaking : ∃ s : Flow Bytes, run openStep overtaking init = some s ∧
    (s.half false).out.outstanding = 1 ∧
    (s.half false).out.enqueued < (s.half false).out.granted+(recvWindow+bufLen) :=
  ⟨_,rfl,rfl,(window_bound overtaking _ rfl false).1⟩

end Flow
end Hydr.Stream
