import Mathlib
import Hydr.Library.Notifier
import Hydr.StreamWindow

/-!
# Waiting for the window

`wait_window` looks at the counter before it subscribes, after that, and once more
when its future is enabled; a grant lowers the counter and notifies in two steps.
What a waiter that parks has last seen is a closed window, so that whoever opens it
has yet to notify. The counter is a word, and a sum that wraps opens it unheard.
-/

set_option autoImplicit false

namespace Hydr.StreamCredit
open Hydr.Stream (recvWindow)
open Transition

/-- Where `wait_window` is: before its fast check, at the head of the loop, before
each of the two checks and the `enable` between them, or at the await. -/
inductive Waiter (F : Type) where
  | fast
  | subscribe
  | check (fut : F)
  | enable (fut : F)
  | recheck (fut : F)
  | parked (fut : F)
  | returned

/-- The counter and its notifier, one call of `wait_window`, and the number of the
grants that have lowered the counter and not yet notified. -/
structure State (N : Notifier) where
  outstanding : UInt64
  notify : N.State
  waiter : Waiter N.Future
  granting : ℕ

inductive Act where
  | wait
  | sent (n : UInt64)
  | grant (n : UInt64)
  | notifyWaiters

variable {N : Notifier}

namespace State

def Open (s : State N) : Prop := s.outstanding.toNat < recvWindow

instance (s : State N) : Decidable s.Open := inferInstanceAs (Decidable (_ < _))

def start (outstanding : UInt64) (notify : N.State) (granting : ℕ) : State N :=
  ⟨outstanding,notify,.fast,granting⟩

def look (s : State N) (next : Waiter N.Future) : State N :=
  { s with waiter := if s.Open then .returned else next }

theorem look_open {s : State N} (h : s.Open) (next : Waiter N.Future) :
    s.look next = { s with waiter := .returned } := by
  rw [look, if_pos h]

theorem look_closed {s : State N} (h : ¬s.Open) (next : Waiter N.Future) :
    s.look next = { s with waiter := next } := by
  rw [look, if_neg h]

def wait (s : State N) : Option (State N) :=
  match s.waiter with
  | .fast => some (s.look .subscribe)
  | .subscribe =>
    let (fut,notify) := N.notified s.notify
    some { s with notify := notify, waiter := .check fut }
  | .check fut => some (s.look (.enable fut))
  | .enable fut => some { s with notify := N.enable fut s.notify, waiter := .recheck fut }
  | .recheck fut => some (s.look (.parked fut))
  | .parked fut => if N.woken fut s.notify then some { s with waiter := .subscribe } else none
  | .returned => none

/-- A build that checks for overflow panics in the addition, and the counter stays. -/
def sent (checks : Bool) (s : State N) (n : UInt64) : State N :=
  if checks = true ∧ 2^64 ≤ s.outstanding.toNat+n.toNat then s
  else { s with outstanding := s.outstanding+n }

def grant (s : State N) (n : UInt64) : State N :=
  { s with
    outstanding := if n ≤ s.outstanding then s.outstanding-n else 0
    granting := s.granting+1 }

def notifyWaiters (s : State N) : State N :=
  { s with notify := N.notifyWaiters s.notify, granting := s.granting-1 }

end State

def step (checks : Bool) (s : State N) : Act → Option (State N)
  | .wait => s.wait
  | .sent n => some (s.sent checks n)
  | .grant n => some (s.grant n)
  | .notifyWaiters => if s.granting = 0 then none else some s.notifyWaiters

def Asleep (s : State N) : Prop := ∃ fut, s.waiter = .parked fut ∧ N.woken fut s.notify = false

def Heard (s : State N) : Prop := s.Open → s.granting = 0 → ¬Asleep s

theorem Heard.goes_on {s : State N} (h : Heard s) (ho : s.Open) (hg : s.granting = 0) :
    s.waiter = .returned ∨ ∃ t, s.wait = some t := by
  unfold State.wait
  cases hw : s.waiter with
  | returned => exact Or.inl rfl
  | parked fut =>
    have hn : N.woken fut s.notify = true := by
      by_contra hn
      exact h ho hg ⟨fut,hw,Bool.eq_false_of_not_eq_true hn⟩
    exact Or.inr ⟨_,if_pos hn⟩
  | _ => exact Or.inr ⟨_,rfl⟩

def Fits (checks : Bool) (s : State N) : Act → Prop
  | .sent n => checks = true ∨ s.outstanding.toNat+n.toNat < 2^64
  | _ => True

instance (checks : Bool) (s : State N) (a : Act) : Decidable (Fits checks s a) := by
  cases a with
  | sent n => exact inferInstanceAs (Decidable (_ ∨ _))
  | _ => exact inferInstanceAs (Decidable True)

def Attended (s : State N) : Prop :=
  match s.waiter with
  | .check fut => N.Created fut s.notify
  | .enable fut => N.Created fut s.notify
  | .recheck fut => N.Enabled fut s.notify
  | .parked fut => N.Enabled fut s.notify ∧
      (N.woken fut s.notify = true ∨ ¬s.Open ∨ s.granting ≠ 0)
  | _ => True

theorem start_attended (o : UInt64) (ν : N.State) (k : ℕ) : Attended (State.start o ν k) := trivial

namespace Attended

/-- A step that leaves waiter and notifier alone, and opens the window only with a
grant at work. -/
theorem keep {s t : State N} (h : Attended s) (hw : t.waiter = s.waiter)
    (hn : t.notify = s.notify) (ho : ¬s.Open → ¬t.Open ∨ t.granting ≠ 0)
    (hg : s.granting ≠ 0 → t.granting ≠ 0) : Attended t := by
  unfold Attended at h ⊢
  rw [hw, hn]
  cases hs : s.waiter with
  | parked fut =>
    rw [hs] at h
    refine ⟨h.1,?_⟩
    rcases h.2 with hk | hk | hk
    · exact Or.inl hk
    · exact Or.inr (ho hk)
    · exact Or.inr (Or.inr (hg hk))
  | _ =>
    rw [hs] at h
    exact h

/-- The counter grows, unless the sum wraps. -/
theorem sent {checks : Bool} {s : State N} (h : Attended s) (n : UInt64)
    (hf : Fits checks s (.sent n)) : Attended (s.sent checks n) := by
  unfold State.sent
  by_cases hc : checks = true ∧ 2^64 ≤ s.outstanding.toNat+n.toNat
  · rw [if_pos hc]
    exact h
  · rw [if_neg hc]
    have hlt : s.outstanding.toNat+n.toNat < 2^64 := by
      rcases hf with hf | hf
      · exact Nat.lt_of_not_le fun hn => hc ⟨hf,hn⟩
      · exact hf
    refine h.keep rfl rfl (fun ho => Or.inl ?_) id
    have hsum : (s.outstanding+n).toNat = s.outstanding.toNat+n.toNat := by
      rw [UInt64.toNat_add, Nat.mod_eq_of_lt hlt]
    unfold State.Open at ho ⊢
    dsimp only
    omega

theorem grant {s : State N} (h : Attended s) (n : UInt64) : Attended (s.grant n) :=
  h.keep rfl rfl (fun _ => Or.inr (Nat.succ_ne_zero _)) fun _ => Nat.succ_ne_zero _

/-- Whoever awaits is woken, and whoever is about to look again will look. -/
theorem notifyWaiters {s : State N} (h : Attended s) : Attended s.notifyWaiters := by
  unfold Attended at h
  unfold Attended State.notifyWaiters
  cases hs : s.waiter with
  | check fut =>
    rw [hs] at h
    exact N.created_notifyWaiters fut s.notify h
  | enable fut =>
    rw [hs] at h
    exact N.created_notifyWaiters fut s.notify h
  | recheck fut =>
    rw [hs] at h
    exact N.enabled_notifyWaiters fut s.notify h
  | parked fut =>
    rw [hs] at h
    exact ⟨N.enabled_notifyWaiters fut s.notify h.1,Or.inl (N.woken_notifyWaiters fut s.notify h.1)⟩
  | _ => trivial

theorem look {s : State N} {next : Waiter N.Future}
    (h : ¬s.Open → Attended { s with waiter := next }) : Attended (s.look next) := by
  by_cases ho : s.Open
  · rw [State.look_open ho]
    trivial
  · rw [State.look_closed ho]
    exact h ho

/-- The waiter parks only after it has looked with its future enabled. -/
theorem wait {s t : State N} (h : Attended s) (hst : s.wait = some t) : Attended t := by
  unfold State.wait at hst
  unfold Attended at h
  cases hs : s.waiter with
  | fast =>
    rw [hs] at hst
    cases hst
    exact look fun _ => trivial
  | subscribe =>
    rw [hs] at hst
    cases hst
    exact N.created_notified s.notify
  | check fut =>
    rw [hs] at hst h
    cases hst
    exact look fun _ => h
  | enable fut =>
    rw [hs] at hst h
    cases hst
    exact N.enabled_enable fut s.notify h
  | recheck fut =>
    rw [hs] at hst h
    cases hst
    exact look fun ho => ⟨h,Or.inr (Or.inl ho)⟩
  | parked fut =>
    rw [hs] at hst
    dsimp only at hst
    split_ifs at hst
    cases hst
    trivial
  | returned =>
    rw [hs] at hst
    cases hst

end Attended

theorem step_attended (checks : Bool) (s : State N) (a : Act) (t : State N) (h : Attended s)
    (hf : Fits checks s a) (hst : step checks s a = some t) : Attended t := by
  cases a with
  | wait => exact h.wait hst
  | sent n =>
    cases hst
    exact h.sent n hf
  | grant n =>
    cases hst
    exact h.grant n
  | notifyWaiters =>
    simp only [step] at hst
    split_ifs at hst
    cases hst
    exact h.notifyWaiters

theorem Attended.heard {s : State N} (h : Attended s) : Heard s := by
  rintro ho hg ⟨fut,hw,hn⟩
  simp only [Attended, hw] at h
  rcases h.2 with h | h | h
  · rw [h] at hn
    cases hn
  · exact h ho
  · exact h hg

/-- As long as no sum wraps the counter, the waiter is never asleep with the window
open and no grant at work; a build that checks for overflow needs no proviso. -/
theorem no_lost_wakeup (N : Notifier) (checks : Bool) (o : UInt64) (ν : N.State) (k : ℕ)
    (as : List Act) (s : State N) (hf : Meets (step checks) (Fits checks) as (.start o ν k))
    (hr : run (step checks) as (.start o ν k) = some s) : Heard s :=
  (run_preserves_where (step_attended checks) as _ s hf hr (start_attended o ν k)).heard

def fresh : State Notifier.counting := .start 0 Nat.zero 0

def granted : List Act :=
  [.sent 524288,.wait,.wait,.wait,.wait,.wait,.grant 1,.notifyWaiters]

theorem granted_heard : ∃ s, run (step false) granted fresh = some s ∧
    s.Open ∧ s.granting = 0 ∧ Heard s := by
  have hr : ∃ s, run (step false) granted fresh = some s ∧
      s.Open ∧ s.granting = 0 := ⟨_,rfl,by decide,rfl⟩
  obtain ⟨s,hr,ho,hg⟩ := hr
  have hf : Meets (step false) (Fits false) granted fresh := by
    decide
  exact ⟨s,hr,ho,hg,no_lost_wakeup _ false 0 _ 0 granted s hf hr⟩

def wrapped : List Act :=
  [.sent 524288,.wait,.wait,.wait,.wait,.wait,.sent 18446744073709027328]

theorem wrapped_sum_unheard : ¬∀ (N : Notifier) (checks : Bool) (o : UInt64) (ν : N.State) (k : ℕ)
    (as : List Act) (s : State N), run (step checks) as (.start o ν k) = some s → Heard s := by
  intro h
  have hr : ∃ s, run (step false) wrapped fresh = some s ∧
      s.Open ∧ s.granting = 0 ∧ Asleep s := ⟨_,rfl,by decide,rfl,_,rfl,rfl⟩
  obtain ⟨s,hr,ho,hg,ha⟩ := hr
  exact h _ false 0 _ 0 wrapped s hr ho hg ha

section
open Hydr.Stream (Pump Wait Sender bufLen)

def waiterOf {α : Type} : Pump α → Waiter Notifier.flag.Future
  | .wait .fast => .fast
  | .wait .subscribe => .subscribe
  | .wait .recheck => .check ()
  | .wait .enable => .enable ()
  | .wait .finalCheck => .recheck ()
  | .wait .parked => .parked ()
  | _ => .returned

def view {α : Type} (k : ℕ) (s : Sender α) : State Notifier.flag :=
  ⟨UInt64.ofNat s.outstanding,s.notified,waiterOf s.pump,k⟩

theorem view_toNat {α : Type} (k : ℕ) (s : Sender α) (h : s.outstanding < 2^64) :
    (view k s).outstanding.toNat = s.outstanding := by
  rw [view, UInt64.toNat_ofNat', Nat.mod_eq_of_lt h]

theorem look_view {α : Type} (k : ℕ) (s : Sender α) (w : Wait) (h : s.outstanding < 2^64) :
    (view k s).look (waiterOf (.wait w : Pump α)) = view k (s.checkWindow w) := by
  have ho : (view k s).Open ↔ s.outstanding < recvWindow := by
    unfold State.Open
    rw [view_toNat k s h]
  unfold Sender.checkWindow
  by_cases hw : s.outstanding < recvWindow
  · rw [State.look_open (ho.mpr hw), if_pos hw]
    rfl
  · rw [State.look_closed fun hn => hw (ho.mp hn), if_neg hw]
    rfl

/-- The pump's checks are the steps of the call. -/
theorem check_view {α : Type} (k : ℕ) (s : Sender α) (w : Wait) (hp : s.pump = .wait w)
    (h : s.outstanding < 2^64) : (view k s).wait = (s.check w).map (view k) := by
  have hw : (view k s).waiter = waiterOf (.wait w : Pump α) := congrArg waiterOf hp
  unfold State.wait
  rw [hw]
  cases w with
  | fast => exact congrArg some (look_view k s .subscribe h)
  | recheck => exact congrArg some (look_view k s .enable h)
  | finalCheck => exact congrArg some (look_view k s .parked h)
  | subscribe => rfl
  | enable => rfl
  | parked =>
    unfold Sender.check
    by_cases hn : s.notified = true
    · rw [if_pos hn]
      exact if_pos hn
    · rw [if_neg hn]
      exact if_neg hn

/-- No sum of the pump wraps: it counts a chunk only after its call has returned. -/
theorem count_fits {α : Type} [Chunk α] (k : ℕ) (s : Sender α) (n : ℕ) (h : s.Windowed)
    (hp : s.pump = .count n) : Fits false (view k s) (.sent (UInt64.ofNat n)) := by
  have hw := h.window
  rw [hp] at hw
  have hs : s.outstanding+n < recvWindow+bufLen := hw
  unfold recvWindow bufLen at hs
  refine Or.inr ?_
  rw [view_toNat k s (by omega), UInt64.toNat_ofNat', Nat.mod_eq_of_lt (by omega)]
  omega

end

end Hydr.StreamCredit
