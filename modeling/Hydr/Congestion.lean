import Mathlib

/-!
# The window of the brutal congestion control

The window is the rate times the round trip, kept between two bounds. The
product is formed in 128 bits and its quotient cut to 64 before the bounds are
applied, so that a setting fast enough wraps around to a small window.
-/

set_option autoImplicit false

namespace Hydr.Congestion

def minWindowBytes : ℕ := 2*1200
def maxWindowBytes : ℕ := 64*1024*1024

structure Duration where
  secs : UInt64
  subsecNanos : ℕ
  bounded : subsecNanos < 10^9

def Duration.asNanos (d : Duration) : ℕ := d.secs.toNat*10^9+d.subsecNanos

def clamp (w : ℕ) : ℕ := max minWindowBytes (min w maxWindowBytes)

def product (rateBps : UInt64) (rtt : Duration) : ℕ := rateBps.toNat/8*rtt.asNanos

def Overflows (checks : Bool) (rateBps : UInt64) (rtt : Duration) : Prop :=
  checks = true ∧ 2^128 ≤ product rateBps rtt

instance (checks : Bool) (rateBps : UInt64) (rtt : Duration) :
    Decidable (Overflows checks rateBps rtt) := inferInstanceAs (Decidable (_ ∧ _))

def wrapped (rateBps : UInt64) (rtt : Duration) : ℕ := product rateBps rtt%2^128/10^9%2^64

def windowFor (checks : Bool) (rateBps : UInt64) (rtt : Duration) : Option ℕ :=
  if Overflows checks rateBps rtt then none else some (clamp (wrapped rateBps rtt))

def idealWindow (rateBps : UInt64) (rtt : Duration) : ℕ := clamp (product rateBps rtt/10^9)

def Fits (checks : Bool) (rateBps : UInt64) (rtt : Duration) : Prop :=
  rateBps.toNat/8*rtt.asNanos/10^9 < 2^64 ∨
    (checks = true → rateBps.toNat/8*rtt.asNanos < 2^128) ∧
      maxWindowBytes ≤ rateBps.toNat/8*rtt.asNanos%2^128/10^9%2^64

structure BrutalController where
  rateBps : UInt64
  window : ℕ
  mtu : UInt16

inductive Event where
  | onAck (rtt : Duration)
  | onCongestionEvent
  | onMtuUpdate (newMtu : UInt16)

def guessedRtt : Duration := ⟨0,50*10^6,by norm_num⟩

namespace BrutalController

def new (checks : Bool) (rateBps : UInt64) (mtu : UInt16) : Option BrutalController :=
  (windowFor checks rateBps guessedRtt).map fun window => ⟨rateBps,window,mtu⟩

def handle (checks : Bool) (c : BrutalController) : Event → Option BrutalController
  | .onAck rtt => (windowFor checks c.rateBps rtt).map fun window => { c with window := window }
  | .onCongestionEvent => some c
  | .onMtuUpdate newMtu => some { c with mtu := newMtu }

def run (checks : Bool) : BrutalController → List Event → Option BrutalController
  | c, [] => some c
  | c, e::es => (c.handle checks e).bind fun d => run checks d es

def currentWindow (c : BrutalController) : ℕ := max c.window (c.mtu.toNat*2)

end BrutalController

def lastRtt : Duration → List Event → Duration
  | r, [] => r
  | _, .onAck rtt::es => lastRtt rtt es
  | r, _::es => lastRtt r es

def lastMtu : UInt16 → List Event → UInt16
  | m, [] => m
  | _, .onMtuUpdate newMtu::es => lastMtu newMtu es
  | m, _::es => lastMtu m es

def Unchecked (checks : Bool) (rateBps : UInt64) (es : List Event) : Prop :=
  ∀ rtt, Event.onAck rtt ∈ es → ¬Overflows checks rateBps rtt

theorem clamp_mono {v w : ℕ} (h : v ≤ w) : clamp v ≤ clamp w := by
  unfold clamp
  omega

theorem clamp_eq_max {w : ℕ} : clamp w = maxWindowBytes ↔ maxWindowBytes ≤ w := by
  unfold clamp minWindowBytes maxWindowBytes
  omega

theorem product_lt {rateBps : UInt64} {rtt : Duration} (h : product rateBps rtt/10^9 < 2^64) :
    product rateBps rtt < 2^128 := by
  omega

theorem wrapped_of_lt {rateBps : UInt64} {rtt : Duration} (h : product rateBps rtt/10^9 < 2^64) :
    wrapped rateBps rtt = product rateBps rtt/10^9 := by
  rw [wrapped, Nat.mod_eq_of_lt (product_lt h), Nat.mod_eq_of_lt h]

theorem clamp_wrapped_iff (checks : Bool) (rateBps : UInt64) (rtt : Duration) :
    ¬Overflows checks rateBps rtt ∧ clamp (wrapped rateBps rtt) = idealWindow rateBps rtt ↔
      Fits checks rateBps rtt := by
  by_cases h : product rateBps rtt/10^9 < 2^64
  · have hn : ¬Overflows checks rateBps rtt :=
      fun ho => absurd (product_lt h) (Nat.not_lt.mpr ho.2)
    rw [idealWindow, wrapped_of_lt h]
    exact ⟨fun _ => Or.inl h,fun _ => ⟨hn,rfl⟩⟩
  · have hi : idealWindow rateBps rtt = maxWindowBytes :=
      clamp_eq_max.mpr (by unfold maxWindowBytes; omega)
    rw [hi, clamp_eq_max, Overflows, not_and, Nat.not_le]
    exact ⟨Or.inr,fun hf => hf.resolve_left h⟩

theorem windowFor_iff (checks : Bool) (rateBps : UInt64) (rtt : Duration) :
    windowFor checks rateBps rtt = some (idealWindow rateBps rtt) ↔ Fits checks rateBps rtt := by
  rw [← clamp_wrapped_iff, windowFor]
  by_cases ho : Overflows checks rateBps rtt
  · simp [ho]
  · simp [ho]

theorem idealWindow_mono {rate rate' : UInt64} {rtt rtt' : Duration} (hr : rate ≤ rate')
    (ht : rtt.asNanos ≤ rtt'.asNanos) : idealWindow rate rtt ≤ idealWindow rate' rtt' := by
  have hb : rate.toNat/8 ≤ rate'.toNat/8 := Nat.div_le_div_right (UInt64.le_iff_toNat_le.mp hr)
  exact clamp_mono (Nat.div_le_div_right (Nat.mul_le_mul hb ht))

theorem guessedRtt_fits (checks : Bool) (rateBps : UInt64) : Fits checks rateBps guessedRtt := by
  have hr := rateBps.toNat_lt
  refine Or.inl ?_
  unfold guessedRtt Duration.asNanos
  norm_num
  omega

namespace BrutalController

def tuned (rateBps : UInt64) (rtt : Duration) (mtu : UInt16) : BrutalController :=
  ⟨rateBps,clamp (wrapped rateBps rtt),mtu⟩

theorem new_eq (checks : Bool) (rateBps : UInt64) (mtu : UInt16) :
    new checks rateBps mtu = some (tuned rateBps guessedRtt mtu) := by
  have hn := ((clamp_wrapped_iff checks rateBps guessedRtt).mpr (guessedRtt_fits checks rateBps)).1
  rw [new, windowFor, if_neg hn]
  rfl

variable {checks : Bool} {rateBps : UInt64}

theorem handle_ack (rtt r : Duration) (mtu : UInt16) :
    (tuned rateBps rtt mtu).handle checks (.onAck r) =
      if Overflows checks rateBps r then none else some (tuned rateBps r mtu) := by
  by_cases ho : Overflows checks rateBps r <;> simp [handle, windowFor, tuned, ho]

theorem unchecked_ack (r : Duration) (es : List Event) :
    Unchecked checks rateBps (.onAck r::es) ↔
      ¬Overflows checks rateBps r ∧ Unchecked checks rateBps es := by
  simp [Unchecked]

theorem unchecked_other (e : Event) (es : List Event) (he : ∀ r, e ≠ .onAck r) :
    Unchecked checks rateBps (e::es) ↔ Unchecked checks rateBps es := by
  simp [Unchecked, fun r => (he r).symm]

/-- Only an acknowledgement moves the window, and only to its own round trip's. -/
theorem run_tuned (rtt : Duration) (mtu : UInt16) (es : List Event)
    (h : Unchecked checks rateBps es) :
    (tuned rateBps rtt mtu).run checks es =
      some (tuned rateBps (lastRtt rtt es) (lastMtu mtu es)) := by
  induction es generalizing rtt mtu with
  | nil => rfl
  | cons e es ih =>
    cases e with
    | onAck r =>
      obtain ⟨hn,hr⟩ := (unchecked_ack r es).mp h
      rw [run, handle_ack, if_neg hn]
      exact ih r mtu hr
    | onCongestionEvent => exact ih rtt mtu ((unchecked_other _ es (by simp)).mp h)
    | onMtuUpdate m => exact ih rtt m ((unchecked_other _ es (by simp)).mp h)

theorem run_overflow (rtt : Duration) (mtu : UInt16) (es : List Event)
    (h : ¬Unchecked checks rateBps es) : (tuned rateBps rtt mtu).run checks es = none := by
  induction es generalizing rtt mtu with
  | nil => exact absurd (fun r hm => absurd hm List.not_mem_nil) h
  | cons e es ih =>
    cases e with
    | onAck r =>
      by_cases ho : Overflows checks rateBps r
      · rw [run, handle_ack, if_pos ho]
        rfl
      · rw [run, handle_ack, if_neg ho]
        exact ih r mtu fun hu => h ((unchecked_ack r es).mpr ⟨ho,hu⟩)
    | onCongestionEvent => exact ih rtt mtu fun hu => h ((unchecked_other _ es (by simp)).mpr hu)
    | onMtuUpdate m => exact ih rtt m fun hu => h ((unchecked_other _ es (by simp)).mpr hu)

/-- Twice the MTU never reaches the upper bound, so it hides no wrong window. -/
theorem max_mtu_inj {v w : ℕ} (h : w = maxWindowBytes ∨ v = w) (mtu : UInt16) :
    max v (mtu.toNat*2) = max w (mtu.toNat*2) ↔ v = w := by
  have hm := mtu.toNat_lt
  unfold maxWindowBytes at h
  omega

theorem ideal_or_wrapped (rtt : Duration) : idealWindow rateBps rtt = maxWindowBytes ∨
    clamp (wrapped rateBps rtt) = idealWindow rateBps rtt := by
  by_cases h : product rateBps rtt/10^9 < 2^64
  · exact Or.inr (by rw [idealWindow, wrapped_of_lt h])
  · exact Or.inl (clamp_eq_max.mpr (by unfold maxWindowBytes; omega))

def windowAfter (checks : Bool) (rateBps : UInt64) (mtu : UInt16) (es : List Event) : Option ℕ :=
  ((new checks rateBps mtu).bind fun c => c.run checks es).map currentWindow

theorem lastRtt_checked (rtt : Duration) (es : List Event) (h : Unchecked checks rateBps es)
    (hr : ¬Overflows checks rateBps rtt) : ¬Overflows checks rateBps (lastRtt rtt es) := by
  induction es generalizing rtt with
  | nil => exact hr
  | cons e es ih =>
    cases e with
    | onAck r =>
      obtain ⟨hn,hu⟩ := (unchecked_ack r es).mp h
      exact ih r hu hn
    | onCongestionEvent => exact ih rtt ((unchecked_other _ es (by simp)).mp h) hr
    | onMtuUpdate m => exact ih rtt ((unchecked_other _ es (by simp)).mp h) hr

theorem windowAfter_iff (mtu : UInt16) (es : List Event) :
    windowAfter checks rateBps mtu es =
        some (max (idealWindow rateBps (lastRtt guessedRtt es)) ((lastMtu mtu es).toNat*2)) ↔
      Unchecked checks rateBps es ∧ Fits checks rateBps (lastRtt guessedRtt es) := by
  by_cases hu : Unchecked checks rateBps es
  · have hg := ((clamp_wrapped_iff checks rateBps guessedRtt).mpr (guessedRtt_fits checks rateBps)).1
    have hn := lastRtt_checked guessedRtt es hu hg
    rw [windowAfter, new_eq, Option.bind_some, run_tuned _ _ _ hu, Option.map_some, currentWindow,
      Option.some_inj, tuned, max_mtu_inj (ideal_or_wrapped _), ← clamp_wrapped_iff]
    exact ⟨fun hw => ⟨hu,hn,hw⟩,fun hw => hw.2.2⟩
  · rw [windowAfter, new_eq, Option.bind_some, run_overflow _ _ _ hu]
    simp [hu]

end BrutalController

open BrutalController

/-- The code's window is the integers' one exactly where the quotient survives
the two cuts; there it grows with the rate and with the round trip, and a
connection has it after any events. -/
theorem window_iff (checks : Bool) :
    (∀ rate rtt, windowFor checks rate rtt = some (idealWindow rate rtt) ↔ Fits checks rate rtt) ∧
    (∀ rate rate' rtt rtt', rate ≤ rate' → rtt.asNanos ≤ rtt'.asNanos →
      Fits checks rate rtt → Fits checks rate' rtt' →
      ∃ w w', windowFor checks rate rtt = some w ∧ windowFor checks rate' rtt' = some w' ∧ w ≤ w') ∧
    ∀ rate mtu es, windowAfter checks rate mtu es =
        some (max (idealWindow rate (lastRtt guessedRtt es)) ((lastMtu mtu es).toNat*2)) ↔
      Unchecked checks rate es ∧ Fits checks rate (lastRtt guessedRtt es) := by
  refine ⟨windowFor_iff checks,?_,fun rate mtu es => windowAfter_iff mtu es⟩
  intro rate rate' rtt rtt' hr ht h h'
  exact ⟨_,_,(windowFor_iff checks rate rtt).mpr h,(windowFor_iff checks rate' rtt').mpr h',
    idealWindow_mono hr ht⟩

/-- A tenth of a second at eight megabits, and before the first acknowledgement. -/
theorem ordinary_window : windowFor true 8000000 ⟨0,10^8,by norm_num⟩ = some 100000 ∧
    windowAfter true 8000000 1200 [] = some 50000 := by
  have h1 : idealWindow 8000000 ⟨0,10^8,by norm_num⟩ = 100000 := by decide
  have h2 : max (idealWindow 8000000 guessedRtt) ((1200 : UInt16).toNat*2) = 50000 := by decide
  have hw := ((window_iff true).1 8000000 ⟨0,10^8,by norm_num⟩).mpr (Or.inl (by decide))
  have ha := ((window_iff true).2.2 8000000 1200 []).mpr
    ⟨fun _ h => absurd h List.not_mem_nil,guessedRtt_fits true 8000000⟩
  rw [h1] at hw
  rw [lastRtt, lastMtu, h2] at ha
  exact ⟨hw,ha⟩

/-- At half the largest rate a round trip of sixteen seconds gives the smallest window. -/
theorem fastest_is_smallest :
    ¬(∀ rate rtt, windowFor false rate rtt = some (idealWindow rate rtt)) ∧
    ¬∀ rate rtt, windowFor true rate rtt = some (idealWindow rate rtt) := by
  have hp : product 9223372036854775808 ⟨16,0,by norm_num⟩ = 2^64*10^9 := by decide
  have hf (checks : Bool) : ¬Fits checks 9223372036854775808 ⟨16,0,by norm_num⟩ := by
    unfold Fits maxWindowBytes
    rw [show (9223372036854775808 : UInt64).toNat/8*(⟨16,0,by norm_num⟩ : Duration).asNanos =
      2^64*10^9 from hp]
    norm_num
  exact ⟨fun h => hf false ((windowFor_iff false _ _).mp (h _ _)),
    fun h => hf true ((windowFor_iff true _ _).mp (h _ _))⟩

end Hydr.Congestion
