import Mathlib
import Hydr.RateLimit
import Hydr.Library.Mealy

/-!
# The limiter against its history

The limiter prunes the instants of an address only when that address calls, so
that its table holds old instants of every other. What it answers is decided by
the history alone: by the earlier calls of the address that it allowed and that
still count.
-/

set_option autoImplicit false

namespace Hydr.RateLimit
open State
open Address (IpAddr)

structure Call where
  ip : IpAddr
  now : ℕ

def call (m : Attempts) (c : Call) : Bool × Attempts := rateAllow m c.ip c.now

def noAttempts : Attempts := fun _ => []

def answers (cs : List Call) : List Bool := Mealy.answers call noAttempts cs

def Ordered (cs : List Call) : Prop := cs.Pairwise fun c d => c.now ≤ d.now

def spends (ip : IpAddr) (now : ℕ) (x : Call × Bool) : Bool :=
  x.2 ∧ x.1.ip = ip ∧ counts now x.1.now

def spent (before : List Call) (c : Call) : ℕ :=
  (before.zip (answers before)).countP (spends c.ip c.now)

def Alike (ip : IpAddr) (now : ℕ) (m n : Attempts) : Prop :=
  (m ip).filter (counts now) = (n ip).filter (counts now)

theorem rateAllow_answer (m : Attempts) (ip : IpAddr) (now : ℕ) :
    (rateAllow m ip now).1 = decide (((m ip).filter (counts now)).length < authMaxPerIp) := by
  by_cases h : authMaxPerIp ≤ ((m ip).filter (counts now)).length
  · rw [rateAllow, if_pos h, decide_eq_false (Nat.not_lt.mpr h)]
  · rw [rateAllow, if_neg h, decide_eq_true (Nat.lt_of_not_le h)]

theorem Alike.later {ip : IpAddr} {now later : ℕ} {m n : Attempts} (h : Alike ip now m n)
    (hl : now ≤ later) : Alike ip later m n := by
  rw [Alike, ← filter_later hl (m ip), ← filter_later hl (n ip), h]

theorem Alike.answer {c : Call} {m n : Attempts} (h : Alike c.ip c.now m n) :
    (call m c).1 = (call n c).1 := by
  rw [call, call, rateAllow_answer, rateAllow_answer, h]

theorem Alike.call {ip : IpAddr} {c : Call} {m n : Attempts} (h : Alike ip c.now m n) :
    Alike ip c.now (RateLimit.call m c).2 (RateLimit.call n c).2 := by
  unfold Alike
  by_cases hk : ip = c.ip
  · subst hk
    have ha : (rateAllow m c.ip c.now).1 = (rateAllow n c.ip c.now).1 := h.answer
    rw [RateLimit.call, RateLimit.call, rateAllow_counts, rateAllow_counts, h, ha]
  · rw [RateLimit.call, RateLimit.call, rateAllow_counts, rateAllow_counts, h]
    simp [hk]

theorem Alike.after {ip : IpAddr} {now later : ℕ} {m n : Attempts} (h : Alike ip now m n)
    (cs : List Call) (ho : Ordered cs) (hs : ∀ c ∈ cs, now ≤ c.now ∧ c.now ≤ later)
    (hl : now ≤ later) : Alike ip later (Mealy.after RateLimit.call m cs)
      (Mealy.after RateLimit.call n cs) := by
  induction cs generalizing m n now with
  | nil => exact h.later hl
  | cons c cs ih =>
    obtain ⟨hf,ho⟩ := List.pairwise_cons.mp ho
    obtain ⟨hc,hb⟩ := hs c (List.mem_cons_self ..)
    have hr : ∀ d ∈ cs, c.now ≤ d.now ∧ d.now ≤ later :=
      fun d hd => ⟨hf d hd,(hs d (List.mem_cons_of_mem _ hd)).2⟩
    exact ih (h.later hc).call ho hr hb

/-- A denied call leaves every address alike, an allowed one every other. -/
theorem call_alike (m : Attempts) (c : Call) (ip : IpAddr)
    (h : (call m c).1 = false ∨ ip ≠ c.ip) : Alike ip c.now (call m c).2 m := by
  have hn : ¬(ip = c.ip ∧ (rateAllow m c.ip c.now).1 = true) := by
    rintro ⟨hi,ht⟩
    rcases h with hf | hne
    · exact absurd (hf.symm.trans ht) Bool.false_ne_true
    · exact hne hi
  rw [Alike, call, rateAllow_counts, if_neg hn, List.append_nil]

theorem after_counts (m : Attempts) (cs : List Call) (ip : IpAddr) (now : ℕ)
    (h : ∀ c ∈ cs, c.now ≤ now) :
    ((Mealy.after call m cs) ip).filter (counts now) = (m ip).filter (counts now)++
      ((cs.zip (Mealy.answers call m cs)).filter (spends ip now)).map fun x => x.1.now := by
  induction cs generalizing m with
  | nil => simp [Mealy.after, Mealy.answers]
  | cons c cs ih =>
    have hc := h c (List.mem_cons_self ..)
    have hr := rateAllow_counts m c.ip c.now ip
    rw [Mealy.after, ih _ fun d hd => h d (List.mem_cons_of_mem _ hd), Mealy.answers,
      List.zip_cons_cons, ← filter_later hc ((call m c).2 ip), call, hr, List.filter_append,
      filter_later hc, List.append_assoc, List.filter_cons]
    congr 1
    by_cases hs : ip = c.ip ∧ (rateAllow m c.ip c.now).1 = true
    · obtain ⟨rfl,ha⟩ := hs
      by_cases hn : counts now c.now = true <;> simp [spends, ha, hn]
    · have hp : spends ip now (c,(rateAllow m c.ip c.now).1) = false := by
        simp only [spends, decide_eq_false_iff_not]
        exact fun hx => hs ⟨hx.2.1.symm,hx.1⟩
      rw [if_neg hs, hp]
      simp

theorem call_answer (before : List Call) (c : Call) (h : ∀ d ∈ before, d.now ≤ c.now) :
    (call (Mealy.after call noAttempts before) c).1 = decide (spent before c < authMaxPerIp) := by
  have hl : ((Mealy.after call noAttempts before c.ip).filter (counts c.now)).length =
      spent before c := by
    rw [after_counts noAttempts before c.ip c.now h, spent, List.countP_eq_length_filter]
    simp [noAttempts, answers]
  rw [call, rateAllow_answer, hl]

section
variable {before after : List Call} {c : Call}

theorem ordered_parts (h : Ordered (before++c::after)) :
    (∀ d ∈ before, d.now ≤ c.now) ∧ (∀ d ∈ after, c.now ≤ d.now) ∧ Ordered after := by
  obtain ⟨-,hc,hb⟩ := List.pairwise_append.mp h
  obtain ⟨ha,ho⟩ := List.pairwise_cons.mp hc
  exact ⟨fun d hd => hb d hd c (List.mem_cons_self ..),ha,ho⟩

theorem answers_at : (answers (before++c::after))[before.length]? =
    some (call (Mealy.after call noAttempts before) c).1 := by
  rw [answers, Mealy.answers_getElem?]
  simp

/-- Without the call, later ones of an address are answered as with it. -/
theorem answers_without (h : Ordered (before++c::after)) (i : ℕ) (d : Call)
    (hd : after[i]? = some d)
    (hc : (call (Mealy.after call noAttempts before) c).1 = false ∨ d.ip ≠ c.ip) :
    (answers (before++c::after))[before.length+1+i]? = (answers (before++after))[before.length+i]? := by
  obtain ⟨-,ha,ho⟩ := ordered_parts h
  have hl : (before++c::after).take (before.length+1+i) = before++c::after.take i := by
    rw [Nat.add_assoc, List.take_length_add_append, Nat.add_comm 1 i, List.take_succ_cons]
  have hr : (before++after).take (before.length+i) = before++after.take i :=
    List.take_length_add_append i
  have hx : (before++c::after)[before.length+1+i]? = some d := by
    rw [Nat.add_assoc, List.getElem?_append_right (by omega)]
    simp [hd, Nat.add_comm 1 i]
  have hy : (before++after)[before.length+i]? = some d := by
    rw [List.getElem?_append_right (by omega)]
    simp [hd]
  have hto : Ordered (after.take i) := ho.sublist (List.take_sublist i after)
  have hs : ∀ e ∈ after.take i, c.now ≤ e.now ∧ e.now ≤ d.now := by
    intro e he
    refine ⟨ha e (List.mem_of_mem_take he),?_⟩
    obtain ⟨hi,rfl⟩ := List.getElem?_eq_some_iff.mp hd
    have hsplit : Ordered (after.take i++after[i]::after.drop (i+1)) := by
      rw [← List.drop_eq_getElem_cons hi, List.take_append_drop]
      exact ho
    exact (ordered_parts hsplit).1 e he
  have hdc : c.now ≤ d.now := ha d (List.mem_of_getElem? hd)
  have hal := (call_alike _ c d.ip hc).after (after.take i) hto hs hdc
  rw [answers, answers, Mealy.answers_getElem?, Mealy.answers_getElem?, hl, hr, hx, hy,
    Mealy.after_append, Mealy.after_append, Option.map_some, Option.map_some]
  rw [Mealy.after, hal.answer]

end

/-- A call is allowed exactly when fewer than the limit count against it; a call
that is denied changes no later answer, an allowed one none of another address. -/
theorem sliding_window (before after : List Call) (c : Call) (h : Ordered (before++c::after)) :
    (answers (before++c::after))[before.length]? = some (decide (spent before c < authMaxPerIp)) ∧
    ((answers (before++c::after))[before.length]? = some false →
      (answers (before++c::after)).drop (before.length+1) = (answers (before++after)).drop before.length) ∧
    ∀ i d, after[i]? = some d → d.ip ≠ c.ip →
      (answers (before++c::after))[before.length+1+i]? = (answers (before++after))[before.length+i]? := by
  have hb := (ordered_parts h).1
  refine ⟨?_,?_,?_⟩
  · rw [answers_at, call_answer before c hb]
  · intro hf
    rw [answers_at] at hf
    apply List.ext_getElem?
    intro i
    rw [List.getElem?_drop, List.getElem?_drop]
    cases hd : after[i]? with
    | some d => exact answers_without h i d hd (Or.inl (Option.some.inj hf))
    | none =>
      have hl := List.getElem?_eq_none_iff.mp hd
      have hx : (before++c::after)[before.length+1+i]? = none :=
        List.getElem?_eq_none (by simp; omega)
      have hy : (before++after)[before.length+i]? = none := List.getElem?_eq_none (by simp; omega)
      rw [answers, answers, Mealy.answers_getElem?, Mealy.answers_getElem?, hx, hy]
      rfl
  · intro i d hd hne
    exact answers_without h i d hd (Or.inr hne)

def visitor : Call := ⟨.v4 ⟨[192,0,2,1],rfl⟩,0⟩

/-- The first of more calls in one instant than the limit allows. -/
theorem flood_denied : (answers (List.replicate 30 visitor++[visitor]))[30]? = some false := by
  have hs : spent (List.replicate 30 visitor) visitor = 30 := by decide
  have ho : Ordered (List.replicate 30 visitor++[visitor]) := by
    unfold Ordered
    decide
  have h := (sliding_window (List.replicate 30 visitor) [] visitor ho).1
  rw [hs, List.length_replicate] at h
  exact h

end Hydr.RateLimit
