import Mathlib
import Hydr.StreamProgress

/-!
# A half-closed stream

The StreamClose of one direction makes the loop forget the counter of the
other. A credit that comes later lowers nothing, and the pump that waits for it
waits for ever. As long as credits come first, each of them lowers the counter
and no pump is stuck.
-/

set_option autoImplicit false

namespace Hydr.Stream.Flow
open Chunk Transition

variable {α : Type}

def Stuck (s : Flow α) (x : Bool) : Prop :=
  (s.half x).out.pump = .wait .parked ∧ (s.half x).out.notified = false ∧
    (s.half (!x)).inn.appRead = (s.half x).out.enqueued ∧
    (s.half x).processed = (s.half (!x)).inn.returned ∧ s.loop x ≠ .granting ∧
    (s.half (!x)).inn.pending < creditBatch

def Receives (s : Flow α) (a : Act α) (x : Bool) (n : ℕ) : Prop :=
  ∃ offer rest, a = .handle x offer ∧ s.loop x = .free ∧ s.wire (!x) = .credit n::rest ∧
    (s.half x).out.pump.running = true

def CreditsFirst (s : Flow α) (a : Act α) : Prop :=
  ∀ x n, Receives s a x n → (s.half x).closeSeen = false

def Upheld (s : Flow α) : Prop :=
  ∀ x, (s.half x).out.pump.running = true → (s.half x).out.granted = (s.half x).processed

theorem running_absent (p : Pump α) (h : p.running = true) : p ≠ .absent := by
  rintro rfl
  cases h

variable [Chunk α]

def Lowers (s : Flow α) (a : Act α) : Prop :=
  ∀ x n t, Receives s a x n → s.step a = some t →
    (t.half x).out.outstanding < (s.half x).out.outstanding

theorem receives_step (s : Flow α) (a : Act α) (x : Bool) (n : ℕ) (h : Receives s a x n) :
    ∃ t, s.step a = some t ∧ t.half x = (s.half x).credit n := by
  obtain ⟨offer,rest,rfl,hl,hw,-⟩ := h
  refine ⟨_,by simp only [step, hw, hl, if_true]; rfl,?_⟩
  simp only [handleFrame]
  split_ifs <;> simp

theorem receives_entry (s : Flow α) (h : Progress s) (a : Act α) (x : Bool) (n : ℕ)
    (hr : Receives s a x n) (hs : (s.half x).closeSeen = false) : (s.half x).credits = true := by
  obtain ⟨offer,rest,-,hl,-,hrun⟩ := hr
  have hk := h.known x (by simp [alive, hl])
  exact (hk.entry (running_absent _ hrun) hs).1

/-- A credit is at least a batch, and the counter is at most a buffer behind. -/
theorem receives_outstanding (s : Flow α) (h : Progress s) (a : Act α) (x : Bool) (n : ℕ)
    (hr : Receives s a x n) : 0 < n ∧ 0 < (s.half x).out.outstanding := by
  obtain ⟨offer,rest,-,-,hw,-⟩ := hr
  obtain ⟨hc,hu⟩ := credit_covered s h x n rest hw
  have hn := h.batched (!x) n (by simp [pipe, hw])
  have he := (h.bounded.windowed x).enqueued
  simp only [creditBatch, recvWindow, bufLen] at hn hu
  constructor
  · omega
  · omega

theorem lowers_iff (s : Flow α) (a : Act α) (h : Progress s) :
    Lowers s a ↔ CreditsFirst s a := by
  constructor
  · intro hlow x n hr
    obtain ⟨t,ht,hx⟩ := receives_step s a x n hr
    by_contra hs
    obtain ⟨offer,rest,-,hl,-,-⟩ := id hr
    have hk := (h.known x (by simp [alive, hl])).closed (by simpa using hs)
    have hlt := hlow x n t hr ht
    rw [hx] at hlt
    simp [Half.credit, hk] at hlt
  · intro hf x n t hr ht
    obtain ⟨u,hu,hx⟩ := receives_step s a x n hr
    obtain rfl : u = t := Option.some.inj (hu.symm.trans ht)
    have hc := receives_entry s h a x n hr (hf x n hr)
    obtain ⟨hn,ho⟩ := receives_outstanding s h a x n hr
    rw [hx]
    simp only [Half.credit, hc, if_true, Sender.grant]
    omega

theorem upheld_stable : Half.Stable
    (fun h _ => h.out.pump.running = true → h.credits = true)
    (fun h : Half α => h.out.pump.running = true → h.out.granted = h.processed) where
  register := fun _ => rfl
  deliver h a hu := by
    have hp : (h.deliver a).processed = h.processed := by
      unfold Half.deliver
      split_ifs <;> rfl
    rwa [Half.deliver_out, hp]
  credit h _ hc hu := by
    simp only [Half.credit]
    split_ifs with hcr
    · exact fun hr => congrArg (·+_) (hu hr)
    · exact fun hr => absurd (hc hr) hcr
  close _ hu := hu
  notify _ hu := hu
  send h a out f hm hu := by
    intro hr
    refine (Sender.moves_granted _ _ _ _ hm).trans (hu ?_)
    cases hm <;> simp_all [Pump.running]
  recv _ _ _ _ _ hu := hu

theorem step_upheld (s : Flow α) (a : Act α) (t : Flow α) (h : Progress s) (hu : Upheld s)
    (hc : CreditsFirst s a) (hst : s.step a = some t) : Upheld t := by
  intro x
  have hentry : ∀ offer n rest, a = .handle x offer → s.loop x = .free →
      s.wire (!x) = .credit n::rest → (s.half x).out.pump.running = true →
      (s.half x).credits = true := by
    intro offer n rest ha hl hw hr
    have hrec : Receives s a x n := ⟨offer,rest,ha,hl,hw,hr⟩
    exact receives_entry s h a x n hrec (hc x n hrec)
  rcases step_stable upheld_stable s a t hst x hentry (hu x) with hx | ⟨hx,-⟩
  · exact hx
  · rw [hx]
    exact hu x

theorem meets_lowers_iff (as : List (Act α)) :
    Meets step Lowers as init ↔ Meets step CreditsFirst as init :=
  meets_iff_along (fun s a t hp _ hst => step_progress s a t hp hst) lowers_iff as init
    init_progress

theorem never_stuck (as : List (Act α)) (s : Flow α) (hm : Meets step CreditsFirst as init)
    (hr : run step as init = some s) (x : Bool) : ¬s.Stuck x := by
  have hinv : Progress s ∧ Upheld s := by
    apply run_preserves_where (I := fun s => Progress s ∧ Upheld s) _ as init s hm hr
    · exact ⟨init_progress,nofun⟩
    · intro u a v ⟨hp,hu⟩ hc hst
      exact ⟨step_progress u a v hp hst,step_upheld u a v hp hu hc hst⟩
  obtain ⟨hp,hu⟩ := hinv
  rintro ⟨hw,hn,hread,hproc,hl,hpend⟩
  have hg := hu x (by rw [hw]; rfl)
  have hb := parked_owes s hp x hw hn hl hread (hg.trans hproc)
  omega

def opening : List (Act ℕ) :=
  [.ask,.ship false,.bind false,.handle true .accept,.reply true,.ship true,.bind true,
    .handle false .accept]

def delivery (refused : Bool) : List (Act ℕ) :=
  [.send false .check,.send false (.chunk bufLen),.send false .enqueue,.send false .count,
    .send false .take,.send false (.forward true),.ship false,.handle true .accept,
    .recv true .recv,.recv true (.write bufLen),.recv true .finish,
    .recv true (.read bufLen refused)]

def parking : List (Act ℕ) := List.replicate 5 (.send false .check)

def halfClosed : List (Act ℕ) :=
  opening++[.send true .check,.send true .stop,.send true .finish,.send true .drained,
    .send true (.close true),.ship true,.handle false .accept]++
  (List.replicate 8 (delivery false)).flatten++[.ship true,.handle false .accept]++
  (List.replicate 8 (delivery false)).flatten++[.ship true,.handle false .accept]++parking

instance (s : Flow ℕ) (x : Bool) : Decidable (s.Stuck x) := by
  unfold Stuck
  infer_instance

theorem halfClosed_stuck :
    ((run step halfClosed init).map fun s => decide (s.Stuck false)) = some true := by
  decide +kernel

end Hydr.Stream.Flow
