import Mathlib
import Hydr.StreamHalfClose

/-!
# The deadlock of a withheld credit

A reader that cannot queue a credit keeps it until its next read. If that read
was the last of the window, there is none: the sender waits for the credit and
the reader for the sender.
-/

set_option autoImplicit false

namespace Hydr.Stream
open Chunk Transition

variable {α : Type}

def StreamFrame.idle : StreamFrame α → Bool
  | .data _ => false
  | .credit _ => false
  | _ => true

namespace Flow

structure Deadlock (s : Flow α) (x : Bool) : Prop where
  parked : (s.half x).out.pump = .wait .parked
  notified : (s.half x).out.notified = false
  handled : s.loop x ≠ .granting
  quiet : ∀ y, ∀ f ∈ s.pipe y, f.idle = true
  queue : (s.half x).out.q = []
  forwarder : (s.half x).out.forwarder.hand = []
  read : (s.half (!x)).inn.appRead = (s.half x).out.enqueued
  waits : (s.half (!x)).inn.parked = true

def Intact (s : Flow α) (x : Bool) : Prop :=
  s.alive x = true ∧ s.alive (!x) = true ∧ (s.half x).closeSeen = false

def Released (s : Flow α) : Prop :=
  ∀ y, s.alive y = true → (s.half y).inn.parked = true → (s.half y).inn.pending < creditBatch

theorem handleFrame_waits (s : Flow α) (x : Bool) (offer : Offer) (f : StreamFrame α)
    (hp : ((s.handleFrame x offer f).half x).inn.parked = true) :
    (s.half x).inn.parked = true ∧
      ((s.handleFrame x offer f).half x).inn.pending = (s.half x).inn.pending := by
  cases f with
  | openStream => cases offer <;> exact ⟨hp,rfl⟩
  | ack ok =>
    simp only [handleFrame] at hp ⊢
    split_ifs at hp ⊢
    · simp [Half.register, Receiver.spawn] at hp
    · exact ⟨hp,rfl⟩
    · exact ⟨hp,rfl⟩
  | data a =>
    simp only [handleFrame, setHalf_half, Function.update_self, Half.deliver,
      Receiver.deliver] at hp ⊢
    split_ifs at hp ⊢
    · split at hp <;> exact ⟨hp,rfl⟩
    · exact ⟨hp,rfl⟩
  | credit n =>
    simp only [handleFrame, Half.credit] at hp ⊢
    split_ifs at hp ⊢ <;> simpa using hp
  | close => simpa [handleFrame, Half.close] using hp

variable [Chunk α]

def Releases (s : Flow α) (a : Act α) : Prop := ∀ t, s.step a = some t → Released t

/-- A reader that starts to wait was not turned away at its last attempt to
return a credit. -/
def Prompt (s : Flow α) (a : Act α) : Prop :=
  ∀ y, a = .recv y .park → s.alive y = true → (s.step a).isSome = true →
    (s.half y).inn.missed = false

/-- Only a reader that starts to wait, or reads, can make a difference; and one
that waits has nothing to read. -/
theorem step_released (s : Flow α) (a : Act α) (t : Flow α) (h : Progress s) (hr : Released s)
    (hq : Prompt s a) (hst : s.step a = some t) : Released t := by
  intro y ha hp
  have ha' := step_alive s a t hst y ha
  have hs := hr y ha'
  cases moves_of_step s t a hst with
  | ask | ship | pend | reply => exact hs hp
  | register x =>
    rcases eq_or_ne y x with rfl | hne
    · simp [Half.register, Receiver.spawn] at hp
    · simp only [setLoop_half, setHalf_half, Function.update_of_ne hne] at hp ⊢
      exact hs hp
  | handle x offer f rest =>
    rcases Bool.eq_or_eq_not y x with rfl | rfl
    · obtain ⟨hb,he⟩ := handleFrame_waits _ _ _ _ hp
      rw [he]
      exact hs hb
    · rw [handleFrame_other] at hp ⊢
      exact hs hp
  | notify x =>
    rcases eq_or_ne y x with rfl | hne
    · simp only [setLoop_half, setHalf_half, Function.update_self] at hp ⊢
      exact hs hp
    · simp only [setLoop_half, setHalf_half, Function.update_of_ne hne] at hp ⊢
      exact hs hp
  | send x =>
    rcases eq_or_ne y x with rfl | hne
    · simp only [emit_half, setHalf_half, Function.update_self] at hp ⊢
      exact hs hp
    · simp only [emit_half, setHalf_half, Function.update_of_ne hne] at hp ⊢
      exact hs hp
  | recv x a inn f _ hm =>
    rcases eq_or_ne y x with rfl | hne
    · have hc := h.counted y
      simp only [emit_half, setHalf_half, Function.update_self] at hp ⊢
      cases hm with
      | recv | finish | fail => exact hs hp
      | write | shutdown | drop => cases hp
      | park =>
        have hmiss := hq y rfl ha' (by rw [hst]; rfl)
        by_contra hb
        have hle : creditBatch ≤ (s.half y).inn.pending := not_lt.mp hb
        rw [hc.missed.mpr hle] at hmiss
        cases hmiss
      | keep n _ h0 hn | miss n h0 hn | giveBack n h0 hn =>
        have hd := hc.empty hp
        omega
    · simp only [emit_half, setHalf_half, Function.update_of_ne hne] at hp ⊢
      exact hs hp
  | endLoop x =>
    rcases eq_or_ne y x with rfl | hne
    · simp [alive] at ha
    · simp only [setLoop_half, setHalf_half, Function.update_of_ne hne] at hp ⊢
      exact hs hp

theorem releases_iff (s : Flow α) (a : Act α) (h : Progress s) (hr : Released s) :
    Releases s a ↔ Prompt s a := by
  constructor
  · rintro hrel y rfl ha hsome
    obtain ⟨t,ht⟩ := Option.isSome_iff_exists.mp hsome
    have hrt := hrel t ht
    have hpt := (step_progress s _ t h ht).counted y
    cases moves_of_step s t _ ht with
    | recv x a inn f _ hm =>
      cases hm with
      | park =>
        have hlt := hrt y ha (by simp)
        have hmiss := (h.counted y).missed
        simp only [emit_half, setHalf_half, Function.update_self] at hlt
        by_contra hb
        have hle := hmiss.mp (by simpa using hb)
        omega
  · exact fun hq t ht => step_released s a t h hr hq ht

/-- As long as both loops live and no StreamClose has come, a waiting reader
that has returned what it owes cannot be waited for. -/
theorem released_live (s : Flow α) (h : Progress s) (hr : Released s) (x : Bool)
    (hi : Intact s x) : ¬Deadlock s x := by
  intro hd
  obtain ⟨ha,ha',hc⟩ := hi
  have hk := ((h.known x ha).entry (by rw [hd.parked]; nofun) hc).2
  have hzero : amounts (s.pipe (!x)) = 0 := by
    apply List.sum_eq_zero
    intro n hn
    obtain ⟨f,hf,rfl⟩ := List.mem_map.mp hn
    have hq := hd.quiet (!x) f hf
    cases f <;> first | rfl | cases hq
  have he := h.exact x ha ha'
  have hret := h.returned (!x)
  have hlt := hr (!x) ha' hd.waits
  have hle := parked_owes s h x hd.parked hd.notified hd.handled hd.read (by omega)
  omega

def withheld : List (Act ℕ) :=
  opening++(List.replicate 16 (delivery true)).flatten++parking++[.recv true .park]

instance (s : Flow ℕ) (x : Bool) : Decidable (s.Deadlock x) :=
  decidable_of_iff
    ((s.half x).out.pump = .wait .parked ∧ (s.half x).out.notified = false ∧
      s.loop x ≠ .granting ∧ (∀ y, ∀ f ∈ s.pipe y, f.idle = true) ∧
      (s.half x).out.q = [] ∧ (s.half x).out.forwarder.hand = [] ∧
      (s.half (!x)).inn.appRead = (s.half x).out.enqueued ∧ (s.half (!x)).inn.parked = true)
    ⟨fun ⟨h1,h2,h3,h4,h5,h6,h7,h8⟩ => ⟨h1,h2,h3,h4,h5,h6,h7,h8⟩,
      fun ⟨h1,h2,h3,h4,h5,h6,h7,h8⟩ => ⟨h1,h2,h3,h4,h5,h6,h7,h8⟩⟩

instance (s : Flow ℕ) (x : Bool) : Decidable (s.Intact x) := by
  unfold Intact
  infer_instance

theorem withheld_deadlock : ((run step withheld init).map fun s =>
    decide (s.Intact false ∧ s.Deadlock false ∧
      creditBatch ≤ (s.half true).inn.pending)) = some true := by
  decide +kernel

end Flow
end Hydr.Stream
