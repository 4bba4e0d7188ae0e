import Mathlib
import Hydr.StreamOpening

/-!
# The credits of a stream

Credits are sent, travel, and are handled by the other loop. The counter takes
what it can of them, as long as the loop still knows the stream.
-/

set_option autoImplicit false

namespace Hydr.Stream

variable {α : Type}

def amounts (l : List (StreamFrame α)) : ℕ := (l.map StreamFrame.amount).sum

@[simp] theorem amounts_nil : amounts ([] : List (StreamFrame α)) = 0 := rfl

@[simp] theorem amounts_cons (f : StreamFrame α) (l : List (StreamFrame α)) :
    amounts (f::l) = f.amount+amounts l := rfl

@[simp] theorem amounts_append (l m : List (StreamFrame α)) :
    amounts (l++m) = amounts l+amounts m := by
  simp [amounts]

namespace Flow

structure Metered (s : Flow α) : Prop where
  granted : ∀ x, (s.half x).out.granted ≤ (s.half x).processed
  processed : ∀ x, amounts (s.pipe x)+(s.half (!x)).processed ≤ s.credited x

theorem init_metered : Metered (init : Flow α) := ⟨fun _ => le_rfl,fun _ => le_rfl⟩

theorem setHalf_metered (s : Flow α) (h : Metered s) (x : Bool) (g : Half α)
    (hg : g.out.granted ≤ g.processed) (hp : g.processed ≤ (s.half x).processed) :
    Metered (s.setHalf x g) := by
  refine ⟨fun y => ?_,fun y => ?_⟩
  · rcases eq_or_ne y x with rfl | hne
    · simpa using hg
    · simpa [hne] using h.granted y
  · have hy := h.processed y
    rcases Bool.eq_or_eq_not y x with rfl | rfl
    · simpa [pipe] using hy
    · simp [pipe] at hy ⊢
      omega

theorem emit_metered (s : Flow α) (h : Metered s) (x : Bool) (f : Option (StreamFrame α)) :
    Metered (s.emit x f) := by
  refine ⟨h.granted,fun y => ?_⟩
  have hy := h.processed y
  rcases eq_or_ne y x with rfl | hne
  · cases f with
    | none => simpa [pipe] using hy
    | some f =>
      simp [pipe] at hy ⊢
      omega
  · simpa [pipe, hne] using hy

theorem pop_metered (s : Flow α) (h : Metered s) (x : Bool) (f : StreamFrame α)
    (rest : List (StreamFrame α)) (hw : s.wire x = f::rest) :
    Metered { s with wire := Function.update s.wire x rest } := by
  refine ⟨h.granted,fun y => ?_⟩
  have hy := h.processed y
  rcases eq_or_ne y x with rfl | hne
  · simp [pipe, hw] at hy ⊢
    omega
  · simpa [pipe, hne] using hy

theorem credit_granted (h : Half α) (n : ℕ) (hg : h.out.granted ≤ h.processed) :
    (h.credit n).out.granted ≤ (h.credit n).processed ∧
      (h.credit n).processed = h.processed+n := by
  simp only [Half.credit]
  split_ifs
  · exact ⟨Nat.add_le_add_right hg n,rfl⟩
  · exact ⟨Nat.le_add_right_of_le hg,rfl⟩

theorem handleCredit_metered (s : Flow α) (h : Metered s) (x : Bool) (n : ℕ)
    (rest : List (StreamFrame α)) (hw : s.wire (!x) = .credit n::rest) :
    Metered ({ s with wire := Function.update s.wire (!x) rest }.setHalf x
      ((s.half x).credit n)) := by
  obtain ⟨hg,hp⟩ := credit_granted (s.half x) n (h.granted x)
  refine ⟨fun y => ?_,fun y => ?_⟩
  · rcases eq_or_ne y x with rfl | hne
    · simpa using hg
    · simpa [hne] using h.granted y
  · have hy := h.processed y
    rcases Bool.eq_or_eq_not y x with rfl | rfl
    · simpa [pipe] using hy
    · simp [pipe, hw, hp, StreamFrame.amount] at hy ⊢
      omega

theorem handle_metered (s : Flow α) (h : Metered s) (x : Bool) (offer : Offer)
    (f : StreamFrame α) (rest : List (StreamFrame α)) (hw : s.wire (!x) = f::rest) :
    Metered ({ s with wire := Function.update s.wire (!x) rest }.handleFrame x offer f) := by
  have hp := pop_metered s h (!x) f rest hw
  cases f with
  | openStream =>
    cases offer with
    | accept | ignore => exact ⟨hp.granted,hp.processed⟩
    | reject =>
      refine ⟨hp.granted,fun y => ?_⟩
      have hy := hp.processed y
      rcases eq_or_ne y x with rfl | hne
      · simpa [handleFrame, pipe, StreamFrame.amount] using hy
      · simpa [handleFrame, pipe, hne] using hy
  | ack ok =>
    simp only [handleFrame]
    split_ifs
    · apply setHalf_metered
      · exact ⟨hp.granted,hp.processed⟩
      · exact le_rfl
      · exact Nat.zero_le _
    · exact ⟨hp.granted,hp.processed⟩
    · exact ⟨hp.granted,hp.processed⟩
  | data a =>
    have hd : ((s.half x).deliver a).processed = (s.half x).processed := by
      unfold Half.deliver
      split_ifs <;> rfl
    apply setHalf_metered _ hp
    · rw [Half.deliver_out, hd]
      exact h.granted x
    · exact hd.le
  | credit n =>
    have hc := handleCredit_metered s h x n rest hw
    simp only [handleFrame]
    split_ifs
    · exact ⟨hc.granted,hc.processed⟩
    · exact hc
  | close => exact setHalf_metered _ hp x _ (h.granted x) le_rfl

end Flow

variable [Chunk α]

theorem Sender.moves_granted (s t : Sender α) (a : SendAct α) (f : Option (StreamFrame α))
    (h : Sender.Moves s a t f) : t.granted = s.granted := by
  cases h <;> rfl

namespace Flow

theorem step_metered (s : Flow α) (a : Act α) (t : Flow α) (h : Metered s)
    (hst : s.step a = some t) : Metered t := by
  cases moves_of_step s t a hst with
  | ask => exact emit_metered { s with stage := .opening } ⟨h.granted,h.processed⟩ _ _
  | reply ok => exact emit_metered { s with stage := .replied } ⟨h.granted,h.processed⟩ _ _
  | ship x f cmds hc =>
    refine ⟨h.granted,fun y => ?_⟩
    have hy := h.processed y
    rcases eq_or_ne y x with rfl | hne
    · simpa [pipe, hc] using hy
    · simpa [pipe, hne] using hy
  | pend => exact ⟨h.granted,h.processed⟩
  | register x =>
    have hs := setHalf_metered s h x .register le_rfl (Nat.zero_le _)
    exact ⟨hs.granted,hs.processed⟩
  | handle x offer f rest hw => exact handle_metered s h x offer f rest hw
  | notify x =>
    have hs := setHalf_metered s h x { s.half x with out := (s.half x).out.notify }
      (h.granted x) le_rfl
    exact ⟨hs.granted,hs.processed⟩
  | send x a out f _ hm =>
    apply emit_metered
    apply setHalf_metered s h
    · exact (Sender.moves_granted _ _ _ _ hm).trans_le (h.granted x)
    · exact le_rfl
  | recv x a inn f =>
    apply emit_metered
    exact setHalf_metered s h x _ (h.granted x) le_rfl
  | endLoop x =>
    refine ⟨fun y => ?_,fun y => ?_⟩
    · rcases eq_or_ne y x with rfl | hne
      · simpa [Half.orphan] using h.granted y
      · simpa [hne] using h.granted y
    · have hy := h.processed y
      rcases Bool.eq_or_eq_not y x with rfl | rfl
      · simp [pipe] at hy ⊢
        omega
      · simpa [pipe, Half.orphan] using hy

end Flow
end Hydr.Stream
