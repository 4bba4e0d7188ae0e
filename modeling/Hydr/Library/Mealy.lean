import Mathlib

/-!
# Machines that answer

A machine takes one input after another and answers each of them. Two machines
whose states stay related give the same answers.
-/

set_option autoImplicit false

namespace Mealy

variable {σ τ α β : Type*} (f : σ → α → β × σ)

def answers : σ → List α → List β
  | _, [] => []
  | s, a::as => (f s a).1::answers (f s a).2 as

def after : σ → List α → σ
  | s, [] => s
  | s, a::as => after (f s a).2 as

def taken (p : β → Bool) : σ → List α → List α
  | _, [] => []
  | s, a::as => if p (f s a).1 then a::taken p (f s a).2 as else taken p (f s a).2 as

theorem answers_getElem? (s : σ) (as : List α) (i : ℕ) :
    (answers f s as)[i]? = as[i]?.map fun a => (f (after f s (as.take i)) a).1 := by
  induction as generalizing s i with
  | nil => simp [answers]
  | cons a as ih =>
    cases i with
    | zero => simp [answers, after]
    | succ i => simpa [answers, after] using ih (f s a).2 i

theorem after_append (s : σ) (as bs : List α) : after f s (as++bs) = after f (after f s as) bs := by
  induction as generalizing s with
  | nil => rfl
  | cons a as ih => exact ih (f s a).2

/-- What each input preserves, of the state and the inputs taken so far. -/
theorem after_preserves {I : List α → σ → Prop} (p : β → Bool)
    (h : ∀ l s a, I l s → I (if p (f s a).1 then l++[a] else l) (f s a).2) (s : σ)
    (as l : List α) (hi : I l s) : I (l++taken f p s as) (after f s as) := by
  induction as generalizing s l with
  | nil => simpa [taken, after] using hi
  | cons a as ih =>
    have hn := ih (f s a).2 _ (h l s a hi)
    rw [taken, after]
    split_ifs at hn ⊢
    · simpa using hn
    · exact hn

end Mealy
