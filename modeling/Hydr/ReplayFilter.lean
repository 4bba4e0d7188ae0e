import Mathlib
import Hydr.Varint

/-!
# The sliding anti-replay window

The filter keeps the largest accepted sequence number, a floor one window
below it and the accepted numbers, pruned below the floor once they are many.
A number that was accepted stays refused for ever: it is in the set, or the
floor has passed it.
-/

set_option autoImplicit false

namespace Hydr

structure ReplayFilter where
  last : ℕ
  floor : ℕ
  seen : Finset ℕ
  window : ℕ

namespace ReplayFilter

def new (window : ℕ) : ReplayFilter := ⟨0,0,∅,window⟩

def advance (g : ReplayFilter) (seq : ℕ) : ReplayFilter :=
  if g.last < seq then { g with last := seq, floor := seq-g.window } else g

def prune (g : ReplayFilter) : ReplayFilter :=
  if g.window*2 < g.seen.card then { g with seen := g.seen.filter (g.floor ≤ ·) } else g

def observe (g : ReplayFilter) (seq : ℕ) : Bool × ReplayFilter :=
  if seq < g.floor then (false,g)
  else if seq ∈ g.seen then (false,g)
  else (true,({ g with seen := insert seq g.seen }.advance seq).prune)

def Stale (g : ReplayFilter) (seq : ℕ) : Prop := seq < g.floor ∨ seq ∈ g.seen

instance (g : ReplayFilter) (seq : ℕ) : Decidable (g.Stale seq) :=
  inferInstanceAs (Decidable (_ ∨ _))

def Trailing (g : ReplayFilter) : Prop := g.floor = g.last-g.window

theorem new_trailing (window : ℕ) : (new window).Trailing := by simp [new, Trailing]

theorem new_fresh (window seq : ℕ) : ¬(new window).Stale seq := by simp [new, Stale]

theorem observe_stale (g : ReplayFilter) (seq : ℕ) (h : g.Stale seq) :
    g.observe seq = (false,g) := by
  unfold observe
  rcases h with h | h
  · rw [if_pos h]
  · by_cases hf : seq < g.floor <;> simp [hf, h]

theorem observe_fresh (g : ReplayFilter) (seq : ℕ) (h : ¬g.Stale seq) :
    g.observe seq = (true,({ g with seen := insert seq g.seen }.advance seq).prune) := by
  unfold Stale at h
  push Not at h
  rw [observe, if_neg (by omega), if_neg h.2]

theorem advance_stale (g : ReplayFilter) (seq x : ℕ) (ht : g.Trailing) (h : g.Stale x) :
    (g.advance seq).Stale x := by
  unfold advance
  split_ifs with hl
  · rcases h with h | h
    · left
      change x < seq-g.window
      rw [ht] at h
      omega
    · exact Or.inr h
  · exact h

theorem advance_trailing (g : ReplayFilter) (seq : ℕ) (h : g.Trailing) :
    (g.advance seq).Trailing := by
  unfold advance
  split_ifs
  · rfl
  · exact h

/-- Pruning forgets only what the floor refuses anyway. -/
theorem prune_stale (g : ReplayFilter) (x : ℕ) : g.prune.Stale x ↔ g.Stale x := by
  unfold prune
  split_ifs
  · simp only [Stale, Finset.mem_filter]
    constructor
    · rintro (h | h)
      · exact Or.inl h
      · exact Or.inr h.1
    · rintro (h | h)
      · exact Or.inl h
      · by_cases hf : x < g.floor
        · exact Or.inl hf
        · exact Or.inr ⟨h,by omega⟩
  · rfl

theorem prune_trailing (g : ReplayFilter) (h : g.Trailing) : g.prune.Trailing := by
  unfold prune
  split_ifs <;> exact h

theorem observe_trailing (g : ReplayFilter) (seq : ℕ) (h : g.Trailing) :
    (g.observe seq).2.Trailing := by
  by_cases hs : g.Stale seq
  · rwa [observe_stale g seq hs]
  · rw [observe_fresh g seq hs]
    exact prune_trailing _ (advance_trailing _ _ h)

theorem observe_stale_mono (g : ReplayFilter) (seq x : ℕ) (ht : g.Trailing) (h : g.Stale x) :
    (g.observe seq).2.Stale x := by
  by_cases hs : g.Stale seq
  · rwa [observe_stale g seq hs]
  · rw [observe_fresh g seq hs, prune_stale]
    refine advance_stale _ _ _ ht ?_
    rcases h with h | h
    · exact Or.inl h
    · exact Or.inr (Finset.mem_insert_of_mem h)

theorem observe_marks (g : ReplayFilter) (seq : ℕ) (ht : g.Trailing) :
    (g.observe seq).2.Stale seq := by
  by_cases hs : g.Stale seq
  · rwa [observe_stale g seq hs]
  · rw [observe_fresh g seq hs, prune_stale]
    exact advance_stale _ _ _ ht (Or.inr (Finset.mem_insert_self _ _))

end ReplayFilter
end Hydr
