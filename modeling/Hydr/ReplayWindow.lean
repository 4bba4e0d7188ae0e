import Mathlib
import Hydr.Library.Mealy
import Hydr.Library.Window
import Hydr.ReplayFilter

/-!
# What the anti-replay filter takes

The filter's set and floor stand for the list of all the numbers it has taken:
the floor refuses what the set has forgotten. So its answers are those of the
window over that list, pruned or not.
-/

set_option autoImplicit false

namespace Hydr.ReplayFilter
open Mealy

def observeUnpruned (g : ReplayFilter) (seq : ℕ) : Bool × ReplayFilter :=
  if seq < g.floor then (false,g)
  else if seq ∈ g.seen then (false,g)
  else (true,{ g with seen := insert seq g.seen }.advance seq)

def edge (window last : ℕ) : ℕ := last-window

structure Tracks (window : ℕ) (taken : List ℕ) (g : ReplayFilter) : Prop where
  window_eq : g.window = window
  floor_eq : g.floor = edge window g.last
  represents : Window.Represents (edge window) taken g.last g.seen

theorem edge_mono (window : ℕ) : Monotone (edge window) :=
  fun _ _ h => Nat.sub_le_sub_right h window

theorem new_tracks (window : ℕ) : Tracks window [] (new window) :=
  ⟨rfl,(Nat.zero_sub window).symm,Window.represents_nil (edge window)⟩

theorem unpruned_stale (g : ReplayFilter) (seq : ℕ) (h : g.Stale seq) :
    g.observeUnpruned seq = (false,g) := by
  unfold observeUnpruned
  rcases h with h | h
  · rw [if_pos h]
  · by_cases hf : seq < g.floor <;> simp [hf, h]

theorem unpruned_fresh (g : ReplayFilter) (seq : ℕ) (h : ¬g.Stale seq) :
    g.observeUnpruned seq = (true,{ g with seen := insert seq g.seen }.advance seq) := by
  unfold Stale at h
  rw [not_or] at h
  rw [observeUnpruned, if_neg h.1, if_neg h.2]

theorem unpruned_eq (g : ReplayFilter) (seq : ℕ) :
    (g.observeUnpruned seq).1 = (g.observe seq).1 := by
  unfold observeUnpruned observe
  split_ifs <;> rfl

namespace Tracks

variable {window : ℕ} {taken : List ℕ} {g : ReplayFilter} (h : Tracks window taken g)
include h

theorem stale_iff (seq : ℕ) : g.Stale seq ↔ ¬Window.Admits (edge window) taken seq := by
  rw [h.represents.admits_iff, not_and_or, not_le, not_not, Stale, h.floor_eq]

theorem insert (seq : ℕ) :
    Tracks window (taken++[seq]) ({ g with seen := insert seq g.seen }.advance seq) := by
  have hr := h.represents.insert (edge_mono window) seq
  unfold advance
  split_ifs with hl
  · rw [max_eq_right hl.le] at hr
    exact ⟨h.window_eq,congrArg (seq-·) h.window_eq,hr⟩
  · rw [max_eq_left (not_lt.mp hl)] at hr
    exact ⟨h.window_eq,h.floor_eq,hr⟩

theorem prune : Tracks window taken g.prune := by
  unfold ReplayFilter.prune
  split_ifs
  · refine ⟨h.window_eq,h.floor_eq,h.represents.forget (Finset.filter_subset ..) ?_⟩
    exact fun x hx hlow => Finset.mem_filter.mpr ⟨hx,h.floor_eq.trans_le hlow⟩
  · exact h

theorem observe_eq (seq : ℕ) : (g.observe seq).1 = decide (Window.Admits (edge window) taken seq) := by
  by_cases hs : g.Stale seq
  · rw [observe_stale g seq hs]
    exact (decide_eq_false ((h.stale_iff seq).mp hs)).symm
  · rw [observe_fresh g seq hs]
    exact (decide_eq_true (not_not.mp (mt (h.stale_iff seq).mpr hs))).symm

theorem observe (seq : ℕ) :
    Tracks window (if (g.observe seq).1 then taken++[seq] else taken) (g.observe seq).2 := by
  by_cases hs : g.Stale seq
  · rwa [observe_stale g seq hs]
  · rw [observe_fresh g seq hs]
    exact (h.insert seq).prune

theorem unpruned (seq : ℕ) :
    Tracks window (if (g.observeUnpruned seq).1 then taken++[seq] else taken)
      (g.observeUnpruned seq).2 := by
  by_cases hs : g.Stale seq
  · rwa [unpruned_stale g seq hs]
  · rw [unpruned_fresh g seq hs]
    exact h.insert seq

end Tracks

theorem refused_unchanged (g : ReplayFilter) (seq : ℕ) (h : (g.observe seq).1 = false) :
    (g.observe seq).2 = g := by
  by_cases hs : g.Stale seq
  · rw [observe_stale g seq hs]
  · rw [observe_fresh g seq hs] at h
    cases h

def accepted (window : ℕ) (seqs : List ℕ) : List ℕ := taken observe id (new window) seqs

theorem after_tracks (window : ℕ) (seqs : List ℕ) :
    Tracks window (accepted window seqs) (after observe (new window) seqs) := by
  have h := after_preserves observe (I := Tracks window) id (fun _ _ x hl => hl.observe x)
    (new window) seqs [] (new_tracks window)
  rwa [List.nil_append] at h

theorem unpruned_tracks (window : ℕ) (seqs : List ℕ) :
    Tracks window (taken observeUnpruned id (new window) seqs)
      (after observeUnpruned (new window) seqs) := by
  have h := after_preserves observeUnpruned (I := Tracks window) id (fun _ _ x hl => hl.unpruned x)
    (new window) seqs [] (new_tracks window)
  rwa [List.nil_append] at h

/-- Two filters that have taken the same numbers answer alike from then on. -/
theorem taken_unpruned (window : ℕ) (seqs l : List ℕ) (g g' : ReplayFilter)
    (h : Tracks window l g) (h' : Tracks window l g') :
    taken observeUnpruned id g' seqs = taken observe id g seqs := by
  induction seqs generalizing l g g' with
  | nil => rfl
  | cons x xs ih =>
    have he : (g'.observeUnpruned x).1 = (g.observe x).1 := by
      rw [unpruned_eq, h'.observe_eq, h.observe_eq]
    have ht := h.observe x
    have ht' := h'.unpruned x
    rw [he] at ht'
    simp only [taken, he, ih _ _ _ ht ht']

/-- After any calls, the next one returns `true` exactly for a number that was
not taken before and is not below the window under the largest taken one; the
filter that never prunes answers the same, and a refused number leaves every
later answer as it was. The product in `prune` does not wrap for a window below
`2 ^ 63`. -/
theorem observe_spec (window : ℕ) (seqs : List ℕ) (seq : ℕ) :
    (((after observe (new window) seqs).observe seq).1 = true ↔
      seq ∉ accepted window seqs ∧ (accepted window seqs).foldr max 0-window ≤ seq) ∧
    ((after observeUnpruned (new window) seqs).observeUnpruned seq).1 =
      ((after observe (new window) seqs).observe seq).1 ∧
    (((after observe (new window) seqs).observe seq).1 = false → ∀ later,
      answers observe (after observe (new window) (seqs++[seq])) later =
        answers observe (after observe (new window) seqs) later) := by
  have h := after_tracks window seqs
  have h' := unpruned_tracks window seqs
  rw [taken_unpruned window seqs [] (new window) (new window) (new_tracks window)
    (new_tracks window)] at h'
  refine ⟨?_,?_,fun hf later => ?_⟩
  · rw [h.observe_eq seq, decide_eq_true_eq]
    rfl
  · rw [unpruned_eq, h'.observe_eq, h.observe_eq]
    rfl
  · rw [after_append]
    exact congrArg (fun g => answers observe g later) (refused_unchanged _ seq hf)

theorem narrow_window_spec :
    answers observe (after observe (new 2) ([0,5]++[2])) [3,5] = [true,false] :=
  ((observe_spec 2 [0,5] 2).2.2 (by decide) [3,5]).trans (by decide)

end Hydr.ReplayFilter
