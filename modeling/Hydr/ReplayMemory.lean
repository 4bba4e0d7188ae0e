import Mathlib
import Hydr.ReplayWindow

/-!
# How much the anti-replay filter remembers

The filter prunes when its set has outgrown twice the window, and only what lies
below the floor. That is enough: what is left lies between the floor and the
largest number, and there is room for one more than a window of them.
-/

set_option autoImplicit false

namespace Hydr.ReplayFilter
open Mealy

/-- `prune`, with the doubling of the window done in 64 bits. -/
def pruneWord (g : ReplayFilter) : ReplayFilter :=
  if g.window*2%2^64 < g.seen.card then { g with seen := g.seen.filter (g.floor ≤ ·) } else g

def observeWord (g : ReplayFilter) (seq : UInt64) : Bool × ReplayFilter :=
  if seq.toNat < g.floor then (false,g)
  else if seq.toNat ∈ g.seen then (false,g)
  else (true,({ g with seen := insert seq.toNat g.seen }.advance seq.toNat).pruneWord)

theorem advance_window (g : ReplayFilter) (seq : ℕ) : (g.advance seq).window = g.window := by
  unfold advance
  split_ifs <;> rfl

theorem prune_window (g : ReplayFilter) : g.prune.window = g.window := by
  unfold prune
  split_ifs <;> rfl

theorem observe_window (g : ReplayFilter) (seq : ℕ) : (g.observe seq).2.window = g.window := by
  by_cases hs : g.Stale seq
  · rw [observe_stale g seq hs]
  · rw [observe_fresh g seq hs, prune_window, advance_window]

theorem pruneWord_eq (g : ReplayFilter) (h : g.window < 2^63) : g.pruneWord = g.prune := by
  rw [pruneWord, prune, Nat.mod_eq_of_lt (by omega)]

theorem observeWord_eq (g : ReplayFilter) (seq : UInt64) (h : g.window < 2^63) :
    g.observeWord seq = g.observe seq.toNat := by
  rw [observeWord, observe, pruneWord_eq]
  rw [advance_window]
  exact h

theorem after_word (seqs : List UInt64) (g : ReplayFilter) (h : g.window < 2^63) :
    after observeWord g seqs = after observe g (seqs.map UInt64.toNat) := by
  induction seqs generalizing g with
  | nil => rfl
  | cons seq seqs ih =>
    have hn : (g.observe seq.toNat).2.window < 2^63 := by
      rw [observe_window]
      exact h
    rw [after, observeWord_eq g seq h, ih _ hn]
    rfl

structure Held (window : ℕ) (l : List ℕ) (g : ReplayFilter) : Prop where
  tracks : Tracks window l g
  card : g.seen.card ≤ 2*window

namespace Tracks

variable {window : ℕ} {l : List ℕ} {g : ReplayFilter} (h : Tracks window l g)
include h

theorem le_last (x : ℕ) (hx : x ∈ g.seen) : x ≤ g.last := by
  rw [h.represents.last_eq]
  exact (Window.largest_le_iff l _).mp le_rfl x (h.represents.sound x hx)

/-- Between the floor and the largest number there are a window and one. -/
theorem card_kept (hw : 1 ≤ window) : (g.seen.filter (g.floor ≤ ·)).card ≤ 2*window := by
  have hs : g.seen.filter (g.floor ≤ ·) ⊆ Finset.Icc g.floor g.last := by
    intro x hx
    obtain ⟨hm,hf⟩ := Finset.mem_filter.mp hx
    exact Finset.mem_Icc.mpr ⟨hf,h.le_last x hm⟩
  have hf : g.floor = g.last-window := h.floor_eq
  calc (g.seen.filter (g.floor ≤ ·)).card ≤ (Finset.Icc g.floor g.last).card :=
        Finset.card_le_card hs
    _ = g.last+1-g.floor := Nat.card_Icc ..
    _ ≤ 2*window := by omega

theorem card_prune (hw : 1 ≤ window) : g.prune.seen.card ≤ 2*window := by
  unfold ReplayFilter.prune
  split_ifs with hc
  · exact h.card_kept hw
  · rw [h.window_eq] at hc
    omega

end Tracks

theorem new_held (window : ℕ) : Held window [] (new window) :=
  ⟨new_tracks window,Nat.zero_le _⟩

theorem observe_held {window : ℕ} (hw : 1 ≤ window) (l : List ℕ) (g : ReplayFilter) (seq : ℕ)
    (h : Held window l g) :
    Held window (if (g.observe seq).1 then l++[seq] else l) (g.observe seq).2 := by
  refine ⟨h.tracks.observe seq,?_⟩
  by_cases hs : g.Stale seq
  · rw [observe_stale g seq hs]
    exact h.card
  · rw [observe_fresh g seq hs]
    exact (h.tracks.insert seq).card_prune hw

/-- The largest number only grows, and the floor with it. -/
theorem Tracks.observe_last {window : ℕ} {l : List ℕ} {g : ReplayFilter} (h : Tracks window l g)
    (seq : ℕ) : g.last ≤ (g.observe seq).2.last := by
  by_cases hs : g.Stale seq
  · rw [observe_stale g seq hs]
  · have hn := h.observe seq
    rw [observe_fresh g seq hs, if_pos rfl] at hn
    rw [observe_fresh g seq hs, hn.represents.last_eq, Window.largest_append,
      h.represents.last_eq]
    exact le_max_left _ _

theorem Tracks.after_last {window : ℕ} {l : List ℕ} {g : ReplayFilter} (h : Tracks window l g)
    (seqs : List ℕ) : g.last ≤ (after ReplayFilter.observe g seqs).last := by
  induction seqs generalizing l g with
  | nil => exact le_rfl
  | cons seq seqs ih => exact (h.observe_last seq).trans (ih (h.observe seq))

theorem after_held {window : ℕ} (hw : 1 ≤ window) (seqs : List ℕ) :
    Held window (accepted window seqs) (after observe (new window) seqs) := by
  have h := after_preserves observe (I := Held window) id (fun l g seq => observe_held hw l g seq)
    (new window) seqs [] (new_held window)
  rwa [List.nil_append] at h

/-- After any calls the set holds no more than twice the window, and nothing above
the largest number; the floor is one window below that, and both only grow. -/
theorem memory_bounded (window : ℕ) (h1 : 1 ≤ window) (h63 : window < 2^63)
    (seqs : List UInt64) :
    (after observeWord (new window) seqs).seen.card ≤ 2*window ∧
    (∀ x ∈ (after observeWord (new window) seqs).seen,
      x ≤ (after observeWord (new window) seqs).last) ∧
    (after observeWord (new window) seqs).floor =
      (after observeWord (new window) seqs).last-window ∧
    ∀ later, (after observeWord (new window) seqs).last ≤
        (after observeWord (new window) (seqs++later)).last ∧
      (after observeWord (new window) seqs).floor ≤
        (after observeWord (new window) (seqs++later)).floor := by
  have hword (l : List UInt64) : after observeWord (new window) l =
      after observe (new window) (l.map UInt64.toNat) := after_word l (new window) h63
  have hheld (l : List UInt64) := after_held h1 (l.map UInt64.toNat)
  refine ⟨?_,?_,?_,?_⟩
  · rw [hword]
    exact (hheld seqs).card
  · rw [hword]
    exact (hheld seqs).tracks.le_last
  · rw [hword]
    exact (hheld seqs).tracks.floor_eq
  · intro later
    have hl := (hheld seqs).tracks.after_last (later.map UInt64.toNat)
    rw [← after_append, ← List.map_append] at hl
    rw [hword, hword, (hheld seqs).tracks.floor_eq, (hheld (seqs++later)).tracks.floor_eq]
    exact ⟨hl,edge_mono window hl⟩

/-- Ascending numbers, each far above the last, through a window of two. -/
theorem ascent_bounded :
    (after observeWord (new 2) [1,10,20,30,40,50]).seen.card ≤ 2*2 :=
  (memory_bounded 2 (by decide) (by decide) [1,10,20,30,40,50]).1

end Hydr.ReplayFilter
