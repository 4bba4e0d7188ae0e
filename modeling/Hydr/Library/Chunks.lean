import Mathlib

/-!
# Streams that arrive in pieces

A reader that asks for a number of items takes them piece by piece, as many as
each of them has. How the stream was cut does not matter.
-/

set_option autoImplicit false

namespace Chunks

variable {α : Type*}

def readExact : ℕ → List (List α) → Option (List α × List (List α))
  | n, [] => if n = 0 then some ([],[]) else none
  | n, c::cs =>
    if n ≤ c.length then some (c.take n,c.drop n::cs)
    else (readExact (n-c.length) cs).map fun r => (c++r.1,r.2)

/-- A read that succeeds takes the head of the whole stream and leaves the rest. -/
theorem readExact_flatten (n : ℕ) (cs : List (List α)) :
    (readExact n cs).map (fun r => (r.1,r.2.flatten)) =
      if n ≤ cs.flatten.length then some (cs.flatten.take n,cs.flatten.drop n) else none := by
  induction cs generalizing n with
  | nil =>
    by_cases hn : n = 0
    · simp [readExact, hn]
    · simp [readExact, hn]
  | cons c cs ih =>
    rw [readExact, List.flatten_cons, List.length_append]
    by_cases hc : n ≤ c.length
    · rw [if_pos hc, if_pos (by omega), List.take_append_of_le_length hc,
        List.drop_append_of_le_length hc]
      rfl
    · have hs := ih (n-c.length)
      rw [if_neg hc, Option.map_map]
      by_cases hl : n ≤ c.length+cs.flatten.length
      · rw [if_pos (show n-c.length ≤ cs.flatten.length by omega)] at hs
        obtain ⟨r,hr,he⟩ := Option.map_eq_some_iff.mp hs
        obtain ⟨h1,h2⟩ := Prod.mk.inj he
        rw [if_pos hl, hr, Option.map_some, Function.comp_apply, h1, h2,
          List.take_append, List.drop_append, List.take_of_length_le (show c.length ≤ n by omega),
          List.drop_eq_nil_of_le (show c.length ≤ n by omega), List.nil_append]
      · rw [if_neg (show ¬n-c.length ≤ cs.flatten.length by omega)] at hs
        rw [if_neg hl, Option.map_eq_none_iff.mp hs, Option.map_none]

end Chunks
