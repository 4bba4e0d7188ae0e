import Mathlib

/-!
# A sliding window over an order

What a window should take, said by the list of what it has taken: each value
once, and none below the edge that the largest value sets. A filter keeps the
largest value and a set, and may forget at any time what lies below the edge.
-/

set_option autoImplicit false

namespace Window

variable {α : Type*} [LinearOrder α] [OrderBot α]

def largest (l : List α) : α := l.foldr max ⊥

variable (low : α → α)

def Admits (l : List α) (x : α) : Prop := x ∉ l ∧ low (largest l) ≤ x

instance (l : List α) (x : α) : Decidable (Admits low l x) := inferInstanceAs (Decidable (_ ∧ _))

structure Represents (l : List α) (last : α) (seen : Finset α) : Prop where
  last_eq : last = largest l
  sound : ∀ x ∈ seen, x ∈ l
  complete : ∀ x ∈ l, low last ≤ x → x ∈ seen

theorem largest_append (l : List α) (x : α) : largest (l++[x]) = max (largest l) x := by
  induction l with
  | nil => simp [largest]
  | cons y l ih =>
    change max y (largest (l++[x])) = max (max y (largest l)) x
    rw [ih, max_assoc]

theorem largest_le_iff (l : List α) (b : α) : largest l ≤ b ↔ ∀ x ∈ l, x ≤ b := by
  induction l with
  | nil => simp [largest]
  | cons y l ih =>
    change max y (largest l) ≤ b ↔ _
    rw [max_le_iff, ih, List.forall_mem_cons]

theorem admits_of_above (hl : ∀ x, low x ≤ x) (l : List α) (x : α) (h : ∀ y ∈ l, y < x) :
    Admits low l x :=
  ⟨fun hx => (h x hx).false,(hl _).trans ((largest_le_iff l x).mpr fun y hy => (h y hy).le)⟩

theorem represents_nil : Represents low ([] : List α) ⊥ ∅ :=
  ⟨rfl,fun _ h => absurd h (Finset.notMem_empty _),fun _ h => absurd h List.not_mem_nil⟩

namespace Represents

variable {low} {l : List α} {last : α} {seen : Finset α} (h : Represents low l last seen)
include h

theorem admits_iff (x : α) : Admits low l x ↔ low last ≤ x ∧ x ∉ seen := by
  rw [Admits, ← h.last_eq, and_comm]
  refine and_congr_right fun hx => not_congr ?_
  exact ⟨fun hm => h.complete x hm hx,h.sound x⟩

theorem insert (hm : Monotone low) (x : α) :
    Represents low (l++[x]) (max last x) (insert x seen) where
  last_eq := by rw [largest_append, h.last_eq]
  sound y hy := by
    rcases Finset.mem_insert.mp hy with rfl | hy
    · simp
    · exact List.mem_append_left _ (h.sound y hy)
  complete y hy hlow := by
    rcases List.mem_append.mp hy with hy | hy
    · exact Finset.mem_insert_of_mem (h.complete y hy ((hm (le_max_left ..)).trans hlow))
    · exact Finset.mem_insert.mpr (Or.inl (List.mem_singleton.mp hy))

/-- What lies below the edge may be forgotten. -/
theorem forget {kept : Finset α} (hk : kept ⊆ seen) (hl : ∀ x ∈ seen, low last ≤ x → x ∈ kept) :
    Represents low l last kept :=
  ⟨h.last_eq,fun x hx => h.sound x (hk hx),fun x hx hlow => hl x (h.complete x hx hlow) hlow⟩

end Represents
end Window
