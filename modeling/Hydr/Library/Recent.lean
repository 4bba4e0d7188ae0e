import Mathlib

/-!
# The recent entries of a log

A bounded queue keeps the last `n` entries of a log, and a lifetime keeps the
entries that satisfy a predicate which, once true along the log, stays true.
The two restrictions commute, and the last entry with a given key decides
whether the key is found among what is left.
-/

set_option autoImplicit false

namespace Recent

variable {α κ : Type*}

def Upward (p : α → Bool) (l : List α) : Prop := l.Pairwise fun a b => p a = true → p b = true

theorem filter_eq_self_of_head {p : α → Bool} {a : α} {l : List α} (h : Upward p (a::l))
    (ha : p a = true) : (a::l).filter p = a::l := by
  apply List.filter_eq_self.mpr
  intro b hb
  rcases List.mem_cons.mp hb with rfl | hb
  · exact ha
  · exact (List.pairwise_cons.mp h).1 b hb ha

theorem upward_of_sublist {p : α → Bool} {l m : List α} (h : Upward p l) (hm : m.Sublist l) :
    Upward p m := List.Pairwise.sublist hm h

theorem rtake_sublist (l : List α) (n : ℕ) : (l.rtake n).Sublist l := List.drop_sublist _ _

theorem rtake_of_length_le {l : List α} {n : ℕ} (h : l.length ≤ n) : l.rtake n = l := by
  rw [List.rtake, Nat.sub_eq_zero_of_le h, List.drop_zero]

theorem rtake_cons {a : α} {l : List α} {n : ℕ} (h : n ≤ l.length) :
    (a::l).rtake n = l.rtake n := by
  rw [List.rtake, List.rtake, List.length_cons, Nat.sub_add_comm h, List.drop_succ_cons]

theorem length_rtake (l : List α) (n : ℕ) : (l.rtake n).length = min n l.length := by
  rw [List.rtake, List.length_drop]
  omega

theorem rtake_rtake (l : List α) (n : ℕ) : (l.rtake (n+1)).rtake n = l.rtake n := by
  have hl := length_rtake l (n+1)
  rw [List.rtake, hl, List.rtake, List.rtake, List.drop_drop]
  congr 1
  omega

/-- The age limit and the size limit commute. -/
theorem rtake_filter {p : α → Bool} {l : List α} (h : Upward p l) (n : ℕ) :
    (l.filter p).rtake n = (l.rtake n).filter p := by
  induction l with
  | nil => simp
  | cons a l ih =>
    by_cases ha : p a = true
    · rw [filter_eq_self_of_head h ha]
      refine (List.filter_eq_self.mpr fun b hb => ?_).symm
      have hm := (rtake_sublist _ n).subset hb
      exact (List.filter_eq_self.mp (filter_eq_self_of_head h ha)) b hm
    · have ih := ih (List.pairwise_cons.mp h).2
      rw [List.filter_cons_of_neg ha, ih]
      rcases Nat.lt_or_ge l.length n with hn | hn
      · rw [rtake_of_length_le hn.le, rtake_of_length_le (by simpa using hn),
          List.filter_cons_of_neg ha]
      · rw [rtake_cons hn]

/-- Appending an entry to what is left and cutting gives what is left of the
longer log. -/
theorem rtake_filter_concat {p : α → Bool} {l : List α} {x : α} (h : Upward p l)
    (hx : p x = true) (n : ℕ) :
    ((l.rtake n).filter p++[x]).rtake n = ((l++[x]).rtake n).filter p := by
  cases n with
  | zero => simp
  | succ n =>
    rw [List.rtake_concat_succ, List.rtake_concat_succ, List.filter_append,
      rtake_filter (upward_of_sublist h (rtake_sublist l _)), rtake_rtake,
      List.filter_cons_of_pos hx, List.filter_nil]

/-- A key is found among the recent entries if and only if its last entry
satisfies the predicate with fewer than `n` entries after it. -/
theorem mem_recent_iff {p : α → Bool} {l : List α} (h : Upward p l) (f : α → κ) (k : κ) (n : ℕ) :
    (∃ a ∈ (l.rtake n).filter p, f a = k) ↔
      ∃ before a after, l = before++a::after ∧ f a = k ∧ (∀ b ∈ after, f b ≠ k) ∧
        p a = true ∧ after.length < n := by
  constructor
  · induction l using List.reverseRecOn generalizing n with
    | nil => simp
    | append_singleton l x ih =>
      cases n with
      | zero => simp
      | succ n =>
        rintro ⟨a,ha,hk⟩
        rw [List.rtake_concat_succ] at ha
        obtain ⟨ha,hp⟩ := List.mem_filter.mp ha
        obtain ⟨hl,-,hx⟩ := List.pairwise_append.mp h
        by_cases hf : f x = k
        · refine ⟨l,x,[],rfl,hf,by simp,?_,n.succ_pos⟩
          rcases List.mem_append.mp ha with hm | hm
          · exact hx a ((rtake_sublist l n).subset hm) x (List.mem_singleton_self x) hp
          · exact List.mem_singleton.mp hm ▸ hp
        · have hm : a ∈ l.rtake n := by
            rcases List.mem_append.mp ha with hm | hm
            · exact hm
            · exact absurd (List.mem_singleton.mp hm ▸ hk) hf
          obtain ⟨before,b,after,rfl,hb,hn,hq,hl⟩ :=
            ih hl n ⟨a,List.mem_filter.mpr ⟨hm,hp⟩,hk⟩
          refine ⟨before,b,after++[x],by simp,hb,?_,hq,by simpa using hl⟩
          intro c hc
          rcases List.mem_append.mp hc with hc | hc
          · exact hn c hc
          · exact List.mem_singleton.mp hc ▸ hf
  · rintro ⟨before,a,after,rfl,hk,-,hp,hl⟩
    refine ⟨a,List.mem_filter.mpr ⟨?_,hp⟩,hk⟩
    rw [List.rtake, List.length_append, List.length_cons,
      List.drop_append_of_le_length (by omega)]
    exact List.mem_append_right _ (List.mem_cons_self ..)

end Recent
