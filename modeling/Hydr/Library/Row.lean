import Mathlib
import Hydr.Library.Transition

/-!
# Components in a row

A step moves one component of a row. Whether it may is decided by the component and
the two beside it, and what it has to keep is a fact about the component and one
about each pair of neighbours. Such facts hold along the row in every run.
-/

set_option autoImplicit false

namespace Row
open Transition

variable {σ α : Type*}

def advance (step : σ → α → Option σ) : List σ → ℕ → α → Option (List σ)
  | [], _, _ => none
  | s::row, 0, a => (step s a).map (·::row)
  | s::row, i+1, a => (advance step row i a).map (s::·)

def At (ok : Option σ → σ → Option σ → α → Prop) : Option σ → List σ → ℕ → α → Prop
  | _, [], _, _ => False
  | p, s::row, 0, a => ok p s row.head? a
  | _, s::row, i+1, a => At ok (some s) row i a

instance decidableAt (ok : Option σ → σ → Option σ → α → Prop)
    [∀ p s n a, Decidable (ok p s n a)] : ∀ p row i a, Decidable (At ok p row i a)
  | _, [], _, _ => isFalse id
  | p, s::row, 0, a => inferInstanceAs (Decidable (ok p s row.head? a))
  | _, s::row, i+1, a => decidableAt ok (some s) row i a

structure Fits (I : σ → Prop) (J : σ → σ → Prop) (p : Option σ) (s : σ) (n : Option σ) : Prop where
  self : I s
  left : ∀ l ∈ p, I l ∧ J l s
  right : ∀ r ∈ n, I r ∧ J s r

def Linked (I : σ → Prop) (J : σ → σ → Prop) : Option σ → List σ → Prop
  | _, [] => True
  | p, s::row => Fits I J p s row.head? ∧ Linked I J (some s) row

theorem At.and {ok ok' : Option σ → σ → Option σ → α → Prop} (p : Option σ) (row : List σ) (i : ℕ)
    (a : α) (h : At ok p row i a) (h' : At ok' p row i a) :
    At (fun p s n a => ok p s n a ∧ ok' p s n a) p row i a := by
  induction row generalizing p i with
  | nil => exact h
  | cons s row ih =>
    cases i with
    | zero => exact ⟨h,h'⟩
    | succ i => exact ih _ _ h h'

section
variable {I : σ → Prop} {J : σ → σ → Prop}

theorem Linked.all (row : List σ) (p : Option σ) (h : Linked I J p row) (s : σ) (hs : s ∈ row) :
    I s := by
  induction row generalizing p with
  | nil => cases hs
  | cons r row ih =>
    rcases List.mem_cons.mp hs with rfl | hs
    · exact h.1.self
    · exact ih _ h.2 hs

theorem Linked.suffix (before row : List σ) (p : Option σ) (h : Linked I J p (before++row)) :
    ∃ q, Linked I J q row := by
  induction before generalizing p with
  | nil => exact ⟨p,h⟩
  | cons s before ih => exact ih (some s) h.2

/-- What passes from each component to the next passes through the row. -/
theorem Linked.spread {P : σ → Prop} (hJ : ∀ l r, I l → I r → J l r → P l → P r) (row : List σ)
    (p : Option σ) (s : σ) (h : Linked I J p (s::row)) (hs : P s) : ∀ t ∈ s::row, P t := by
  induction row generalizing p s with
  | nil =>
    intro t ht
    rwa [List.mem_singleton.mp ht]
  | cons r row ih =>
    obtain ⟨hr,hj⟩ := h.1.right r rfl
    intro t ht
    rcases List.mem_cons.mp ht with rfl | ht
    · exact hs
    · exact ih (some s) r h.2 (hJ s r h.1.self hr hj hs) t ht

/-- A preorder of neighbours relates the two ends of the row. -/
theorem Linked.ends {T : σ → σ → Prop} (hrefl : ∀ s, T s s)
    (htrans : ∀ a b c, T a b → T b c → T a c) (hJ : ∀ l r, I l → I r → J l r → T l r)
    (row : List σ) (p : Option σ) (s : σ) (h : Linked I J p (s::row)) :
    T s ((s::row).getLast (List.cons_ne_nil _ _)) := by
  induction row generalizing p s with
  | nil => exact hrefl s
  | cons r row ih =>
    obtain ⟨hr,hj⟩ := h.1.right r rfl
    rw [List.getLast_cons_cons]
    exact htrans s r _ (hJ s r h.1.self hr hj) (ih (some s) r h.2)

theorem linked_of_alike {A : σ → Prop} (hI : ∀ s, A s → I s) (hJ : ∀ l r, A l → A r → J l r)
    (row : List σ) (p : Option σ) (hp : ∀ l ∈ p, A l) (h : ∀ s ∈ row, A s) : Linked I J p row := by
  induction row generalizing p with
  | nil => trivial
  | cons s row ih =>
    have hs := h s (List.mem_cons_self ..)
    have hrow : ∀ r ∈ row, A r := fun r hr => h r (List.mem_cons_of_mem _ hr)
    refine ⟨⟨hI s hs,fun l hl => ⟨hI l (hp l hl),hJ l s (hp l hl) hs⟩,fun r hr => ?_⟩,?_⟩
    · have hr := hrow r (List.mem_of_mem_head? hr)
      exact ⟨hI r hr,hJ s r hs hr⟩
    · exact ih _ (by rintro _ ⟨⟩; exact hs) hrow

/-- What stands in front of the row moves. -/
theorem Linked.front {s t : σ} (row : List σ) (h : Linked I J (some s) row)
    (ht : ∀ r ∈ row.head?, I t ∧ J t r) : Linked I J (some t) row := by
  cases row with
  | nil => trivial
  | cons r row =>
    refine ⟨⟨h.1.self,?_,h.1.right⟩,h.2⟩
    rintro _ ⟨⟩
    exact ht r rfl

theorem Linked.behind {s : σ} (row : List σ) (h : Linked I J (some s) row) :
    ∀ r ∈ row.head?, I r ∧ J s r := by
  intro r hr
  cases row with
  | nil => cases hr
  | cons r' row =>
    cases hr
    exact ⟨h.1.self,(h.1.left s rfl).2⟩

variable {step : σ → α → Option σ} {ok : Option σ → σ → Option σ → α → Prop}

/-- What an admitted step keeps of a component and its neighbours it keeps of the row. -/
theorem advance_linked
    (h : ∀ p s n a t, Fits I J p s n → ok p s n a → step s a = some t → Fits I J p t n)
    (row : List σ) (p : Option σ) (i : ℕ) (a : α) (row' : List σ) (hl : Linked I J p row)
    (ha : At ok p row i a) (hs : advance step row i a = some row') : Linked I J p row' := by
  induction row generalizing p i row' with
  | nil => cases hs
  | cons s row ih =>
    cases i with
    | zero =>
      obtain ⟨t,ht,rfl⟩ := Option.map_eq_some_iff.mp hs
      have hfit := h _ _ _ _ _ hl.1 ha ht
      exact ⟨hfit,hl.2.front row fun r hr => ⟨hfit.self,(hfit.right r hr).2⟩⟩
    | succ i =>
      obtain ⟨row'',ht,rfl⟩ := Option.map_eq_some_iff.mp hs
      have hrow := ih _ _ _ hl.2 ha ht
      exact ⟨⟨hl.1.self,hl.1.left,hrow.behind row''⟩,hrow⟩

end

def step (next : σ → α → Option σ) (ok : Option σ → σ → Option σ → α → Prop)
    [∀ p s n a, Decidable (ok p s n a)] (row : List σ) (a : ℕ × α) : Option (List σ) :=
  if At ok none row a.1 a.2 then advance next row a.1 a.2 else none

variable {next : σ → α → Option σ} {ok C : Option σ → σ → Option σ → α → Prop}
  [∀ p s n a, Decidable (ok p s n a)] {I : σ → Prop} {J : σ → σ → Prop}

/-- The invariant rule for rows, under a further condition on the steps of the run. -/
theorem run_linked_where
    (h : ∀ p s n a t, Fits I J p s n → ok p s n a ∧ C p s n a → next s a = some t → Fits I J p t n)
    (as : List (ℕ × α)) (row row' : List σ)
    (hm : Meets (step next ok) (fun row a => At C none row a.1 a.2) as row)
    (hr : run (step next ok) as row = some row') (hl : Linked I J none row) :
    Linked I J none row' := by
  refine run_preserves_where (fun row a row' hl hc hs => ?_) as row row' hm hr hl
  unfold step at hs
  split_ifs at hs with ha
  exact advance_linked h row none a.1 a.2 row' hl (ha.and none row a.1 a.2 hc) hs

theorem run_linked
    (h : ∀ p s n a t, Fits I J p s n → ok p s n a → next s a = some t → Fits I J p t n)
    (as : List (ℕ × α)) (row row' : List σ) (hr : run (step next ok) as row = some row')
    (hl : Linked I J none row) : Linked I J none row' := by
  refine run_preserves (fun row a row' hl hs => ?_) as row row' hr hl
  unfold step at hs
  split_ifs at hs with ha
  exact advance_linked h row none a.1 a.2 row' hl ha hs

end Row
