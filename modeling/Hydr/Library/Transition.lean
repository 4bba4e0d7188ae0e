import Mathlib

/-!
# Runs of a labelled transition system

A step is a partial function: `none` means that the label is not enabled in
the state. Runs are finite words of labels. The rules here carry a fact about
one step to every state of a run, under a condition on the steps if need be.
-/

set_option autoImplicit false

namespace Transition

variable {σ α : Type*} {step : σ → α → Option σ}

def run (step : σ → α → Option σ) : List α → σ → Option σ
  | [], s => some s
  | a::as, s => (step s a).bind (run step as)

/-- Every step that the word takes from the state meets the condition. -/
def Meets (step : σ → α → Option σ) (C : σ → α → Prop) : List α → σ → Prop
  | [], _ => True
  | a::as, s => C s a ∧ ∀ t, step s a = some t → Meets step C as t

@[simp] theorem run_nil (s : σ) : run step [] s = some s := rfl

theorem run_cons {a : α} {as : List α} {s t : σ} :
    run step (a::as) s = some t ↔ ∃ u, step s a = some u ∧ run step as u = some t := by
  simp [run, Option.bind_eq_some_iff]

theorem run_append (as bs : List α) (s : σ) :
    run step (as++bs) s = (run step as s).bind (run step bs) := by
  induction as generalizing s with
  | nil => rfl
  | cons a as ih => cases h : step s a <;> simp [run, h, ih]

theorem meets_mono {C D : σ → α → Prop} (h : ∀ s a, C s a → D s a) (as : List α) (s : σ)
    (hm : Meets step C as s) : Meets step D as s := by
  induction as generalizing s with
  | nil => trivial
  | cons a as ih => exact ⟨h s a hm.1,fun t ht => ih t (hm.2 t ht)⟩

theorem meets_and {C D : σ → α → Prop} (as : List α) (s : σ) :
    Meets step (fun s a => C s a ∧ D s a) as s ↔ Meets step C as s ∧ Meets step D as s := by
  induction as generalizing s with
  | nil => simp [Meets]
  | cons a as ih =>
    simp only [Meets, ih]
    constructor
    · rintro ⟨⟨hc,hd⟩,h⟩
      exact ⟨⟨hc,fun t ht => (h t ht).1⟩,⟨hd,fun t ht => (h t ht).2⟩⟩
    · rintro ⟨⟨hc,h⟩,⟨hd,k⟩⟩
      exact ⟨⟨hc,hd⟩,fun t ht => ⟨h t ht,k t ht⟩⟩

theorem meets_cons {C : σ → α → Prop} {a : α} {as : List α} {s t : σ} (hs : step s a = some t)
    (hc : C s a) (h : Meets step C as t) : Meets step C (a::as) s :=
  ⟨hc,fun _ hu => Option.some.inj (hs.symm.trans hu) ▸ h⟩

theorem meets_append {C : σ → α → Prop} (as bs : List α) (s t : σ) (ha : Meets step C as s)
    (hr : run step as s = some t) (hb : Meets step C bs t) : Meets step C (as++bs) s := by
  induction as generalizing s with
  | nil =>
    cases hr
    exact hb
  | cons a as ih =>
    obtain ⟨u,hu,hr⟩ := run_cons.mp hr
    exact meets_cons hu ha.1 (ih u (ha.2 u hu) hr)

theorem meets_left {C : σ → α → Prop} (as bs : List α) (s : σ)
    (h : Meets step C (as++bs) s) : Meets step C as s := by
  induction as generalizing s with
  | nil => trivial
  | cons a as ih => exact ⟨h.1,fun t ht => ih t (h.2 t ht)⟩

theorem meets_at {C : σ → α → Prop} (as bs : List α) (a : α) (s t : σ)
    (hm : Meets step C (as++a::bs) s) (hr : run step as s = some t) : C t a := by
  induction as generalizing s with
  | nil =>
    cases hr
    exact hm.1
  | cons b as ih =>
    obtain ⟨u,hu,hr⟩ := run_cons.mp hr
    exact ih u (hm.2 u hu) hr

/-- The invariant rule: what every admitted step preserves holds at the end
of every run whose steps are all admitted. -/
theorem run_preserves_where {C : σ → α → Prop} {I : σ → Prop}
    (h : ∀ s a t, I s → C s a → step s a = some t → I t)
    (as : List α) (s t : σ) (hm : Meets step C as s) (hr : run step as s = some t)
    (hi : I s) : I t := by
  induction as generalizing s with
  | nil => cases hr; exact hi
  | cons a as ih =>
    obtain ⟨u,hu,hr⟩ := run_cons.mp hr
    exact ih u (hm.2 u hu) hr (h s a u hi hm.1 hu)

theorem run_preserves {I : σ → Prop} (h : ∀ s a t, I s → step s a = some t → I t)
    (as : List α) (s t : σ) (hr : run step as s = some t) (hi : I s) : I t := by
  induction as generalizing s with
  | nil => cases hr; exact hi
  | cons a as ih =>
    obtain ⟨u,hu,hr⟩ := run_cons.mp hr
    exact ih u hr (h s a u hi hu)

/-- The invariant rule for facts about a state and the word that led to it. -/
theorem run_records {C : σ → α → Prop} {I : List α → σ → Prop}
    (h : ∀ as s a t, I as s → C s a → step s a = some t → I (as++[a]) t)
    (as : List α) (s t : σ) (hm : Meets step C as s) (hr : run step as s = some t)
    (hi : I [] s) : I as t := by
  have hfrom : ∀ bs as u, Meets step C bs u → run step bs u = some t → I as u → I (as++bs) t := by
    intro bs
    induction bs with
    | nil =>
      intro as u _ hr hi
      cases hr
      simpa using hi
    | cons b bs ih =>
      intro as u hm hr hi
      obtain ⟨v,hv,hr⟩ := run_cons.mp hr
      simpa using ih (as++[b]) v (hm.2 v hv) hr (h as u b v hi hm.1 hv)
  exact hfrom as [] s hm hr hi

/-- What every state of an invariant guarantees holds along every run. -/
theorem meets_always {D : σ → α → Prop} {I : σ → Prop}
    (h : ∀ s a t, I s → step s a = some t → I t) (hd : ∀ s a, I s → D s a)
    (as : List α) (s : σ) (hi : I s) : Meets step D as s := by
  induction as generalizing s with
  | nil => trivial
  | cons a as ih => exact ⟨hd s a hi,fun t ht => ih t (h s a t hi ht)⟩

/-- Under an invariant the condition on the steps yields another one. -/
theorem meets_of_invariant {C D : σ → α → Prop} {I : σ → Prop}
    (h : ∀ s a t, I s → C s a → step s a = some t → I t) (hd : ∀ s a, I s → C s a → D s a)
    (as : List α) (s : σ) (hm : Meets step C as s) (hi : I s) : Meets step D as s := by
  induction as generalizing s with
  | nil => trivial
  | cons a as ih =>
    exact ⟨hd s a hi hm.1,fun t ht => ih t (hm.2 t ht) (h s a t hi hm.1 ht)⟩

/-- Two conditions that agree on every state of the invariant agree on runs. -/
theorem meets_iff_of_invariant {A C D : σ → α → Prop} {I : σ → Prop}
    (h : ∀ s a t, I s → A s a → step s a = some t → I t)
    (hcd : ∀ s a, I s → A s a → (C s a ↔ D s a))
    (as : List α) (s : σ) (hm : Meets step A as s) (hi : I s) :
    Meets step C as s ↔ Meets step D as s := by
  induction as generalizing s with
  | nil => rfl
  | cons a as ih =>
    have hs := hcd s a hi hm.1
    constructor
    · exact fun hc => ⟨hs.mp hc.1,fun t ht =>
        (ih t (hm.2 t ht) (h s a t hi hm.1 ht)).mp (hc.2 t ht)⟩
    · exact fun hd => ⟨hs.mpr hd.1,fun t ht =>
        (ih t (hm.2 t ht) (h s a t hi hm.1 ht)).mpr (hd.2 t ht)⟩

/-- Two conditions that agree as long as either was met all along. -/
theorem meets_iff_along {C D : σ → α → Prop} {I : σ → Prop}
    (h : ∀ s a t, I s → C s a → step s a = some t → I t) (hcd : ∀ s a, I s → (C s a ↔ D s a))
    (as : List α) (s : σ) (hi : I s) : Meets step C as s ↔ Meets step D as s := by
  induction as generalizing s with
  | nil => rfl
  | cons a as ih =>
    have hs := hcd s a hi
    constructor
    · exact fun hc => ⟨hs.mp hc.1,fun t ht => (ih t (h s a t hi hc.1 ht)).mp (hc.2 t ht)⟩
    · exact fun hd => ⟨hs.mpr hd.1,fun t ht =>
        (ih t (h s a t hi (hs.mpr hd.1) ht)).mpr (hd.2 t ht)⟩

/-- What is lost exactly at the steps that break the condition still holds at the
end of a run exactly when the run meets the condition. -/
theorem run_iff_meets {C : σ → α → Prop} {P : σ → Prop}
    (h : ∀ s a t, step s a = some t → (P t ↔ P s ∧ C s a)) (as : List α) (s t : σ)
    (hr : run step as s = some t) : P t ↔ P s ∧ Meets step C as s := by
  induction as generalizing s with
  | nil =>
    cases hr
    simp [Meets]
  | cons a as ih =>
    obtain ⟨u,hu,hr⟩ := run_cons.mp hr
    rw [ih u hr, h s a u hu, and_assoc]
    refine and_congr_right fun _ => and_congr_right fun _ => ⟨fun hm v hv => ?_,fun hm => hm u hu⟩
    obtain rfl := Option.some.inj (hu.symm.trans hv)
    exact hm

/-- The same where the steps start from states of an invariant. -/
theorem run_iff_meets_under {C : σ → α → Prop} {P I : σ → Prop}
    (hI : ∀ s a t, I s → step s a = some t → I t)
    (h : ∀ s a t, I s → step s a = some t → (P t ↔ P s ∧ C s a)) (as : List α) (s t : σ)
    (hr : run step as s = some t) (hi : I s) : P t ↔ P s ∧ Meets step C as s := by
  induction as generalizing s with
  | nil =>
    cases hr
    simp [Meets]
  | cons a as ih =>
    obtain ⟨u,hu,hr⟩ := run_cons.mp hr
    rw [ih u hr (hI s a u hi hu), h s a u hi hu, and_assoc]
    refine and_congr_right fun _ => and_congr_right fun _ => ⟨fun hm v hv => ?_,fun hm => hm u hu⟩
    obtain rfl := Option.some.inj (hu.symm.trans hv)
    exact hm

/-- A measure that no step raises and the marked ones lower bounds how many of these
a run takes. -/
theorem run_counts {C : σ → α → Prop} {I : σ → Prop} {p : α → Bool} {μ : σ → ℕ}
    (h : ∀ s a t, I s → C s a → step s a = some t → I t ∧ (p a).toNat+μ t ≤ μ s)
    (as : List α) (s t : σ) (hm : Meets step C as s) (hr : run step as s = some t) (hi : I s) :
    I t ∧ as.countP p+μ t ≤ μ s := by
  induction as generalizing s with
  | nil =>
    cases hr
    simpa using hi
  | cons a as ih =>
    obtain ⟨u,hu,hr⟩ := run_cons.mp hr
    obtain ⟨hiu,hle⟩ := h s a u hi hm.1 hu
    obtain ⟨hit,hrest⟩ := ih u (hm.2 u hu) hr hiu
    refine ⟨hit,?_⟩
    cases hp : p a with
    | false =>
      rw [List.countP_cons_of_neg (by simp [hp])]
      omega
    | true =>
      rw [List.countP_cons_of_pos hp]
      simp only [hp, Bool.toNat_true] at hle
      omega

theorem meets_of_forall {C : α → Prop} (as : List α) (s : σ) (h : ∀ a ∈ as, C a) :
    Meets step (fun _ a => C a) as s := by
  induction as generalizing s with
  | nil => trivial
  | cons a as ih =>
    exact ⟨h a List.mem_cons_self,fun t _ => ih t fun b hb => h b (List.mem_cons_of_mem _ hb)⟩

inductive Stutter (step : σ → α → Option σ) (s : σ) : σ → Prop where
  | refl : Stutter step s s
  | step {t : σ} (a : α) (h : step s a = some t) : Stutter step s t

theorem Stutter.preserves {I : σ → Prop} (h : ∀ s a t, I s → step s a = some t → I t) (s t : σ)
    (hst : Stutter step s t) (hi : I s) : I t := by
  cases hst with
  | refl => exact hi
  | step a ha => exact h s a t hi ha

/-- The simulation rule: a run whose steps are each matched by one step of
another system, or by none, is matched by a run of that system. -/
theorem run_simulates {τ β : Type*} {next : τ → β → Option τ} {C : σ → α → Prop}
    {R : σ → τ → Prop}
    (h : ∀ s a s' t, R s t → C s a → step s a = some s' → ∃ t', Stutter next t t' ∧ R s' t')
    (as : List α) (s s' : σ) (t : τ) (hm : Meets step C as s) (hr : run step as s = some s')
    (hs : R s t) : ∃ bs t', run next bs t = some t' ∧ R s' t' := by
  induction as generalizing s t with
  | nil =>
    cases hr
    exact ⟨[],t,rfl,hs⟩
  | cons a as ih =>
    obtain ⟨u,hu,hr⟩ := run_cons.mp hr
    obtain ⟨v,hv,hs⟩ := h s a u t hs hm.1 hu
    obtain ⟨bs,t',hb,ht⟩ := ih u v (hm.2 u hu) hr hs
    cases hv with
    | refl => exact ⟨bs,t',hb,ht⟩
    | step b hb' => exact ⟨b::bs,t',run_cons.mpr ⟨v,hb',hb⟩,ht⟩

instance decidableMeets {C : σ → α → Prop} [∀ s a, Decidable (C s a)] :
    ∀ as s, Decidable (Meets step C as s)
  | [], _ => isTrue trivial
  | a::as, s =>
    match h : step s a with
    | none => decidable_of_iff (C s a) ⟨fun hc => ⟨hc,fun _ ht => nomatch h.symm.trans ht⟩,And.left⟩
    | some t =>
      have := decidableMeets (C := C) as t
      decidable_of_iff (C s a ∧ Meets step C as t)
        ⟨fun hc => ⟨hc.1,fun _ ht => Option.some.inj (h.symm.trans ht) ▸ hc.2⟩,
          fun hm => ⟨hm.1,hm.2 t h⟩⟩

end Transition
