import Mathlib

/-!
# Programs that may fault

A program that answers with a value or an error may also stop before it
answers, at an index out of range or at a sum too large for a machine word.
Here such a stop is an outcome of its own, so that it can be ruled out.
-/

set_option autoImplicit false

namespace Checked

inductive Fault where
  | outOfRange
  | overflow
  | lengthMismatch
  deriving DecidableEq, Repr

end Checked

abbrev Checked (ε α : Type) : Type := ExceptT ε (Except Checked.Fault) α

namespace Checked

variable {α β ε : Type}

def fault (f : Fault) : Checked ε α := ExceptT.mk (.error f)

def add (limit a b : ℕ) : Checked ε ℕ := if a+b < limit then pure (a+b) else fault .overflow

def index (b : List α) (i : ℕ) : Checked ε α :=
  match b[i]? with
  | some a => pure a
  | none => fault .outOfRange

def slice (b : List α) (start stop : ℕ) : Checked ε (List α) :=
  if start ≤ stop ∧ stop ≤ b.length then pure ((b.drop start).take (stop-start))
  else fault .outOfRange

def suffix (b : List α) (start : ℕ) : Checked ε (List α) := slice b start b.length

def copyArray (n : ℕ) (b : List α) : Checked ε (List.Vector α n) :=
  if h : b.length = n then pure ⟨b,h⟩ else fault .lengthMismatch

def assign {n : ℕ} (out : List.Vector α n) (i : ℕ) (a : α) : Checked ε (List.Vector α n) :=
  if h : i < n then pure (out.set ⟨i,h⟩ a) else fault .outOfRange

def ofOption (e : ε) : Option α → Checked ε α
  | some a => pure a
  | none => throw e

def Returns (x : Checked ε α) (r : Except ε α) : Prop := x.run = .ok r

theorem returns_iff {x : Checked ε α} {r r' : Except ε α} (h : Returns x r) :
    Returns x r' ↔ r = r' := by
  unfold Returns at h ⊢
  rw [h]
  exact ⟨Except.ok.inj,congrArg _⟩

theorem returns_pure (a : α) : Returns (pure a : Checked ε α) (.ok a) := rfl

theorem returns_throw (e : ε) : Returns (throw e : Checked ε α) (.error e) := rfl

/-- The rule for a step that both programs make; the rest is only reached with
what the step gave. -/
theorem returns_bind {x : Checked ε α} {f : α → Checked ε β} {r : Except ε α}
    {g : α → Except ε β} (hx : Returns x r) (hf : ∀ a, r = .ok a → Returns (f a) (g a)) :
    Returns (x >>= f) (r >>= g) := by
  have hx : x = ExceptT.mk (.ok r) := hx
  subst hx
  cases r with
  | error e => rfl
  | ok a => exact hf a rfl

/-- The rule for a step that only the faulting program makes. -/
theorem returns_step {x : Checked ε α} {f : α → Checked ε β} {a : α} {r : Except ε β}
    (hx : Returns x (.ok a)) (hf : Returns (f a) r) : Returns (x >>= f) r := by
  have hx : x = ExceptT.mk (.ok (.ok a)) := hx
  subst hx
  exact hf

theorem returns_ite {c : Prop} [Decidable c] {x y : Checked ε α} {r s : Except ε α}
    (hx : c → Returns x r) (hy : ¬c → Returns y s) :
    Returns (if c then x else y) (if c then r else s) := by
  by_cases h : c
  · rw [if_pos h, if_pos h]
    exact hx h
  · rw [if_neg h, if_neg h]
    exact hy h

theorem returns_add {limit a b : ℕ} (h : a+b < limit) :
    Returns (add limit a b : Checked ε ℕ) (.ok (a+b)) := by
  rw [add, if_pos h]
  exact returns_pure _

theorem returns_index {b : List α} {i : ℕ} {a : α} (h : b[i]? = some a) :
    Returns (index b i : Checked ε α) (.ok a) := by
  rw [index, h]
  exact returns_pure a

theorem returns_slice {b : List α} {start stop : ℕ} (h1 : start ≤ stop) (h2 : stop ≤ b.length) :
    Returns (slice b start stop : Checked ε (List α)) (.ok ((b.drop start).take (stop-start))) := by
  rw [slice, if_pos ⟨h1,h2⟩]
  exact returns_pure _

theorem returns_suffix {b : List α} {start : ℕ} (h : start ≤ b.length) :
    Returns (suffix b start : Checked ε (List α)) (.ok (b.drop start)) := by
  have ht : (b.drop start).take (b.length-start) = b.drop start :=
    List.take_of_length_le (by rw [List.length_drop])
  have hs := returns_slice (ε := ε) h (le_refl b.length)
  rwa [ht] at hs

theorem returns_copyArray {n : ℕ} {b : List α} (h : b.length = n) :
    Returns (copyArray n b : Checked ε (List.Vector α n)) (.ok ⟨b,h⟩) := by
  rw [copyArray, dif_pos h]
  exact returns_pure _

theorem returns_assign {n : ℕ} (out : List.Vector α n) {i : ℕ} (a : α) (h : i < n) :
    Returns (assign out i a : Checked ε (List.Vector α n)) (.ok (out.set ⟨i,h⟩ a)) := by
  rw [assign, dif_pos h]
  exact returns_pure _

theorem returns_ofOption (e : ε) {x : Option α} {a : α} (h : x = some a) :
    Returns (ofOption e x) (.ok a) := by
  rw [h]
  exact returns_pure a

end Checked
