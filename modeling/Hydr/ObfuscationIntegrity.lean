import Mathlib
import Hydr.ObfuscatedChannel

/-!
# What the tag protects

The tag covers the body and not the salt. An honest body and tag under another
salt still verify and unmask to other bytes, which the filter then judges by
the sequence number they happen to start with. This is the only way in: every
other foreign message is refused and leaves the filter alone.
-/

set_option autoImplicit false

namespace Hydr.ObfuscationIntegrity
open Obfuscator ObfuscatedChannel Transition

variable {E : Type}

def KeystreamInjective (b3 : Blake3) (key : Bytes) : Prop :=
  ∀ a b : Salt, b3.hash (key++a.toList) = b3.hash (key++b.toList) → a = b

/-- The idealised keyed hash: a body with a valid tag was honestly encrypted. -/
def Unforged (b3 : Blake3) (s : State E) : Act E → Prop
  | .encrypt _ _ _ => True
  | .deliver e bytes => (s.ends e).Verifies b3 bytes → ∃ h ∈ s.log, bodyOf h.bytes = bodyOf bytes

def Honest (s : State E) (bytes : Bytes) : Prop := ∃ h ∈ s.log, h.bytes = bytes

instance (s : State E) (bytes : Bytes) : Decidable (Honest s bytes) :=
  inferInstanceAs (Decidable (∃ h ∈ s.log, h.bytes = bytes))

def Intact (b3 : Blake3) (s : State E) : Act E → Prop
  | .encrypt _ _ _ => True
  | .deliver e bytes =>
    (∀ p, outcome b3 s e bytes = .ok p → ∃ h ∈ s.log, h.bytes = bytes ∧ h.payload = p) ∧
    (¬Honest s bytes →
      (outcome b3 s e bytes = .invalid ∨ outcome b3 s e bytes = .replay) ∧
      ((s.ends e).decryptOutcome b3 bytes).2.recv = (s.ends e).recv)

def Respliced (s : State E) (bytes : Bytes) : Prop :=
  ¬Honest s bytes ∧ ∃ h ∈ s.log, bodyOf h.bytes = bodyOf bytes ∧ tagOf h.bytes = tagOf bytes

/-- No respliced message uncovers a sequence number that the filter would take. -/
def SaltRespected (b3 : Blake3) (s : State E) : Act E → Prop
  | .encrypt _ _ _ => True
  | .deliver e bytes =>
    Respliced s bytes → (s.ends e).recv.Stale ((s.ends e).seqOf b3 bytes)

theorem honest_verifies (b3 : Blake3) (key : Bytes) (s : State E) (hc : Consistent b3 key s)
    (h : Sent E) (hm : h ∈ s.log) (e : E) :
    (s.ends e).Verifies b3 h.bytes ∧ (s.ends e).payloadOf b3 h.bytes = h.payload := by
  rw [verifies_congr (hc.sameKey e), payloadOf_congr (hc.sameKey e)]
  exact ⟨(hc.genuine h hm).verifies,(hc.genuine h hm).payload⟩

/-- Under the idealised hash a foreign message that verifies is a resplice. -/
theorem foreign_verifies_iff (b3 : Blake3) (key : Bytes) (s : State E) (hc : Consistent b3 key s)
    (e : E) (bytes : Bytes) (hu : Unforged b3 s (.deliver e bytes)) (hf : ¬Honest s bytes) :
    (s.ends e).Verifies b3 bytes ↔ Respliced s bytes := by
  constructor
  · intro hv
    obtain ⟨h,hm,hb⟩ := hu hv
    have ht := (honest_verifies b3 key s hc h hm e).1.2
    refine ⟨hf,h,hm,hb,?_⟩
    rw [← ht, hb]
    exact hv.2
  · rintro ⟨-,h,hm,hb,ht⟩
    have hv := (honest_verifies b3 key s hc h hm e).1
    refine ⟨?_,by rw [← hb, ← ht]; exact hv.2⟩
    have hl := congrArg List.length hb
    have hh := hv.1
    simp only [bodyOf, List.length_take, List.length_drop, saltLen, Message.tagLen] at hl hh ⊢
    omega

theorem intact_iff (b3 : Blake3) (key : Bytes) (s : State E) (a : Act E)
    (hc : Consistent b3 key s) (hu : Unforged b3 s a) :
    Intact b3 s a ↔ SaltRespected b3 s a := by
  cases a with
  | encrypt => exact Iff.rfl
  | deliver e bytes =>
    constructor
    · intro hi hr
      by_contra hs
      have hv := (foreign_verifies_iff b3 key s hc e bytes hu hr.1).mpr hr
      have ho : outcome b3 s e bytes = .ok ((s.ends e).payloadOf b3 bytes) := by
        rw [outcome, decrypt_fresh b3 _ _ hv hs]
      obtain ⟨h,hm,hb,-⟩ := hi.1 _ ho
      exact hr.1 ⟨h,hm,hb⟩
    · intro hr
      by_cases hf : Honest s bytes
      · refine ⟨fun p hp => ?_,fun h => absurd hf h⟩
        obtain ⟨h,hm,rfl⟩ := hf
        refine ⟨h,hm,rfl,?_⟩
        rw [← (honest_verifies b3 key s hc h hm e).2]
        exact ((decrypt_ok_iff b3 _ _ p).mp hp).2.2
      · have hq : (outcome b3 s e bytes = .invalid ∨ outcome b3 s e bytes = .replay) ∧
            ((s.ends e).decryptOutcome b3 bytes).2.recv = (s.ends e).recv := by
          by_cases hv : (s.ends e).Verifies b3 bytes
          · have hs := hr ((foreign_verifies_iff b3 key s hc e bytes hu hf).mp hv)
            simp [outcome, decrypt_stale b3 _ _ hv hs]
          · simp [outcome, decrypt_invalid b3 _ _ hv]
        refine ⟨fun p hp => ?_,fun _ => hq⟩
        rcases hq.1 with hn | hn <;> rw [hn] at hp <;> cases hp

variable [DecidableEq E]

def purge (b3 : Blake3) : List (Act E) → State E → List (Act E)
  | [], _ => []
  | .encrypt e salt payload::as, s =>
    .encrypt e salt payload :: purge b3 as ((step b3 s (.encrypt e salt payload)).getD s)
  | .deliver e bytes::as, s =>
    let rest := purge b3 as ((step b3 s (.deliver e bytes)).getD s)
    if Honest s bytes then .deliver e bytes :: rest else rest

/-- A refused foreign message leaves no trace in the state. -/
theorem foreign_step (b3 : Blake3) (s : State E) (e : E) (bytes : Bytes)
    (hi : Intact b3 s (.deliver e bytes)) (hf : ¬Honest s bytes) :
    step b3 s (.deliver e bytes) = some s := by
  have hs : ((s.ends e).decryptOutcome b3 bytes).2 = s.ends e := by
    by_cases hv : (s.ends e).Verifies b3 bytes
    · by_cases hs : (s.ends e).recv.Stale ((s.ends e).seqOf b3 bytes)
      · rw [decrypt_stale b3 _ _ hv hs]
      · have ho := (hi.2 hf).1
        rw [outcome, decrypt_fresh b3 _ _ hv hs] at ho
        simp at ho
    · rw [decrypt_invalid b3 _ _ hv]
  have ha : recorded s e bytes ((s.ends e).decryptOutcome b3 bytes).1 = s.accepted := by
    rcases (hi.2 hf).1 with ho | ho <;> rw [outcome] at ho <;> rw [ho] <;> rfl
  simp only [step, hs, ha, Function.update_eq_self]

theorem purge_run (b3 : Blake3) (as : List (Act E)) (s : State E)
    (hi : Meets (step b3) (Intact b3) as s) :
    run (step b3) (purge b3 as s) s = run (step b3) as s := by
  induction as generalizing s with
  | nil => rfl
  | cons a as ih =>
    cases a with
    | encrypt e salt payload => exact ih _ (hi.2 _ rfl)
    | deliver e bytes =>
      by_cases hf : Honest s bytes
      · simp only [purge, if_pos hf]
        exact ih _ (hi.2 _ rfl)
      · have hs := foreign_step b3 s e bytes hi.1 hf
        simp only [purge, if_neg hf, hs, Option.getD_some, run, Option.bind_some]
        exact ih s (hi.2 s hs)

/-- The layer keeps its promise in a run exactly when no respliced message
meets a willing filter; then foreign deliveries can be struck from the run. -/
theorem integrity_iff (b3 : Blake3) (key : Bytes) (as : List (Act E))
    (hu : Meets (step b3) (Unforged b3) as (init b3 key)) :
    (Meets (step b3) (Intact b3) as (init b3 key) ↔
      Meets (step b3) (SaltRespected b3) as (init b3 key)) ∧
    (Meets (step b3) (SaltRespected b3) as (init b3 key) →
      run (step b3) (purge b3 as (init b3 key)) (init b3 key) =
        run (step b3) as (init b3 key)) := by
  have hiff := meets_iff_of_invariant (I := Consistent b3 key)
    (fun s a t hc _ => step_consistent b3 key s a t hc) (fun s a => intact_iff b3 key s a)
    as _ hu (init_consistent b3 key)
  exact ⟨hiff,fun hr => purge_run b3 as _ (hiff.mpr hr)⟩

def honestBytes : Bytes := ((Obfuscator.new copyHash []).encrypt copyHash zeroSalt [7]).1

def resplicedBytes : Bytes := 1::honestBytes.tail

theorem copyHash_injective : KeystreamInjective copyHash [] := by
  intro a b h
  apply Subtype.ext
  apply List.reverse_injective
  have ha : a.toList.reverse.length = 8 := by rw [List.length_reverse, List.Vector.toList_length]; rfl
  have hb : b.toList.reverse.length = 8 := by rw [List.length_reverse, List.Vector.toList_length]; rfl
  apply List.ext_getElem (ha.trans hb.symm)
  intro i hi hj
  have hk := congrArg (fun v : Digest => v.get ⟨i,by omega⟩) h
  simp only [copyHash, List.Vector.get_ofFn, List.nil_append] at hk
  rwa [List.getD_eq_getElem _ _ hi, List.getD_eq_getElem _ _ hj] at hk

/-- Delivering a captured message untouched stays within the assumption. -/
theorem integrity_iff_untouched :
    (Meets (step copyHash) (Intact copyHash)
        [.encrypt false zeroSalt [7],.deliver true honestBytes] (init copyHash []) ↔
      Meets (step copyHash) (SaltRespected copyHash)
        [.encrypt false zeroSalt [7],.deliver true honestBytes] (init copyHash [])) ∧
    (Meets (step copyHash) (SaltRespected copyHash)
        [.encrypt false zeroSalt [7],.deliver true honestBytes] (init copyHash []) →
      run (step copyHash) (purge copyHash [.encrypt false zeroSalt [7],.deliver true honestBytes]
          (init copyHash [])) (init copyHash []) =
        run (step copyHash) [.encrypt false zeroSalt [7],.deliver true honestBytes]
          (init copyHash [])) :=
  integrity_iff copyHash [] _ ⟨trivial,fun t ht => by
    obtain rfl := Option.some.inj ht
    exact ⟨fun _ => ⟨_,List.mem_singleton_self _,by decide⟩,fun _ _ => trivial⟩⟩

example : honestBytes = List.replicate 16 0 ++ [7] ++ List.replicate 8 0 ++ [7] ++ List.replicate 7 0 := by
  decide

/-- The salt of a captured message is replaced: the receiver takes the result
for message number one, with the keystream's difference in its bytes. -/
theorem resplice_accepted :
    ¬∀ (b3 : Blake3) (key : Bytes) (as : List (Act Bool)), KeystreamInjective b3 key →
      Meets (step b3) (Unforged b3) as (init b3 key) →
      Meets (step b3) (Intact b3) as (init b3 key) := by
  intro h
  have hm := h copyHash [] [.encrypt false zeroSalt [7],.deliver true resplicedBytes]
    copyHash_injective ⟨trivial,fun t ht => ?_⟩
  · obtain ⟨-,hd⟩ := hm
    have hi := ((hd _ rfl).1.2 (by decide)).1
    revert hi
    decide
  · obtain rfl := Option.some.inj ht
    exact ⟨fun _ => ⟨_,List.mem_singleton_self _,by decide⟩,fun _ _ => trivial⟩

end Hydr.ObfuscationIntegrity
