import Mathlib
import Hydr.ObfuscatedChannel

/-!
# Replay protection across connections

Every endpoint of every connection has its own counter and its own filter, and
all of them share the key. A captured message is therefore authentic to every
endpoint; nothing in it names its direction or its connection. The filter of
the endpoint it is handed to is the only obstacle.
-/

set_option autoImplicit false

namespace Hydr.ReplayAgreement
open Obfuscator ObfuscatedChannel Transition

variable {C : Type}

abbrev Endpoint (C : Type) : Type := C × Bool

def peer (e : Endpoint C) : Endpoint C := (e.1,!e.2)

def Captured (s : State (Endpoint C)) : Act (Endpoint C) → Prop
  | .encrypt _ _ _ => True
  | .deliver _ bytes => ∃ h ∈ s.log, h.bytes = bytes

def FromPeer (s : State (Endpoint C)) (e : Endpoint C) (bytes : Bytes) : Prop :=
  ∃ h ∈ s.log, h.sender = peer e ∧ h.bytes = bytes

instance [DecidableEq C] (s : State (Endpoint C)) (e : Endpoint C) (bytes : Bytes) :
    Decidable (FromPeer s e bytes) :=
  inferInstanceAs (Decidable (∃ h ∈ s.log, _))

def Agrees (b3 : Blake3) (s : State (Endpoint C)) : Act (Endpoint C) → Prop
  | .encrypt _ _ _ => True
  | .deliver e bytes =>
    (∃ h ∈ s.log, h.sender = peer e ∧ h.bytes = bytes ∧ outcome b3 s e bytes = .ok h.payload ∧
      (e,bytes) ∉ s.accepted) ∨
    outcome b3 s e bytes = .replay ∨ outcome b3 s e bytes = .invalid

def ForeignStale (b3 : Blake3) (s : State (Endpoint C)) : Act (Endpoint C) → Prop
  | .encrypt _ _ _ => True
  | .deliver e bytes =>
    ¬FromPeer s e bytes → (s.ends e).recv.Stale ((s.ends e).seqOf b3 bytes)

theorem captured_verifies (b3 : Blake3) (key : Bytes) (s : State (Endpoint C))
    (hc : Consistent b3 key s) (h : Sent (Endpoint C)) (hm : h ∈ s.log) (e : Endpoint C) :
    (s.ends e).Verifies b3 h.bytes := by
  rw [verifies_congr (hc.sameKey e)]
  exact (hc.genuine h hm).verifies

/-- The key is shared, so a captured message is opened unless its number is refused. -/
theorem captured_outcome (b3 : Blake3) (key : Bytes) (s : State (Endpoint C))
    (hc : Consistent b3 key s) (h : Sent (Endpoint C)) (hm : h ∈ s.log) (e : Endpoint C) :
    outcome b3 s e h.bytes =
      if (s.ends e).recv.Stale ((s.ends e).seqOf b3 h.bytes) then .replay else .ok h.payload := by
  have hv := captured_verifies b3 key s hc h hm e
  have hp : (s.ends e).payloadOf b3 h.bytes = h.payload := by
    rw [payloadOf_congr (hc.sameKey e)]
    exact (hc.genuine h hm).payload
  by_cases hs : (s.ends e).recv.Stale ((s.ends e).seqOf b3 h.bytes)
  · rw [if_pos hs, outcome, decrypt_stale b3 _ _ hv hs]
  · rw [if_neg hs, outcome, decrypt_fresh b3 _ _ hv hs, hp]

theorem agrees_iff (b3 : Blake3) (key : Bytes) (s : State (Endpoint C)) (a : Act (Endpoint C))
    (hc : Consistent b3 key s) (ha : Captured s a) :
    Agrees b3 s a ↔ ForeignStale b3 s a := by
  cases a with
  | encrypt => exact Iff.rfl
  | deliver e bytes =>
    obtain ⟨k,hk,rfl⟩ := ha
    have ho := captured_outcome b3 key s hc k hk e
    constructor
    · rintro (⟨h,hm,hp,hb,-⟩ | hr) hf
      · exact absurd ⟨h,hm,hp,hb⟩ hf
      · by_contra hs
        rw [if_neg hs] at ho
        rcases hr with hr | hr <;> rw [ho] at hr <;> cases hr
    · intro hf
      by_cases hs : (s.ends e).recv.Stale ((s.ends e).seqOf b3 k.bytes)
      · exact Or.inr (Or.inl (by rw [ho, if_pos hs]))
      · obtain ⟨h,hm,hp,hb⟩ := not_not.mp (mt hf hs)
        rw [← hb] at hs ⊢
        refine Or.inl ⟨h,hm,hp,rfl,?_,fun hx => hs (hc.refused (e,h.bytes) hx)⟩
        rw [captured_outcome b3 key s hc h hm e, if_neg hs]

variable [DecidableEq C]

/-- Injective agreement holds in a run exactly when every message that reaches
an endpoint from elsewhere meets a filter that has left its number behind. -/
theorem replay_agreement_iff (b3 : Blake3) (key : Bytes) (as : List (Act (Endpoint C)))
    (ha : Meets (step b3) Captured as (init b3 key)) :
    Meets (step b3) (Agrees b3) as (init b3 key) ↔
      Meets (step b3) (ForeignStale b3) as (init b3 key) :=
  meets_iff_of_invariant (I := Consistent b3 key)
    (fun s a t hc _ => step_consistent b3 key s a t hc) (fun s a => agrees_iff b3 key s a)
    as _ ha (init_consistent b3 key)

def clientEnd : Endpoint ℕ := (0,false)

def firstSent : Bytes := ((Obfuscator.new copyHash []).encrypt copyHash zeroSalt [7]).1

theorem first_captured (e : Endpoint ℕ) :
    Meets (step copyHash) Captured [.encrypt clientEnd zeroSalt [7],.deliver e firstSent]
      (init copyHash []) :=
  ⟨trivial,fun t ht => by
    obtain rfl := Option.some.inj ht
    exact ⟨⟨_,List.mem_singleton_self _,rfl⟩,fun _ _ => trivial⟩⟩

theorem replay_agreement_iff_delivered :
    Meets (step copyHash) (Agrees copyHash)
        [.encrypt clientEnd zeroSalt [7],.deliver (peer clientEnd) firstSent] (init copyHash []) ↔
      Meets (step copyHash) (ForeignStale copyHash)
        [.encrypt clientEnd zeroSalt [7],.deliver (peer clientEnd) firstSent]
        (init copyHash []) :=
  replay_agreement_iff copyHash [] _ (first_captured _)

/-- The sender's own first message comes back to it and is accepted. -/
theorem reflection_accepted :
    ¬∀ (b3 : Blake3) (key : Bytes) (as : List (Act (Endpoint ℕ))),
      Meets (step b3) Captured as (init b3 key) → Meets (step b3) (Agrees b3) as (init b3 key) := by
  intro h
  obtain ⟨-,hd⟩ := h copyHash [] _ (first_captured clientEnd)
  rcases (hd _ rfl).1 with ⟨k,hm,hp,-⟩ | hr
  · obtain rfl := List.mem_singleton.mp hm
    cases hp
  · revert hr
    decide

end Hydr.ReplayAgreement
