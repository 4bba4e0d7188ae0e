import Mathlib
import Hydr.Library.Transition
import Hydr.Obfuscation

/-!
# Obfuscated traffic under an active attacker

Any number of endpoints share one obfuscation key; each owns an obfuscator, as
every accepted connection and every client connection does. Honest encryption
extends the captured log. The attacker hands any byte string to any endpoint.
Assumptions on the attacker are conditions on the delivery steps.
-/

set_option autoImplicit false

namespace Hydr.ObfuscatedChannel
open Obfuscator Transition

structure Sent (E : Type) where
  sender : E
  payload : Bytes
  bytes : Bytes

structure State (E : Type) where
  ends : E → Obfuscator
  log : List (Sent E)
  accepted : List (E × Bytes)

inductive Act (E : Type) where
  | encrypt (sender : E) (salt : Salt) (payload : Bytes)
  | deliver (receiver : E) (bytes : Bytes)

section
variable {E : Type}

def init (b3 : Blake3) (key : Bytes) : State E := ⟨fun _ => .new b3 key,[],[]⟩

def outcome (b3 : Blake3) (s : State E) (e : E) (bytes : Bytes) : DecryptOutcome :=
  ((s.ends e).decryptOutcome b3 bytes).1

structure Genuine (b3 : Blake3) (key : Bytes) (h : Sent E) : Prop where
  verifies : (Obfuscator.new b3 key).Verifies b3 h.bytes
  payload : (Obfuscator.new b3 key).payloadOf b3 h.bytes = h.payload

structure Consistent (b3 : Blake3) (key : Bytes) (s : State E) : Prop where
  sameKey : ∀ e, SameKey (s.ends e) (.new b3 key)
  trailing : ∀ e, (s.ends e).recv.Trailing
  genuine : ∀ h ∈ s.log, Genuine b3 key h
  refused : ∀ a ∈ s.accepted, (s.ends a.1).recv.Stale ((s.ends a.1).seqOf b3 a.2)

theorem init_consistent (b3 : Blake3) (key : Bytes) : Consistent b3 key (init b3 key : State E) where
  sameKey _ := ⟨rfl,rfl⟩
  trailing _ := ReplayFilter.new_trailing _
  genuine := by simp [init]
  refused := by simp [init]

end

variable {E : Type} [DecidableEq E]

def recorded (s : State E) (e : E) (bytes : Bytes) : DecryptOutcome → List (E × Bytes)
  | .ok _ => s.accepted++[(e,bytes)]
  | .replay => s.accepted
  | .invalid => s.accepted

def step (b3 : Blake3) (s : State E) : Act E → Option (State E)
  | .encrypt e salt payload =>
    let (bytes,ob) := (s.ends e).encrypt b3 salt payload
    some { s with ends := Function.update s.ends e ob, log := s.log++[⟨e,payload,bytes⟩] }
  | .deliver e bytes =>
    let (outcome,ob) := (s.ends e).decryptOutcome b3 bytes
    some { s with
      ends := Function.update s.ends e ob
      accepted := recorded s e bytes outcome }

/-- Opening a message leaves the refused numbers refused. -/
theorem decrypt_recv (b3 : Blake3) (ob : Obfuscator) (buf : Bytes) (ht : ob.recv.Trailing) :
    (ob.decryptOutcome b3 buf).2.recv.Trailing ∧
      ∀ x, ob.recv.Stale x → (ob.decryptOutcome b3 buf).2.recv.Stale x := by
  by_cases h : ob.Verifies b3 buf
  · by_cases hs : ob.recv.Stale (ob.seqOf b3 buf)
    · rw [decrypt_stale b3 ob buf h hs]; exact ⟨ht,fun _ hx => hx⟩
    · rw [decrypt_fresh b3 ob buf h hs]
      exact ⟨ReplayFilter.observe_trailing _ _ ht,
        fun x hx => ReplayFilter.observe_stale_mono _ _ _ ht hx⟩
  · rw [decrypt_invalid b3 ob buf h]; exact ⟨ht,fun _ hx => hx⟩

theorem decrypt_marks (b3 : Blake3) (ob : Obfuscator) (buf p : Bytes) (ht : ob.recv.Trailing)
    (h : (ob.decryptOutcome b3 buf).1 = .ok p) :
    (ob.decryptOutcome b3 buf).2.recv.Stale (ob.seqOf b3 buf) := by
  obtain ⟨hv,hs,-⟩ := (decrypt_ok_iff b3 ob buf p).mp h
  rw [decrypt_fresh b3 ob buf hv hs]
  exact ReplayFilter.observe_marks _ _ ht

/-- An endpoint's obfuscator may move on as long as it keeps its key and
refuses whatever it refused. -/
theorem update_consistent (b3 : Blake3) (key : Bytes) (s : State E) (e : E) (ob : Obfuscator)
    (hc : Consistent b3 key s) (hk : SameKey ob (s.ends e)) (ht : ob.recv.Trailing)
    (hs : ∀ x, (s.ends e).recv.Stale x → ob.recv.Stale x) :
    Consistent b3 key { s with ends := Function.update s.ends e ob } := by
  refine ⟨fun x => ?_,fun x => ?_,hc.genuine,fun a ha => ?_⟩
  · rcases eq_or_ne x e with rfl | hx
    · simp only [Function.update_self]
      exact ⟨hk.1.trans (hc.sameKey x).1,hk.2.trans (hc.sameKey x).2⟩
    · simp only [Function.update_of_ne hx]
      exact hc.sameKey x
  · rcases eq_or_ne x e with rfl | hx
    · simpa only [Function.update_self] using ht
    · simp only [Function.update_of_ne hx]
      exact hc.trailing x
  · have hr := hc.refused a ha
    rcases eq_or_ne a.1 e with hx | hx
    · rw [hx] at hr
      simp only [hx, Function.update_self, seqOf_congr hk]
      exact hs _ hr
    · simpa only [Function.update_of_ne hx] using hr

theorem encrypt_consistent (b3 : Blake3) (key : Bytes) (s t : State E) (e : E) (salt : Salt)
    (payload : Bytes) (hc : Consistent b3 key s) (h : step b3 s (.encrypt e salt payload) = some t) :
    Consistent b3 key t := by
  simp only [step, encrypt_eq, Option.some.injEq] at h
  subst h
  have hu := update_consistent b3 key s e
    { s.ends e with sendSeq := ((s.ends e).sendSeq+1)%2^64 } hc ⟨rfl,rfl⟩ (hc.trailing e)
    (fun _ hx => hx)
  refine ⟨hu.sameKey,hu.trailing,fun m hm => ?_,hu.refused⟩
  rcases List.mem_append.mp hm with hm | hm
  · exact hc.genuine m hm
  · obtain rfl := List.mem_singleton.mp hm
    simp only [sealed_congr (hc.sameKey e)]
    exact ⟨sealed_verifies _ _ _ _ _,sealed_payload _ _ _ _ _⟩

theorem deliver_consistent (b3 : Blake3) (key : Bytes) (s t : State E) (e : E) (bytes : Bytes)
    (hc : Consistent b3 key s) (h : step b3 s (.deliver e bytes) = some t) :
    Consistent b3 key t := by
  simp only [step, Option.some.injEq] at h
  subst h
  have hk := decrypt_key b3 (s.ends e) bytes
  obtain ⟨htr,hst⟩ := decrypt_recv b3 (s.ends e) bytes (hc.trailing e)
  have hu := update_consistent b3 key s e _ hc hk htr hst
  refine ⟨hu.sameKey,hu.trailing,hu.genuine,fun a ha => ?_⟩
  cases ho : ((s.ends e).decryptOutcome b3 bytes).1 with
  | ok p =>
    simp only [ho, recorded] at ha
    rcases List.mem_append.mp ha with ha | ha
    · exact hu.refused a ha
    · obtain rfl := List.mem_singleton.mp ha
      simp only [Function.update_self, seqOf_congr hk]
      exact decrypt_marks b3 _ _ p (hc.trailing e) ho
  | replay => simp only [ho, recorded] at ha; exact hu.refused a ha
  | invalid => simp only [ho, recorded] at ha; exact hu.refused a ha

theorem step_consistent (b3 : Blake3) (key : Bytes) (s : State E) (a : Act E) (t : State E)
    (hc : Consistent b3 key s) (h : step b3 s a = some t) : Consistent b3 key t := by
  cases a with
  | encrypt e salt payload => exact encrypt_consistent b3 key s t e salt payload hc h
  | deliver e bytes => exact deliver_consistent b3 key s t e bytes hc h

def zeroSalt : Salt := .replicate saltLen 0

end Hydr.ObfuscatedChannel
