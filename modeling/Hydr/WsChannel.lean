import Mathlib
import Hydr.WsLink

/-!
# What a wire carries

The messages on a wire are the frames that its end has written, in their order.
On an obfuscated connection each is sealed under the next number of its sender.
A receiver that takes them in order refuses none, until the numbers start again
after `2 ^ 64` messages; from then on it refuses them all.
-/

set_option autoImplicit false

namespace Hydr

namespace ReplayFilter

structure Counts (g : ReplayFilter) (n : ℕ) : Prop where
  trailing : g.Trailing
  stale : ∀ y < 2^64, g.Stale y ↔ y < n

theorem new_counts (window : ℕ) : (new window).Counts 0 :=
  ⟨new_trailing window,fun y _ => by simp [new_fresh]⟩

theorem observe_counts (g : ReplayFilter) (n : ℕ) (h : g.Counts n) (hn : n < 2^64) :
    (g.observe n).2.Counts (n+1) := by
  refine ⟨observe_trailing g n h.trailing,fun y hy => ⟨fun hs => ?_,fun hlt => ?_⟩⟩
  · have hfresh : ¬g.Stale n := fun hf => absurd ((h.stale n hn).mp hf) (lt_irrefl n)
    rw [observe_fresh g n hfresh, prune_stale, advance] at hs
    have hold : g.Stale y → y < n+1 := fun ho => ((h.stale y hy).mp ho).trans (Nat.lt_succ_self n)
    split_ifs at hs
    · rcases hs with hs | hs
      · exact lt_of_lt_of_le hs ((Nat.sub_le _ _).trans (Nat.le_succ n))
      · rcases Finset.mem_insert.mp hs with rfl | hs
        · exact Nat.lt_succ_self y
        · exact hold (Or.inr hs)
    · rcases hs with hs | hs
      · exact hold (Or.inl hs)
      · rcases Finset.mem_insert.mp hs with rfl | hs
        · exact Nat.lt_succ_self y
        · exact hold (Or.inr hs)
  · rcases Nat.lt_succ_iff_lt_or_eq.mp hlt with hlt | rfl
    · exact observe_stale_mono g n y h.trailing ((h.stale y hy).mpr hlt)
    · exact observe_marks g y h.trailing

end ReplayFilter

namespace Ws
open Message Varint Obfuscator

variable (b3 : Blake3)

def Codes (key : Option Obfuscator) (n : ℕ) (f : Frame) (bytes : Bytes) : Prop :=
  match key with
  | none => bytes = f.encode
  | some k => ∃ salt, bytes = k.sealed b3 (n%2^64) salt f.encode

def Coded (key : Option Obfuscator) : ℕ → List WsMessage → List Frame → Prop
  | _, [], fs => fs = []
  | n, .binary bytes::ms, f::fs => Codes b3 key n f bytes ∧ Coded key (n+1) ms fs
  | n, .other::ms, fs => Coded key n ms fs
  | _, _, _ => False

def Seals (key : Option Obfuscator) (n : ℕ) (ob : Option Obfuscator) : Prop :=
  match key, ob with
  | none, none => True
  | some k, some ob => SameKey ob k ∧ ob.sendSeq = n%2^64
  | _, _ => False

def Opens (key : Option Obfuscator) (n : ℕ) (ob : Option Obfuscator) : Prop :=
  match key, ob with
  | none, none => True
  | some k, some ob => SameKey ob k ∧ ob.recv.Counts n
  | _, _ => False

theorem coded_append (key : Option Obfuscator) (n : ℕ) (ms : List WsMessage) (fs : List Frame)
    (f : Frame) (bytes : Bytes) (h : Coded b3 key n ms fs)
    (hf : Codes b3 key (n+fs.length) f bytes) :
    Coded b3 key n (ms++[.binary bytes]) (fs++[f]) := by
  induction ms generalizing n fs with
  | nil =>
    obtain rfl : fs = [] := h
    exact ⟨hf,rfl⟩
  | cons m ms ih =>
    cases m with
    | binary bytes' =>
      cases fs with
      | nil => exact h.elim
      | cons g fs =>
        refine ⟨h.1,ih (n+1) fs h.2 ?_⟩
        rwa [List.length_cons, Nat.add_comm fs.length, ← Nat.add_assoc] at hf
    | other => exact ih n fs h hf
    | ping => exact h.elim

theorem coded_append_other (key : Option Obfuscator) (n : ℕ) (ms : List WsMessage)
    (fs : List Frame) (h : Coded b3 key n ms fs) : Coded b3 key n (ms++[.other]) fs := by
  induction ms generalizing n fs with
  | nil =>
    obtain rfl : fs = [] := h
    rfl
  | cons m ms ih =>
    cases m with
    | binary bytes' =>
      cases fs with
      | nil => exact h.elim
      | cons g fs => exact ⟨h.1,ih (n+1) fs h.2⟩
    | other => exact ih n fs h
    | ping => exact h.elim

/-- A frame is sealed under the next number, and nothing else changes. -/
theorem outbound_codes (key ob : Option Obfuscator) (n : ℕ) (salt : Salt) (f : Frame)
    (h : Seals key n ob) :
    Codes b3 key n f (outbound b3 salt f ob).1 ∧ Seals key (n+1) (outbound b3 salt f ob).2 ∧
      ∀ m, Opens key m ob → Opens key m (outbound b3 salt f ob).2 := by
  cases key with
  | none =>
    cases ob with
    | none => exact ⟨rfl,trivial,fun _ => id⟩
    | some ob => exact h.elim
  | some k =>
    cases ob with
    | none => exact h.elim
    | some ob =>
      obtain ⟨hk,hs⟩ := h
      refine ⟨⟨salt,?_⟩,⟨hk,?_⟩,fun m hm => ⟨hk,hm.2⟩⟩
      · rw [← hs, ← sealed_congr hk]
        rfl
      · simp [encrypt_eq, hs]

/-- The next message is opened, unless the numbers have started again. -/
theorem inbound_codes (key ob : Option Obfuscator) (n : ℕ) (f : Frame) (bytes : Bytes)
    (h : Opens key n ob) (hc : Codes b3 key n f bytes) :
    (∃ ob', inbound b3 bytes ob = (.frame f.encode,ob') ∧ (key.isSome = true → n < 2^64) ∧
      Opens key (n+1) ob' ∧ ∀ m, Seals key m ob → Seals key m ob') ∨
    key.isSome = true ∧ 2^64 ≤ n ∧ inbound b3 bytes ob = (.drop,ob) ∧ Opens key (n+1) ob := by
  cases key with
  | none =>
    cases ob with
    | none =>
      left
      exact ⟨none,by rw [inbound, show bytes = f.encode from hc],nofun,trivial,fun _ => id⟩
    | some ob => exact h.elim
  | some k =>
    cases ob with
    | none => exact h.elim
    | some ob =>
      obtain ⟨hk,hcount⟩ := h
      obtain ⟨salt,rfl⟩ := hc
      rw [← sealed_congr hk]
      have hv := sealed_verifies b3 ob (n%2^64) salt f.encode
      have hseq : ob.seqOf b3 (ob.sealed b3 (n%2^64) salt f.encode) = n%2^64 := by
        rw [sealed_seq, Nat.mod_mod]
      have hpay := sealed_payload b3 ob (n%2^64) salt f.encode
      by_cases hn : n < 2^64
      · left
        rw [Nat.mod_eq_of_lt hn] at hv hseq hpay ⊢
        have hfresh : ¬ob.recv.Stale (ob.seqOf b3 (ob.sealed b3 n salt f.encode)) := by
          rw [hseq]
          exact fun hs => absurd ((hcount.stale n hn).mp hs) (lt_irrefl n)
        refine ⟨some { ob with recv := (ob.recv.observe n).2 },?_,fun _ => hn,
          ⟨hk,ReplayFilter.observe_counts ob.recv n hcount hn⟩,fun m hm => hm⟩
        simp only [inbound, decrypt_fresh b3 ob _ hv hfresh, hseq, hpay]
      · right
        have hmod : n%2^64 < 2^64 := Nat.mod_lt _ (by norm_num)
        have hstale : ob.recv.Stale (ob.seqOf b3 (ob.sealed b3 (n%2^64) salt f.encode)) := by
          rw [hseq]
          exact (hcount.stale _ hmod).mpr (by omega)
        refine ⟨rfl,by omega,by simp only [inbound, decrypt_stale b3 ob _ hv hstale],hk,?_⟩
        refine ⟨hcount.trailing,fun y hy => (hcount.stale y hy).trans ?_⟩
        omega

structure Channel (key : Option Obfuscator) (l : Link) (x : Bool) (n : ℕ) (fs : List Frame) :
    Prop where
  coded : Coded b3 key n (l.wire x) fs
  seals : Seals key (n+fs.length) (l.ends x).obfuscation
  opens : Opens key n (l.ends (!x)).obfuscation

namespace Link

theorem setEnd_obfuscation (l : Link) (x : Bool) (e : Endpoint)
    (he : e.obfuscation = (l.ends x).obfuscation) (y : Bool) :
    ((l.setEnd x e).ends y).obfuscation = (l.ends y).obfuscation := by
  rcases eq_or_ne y x with rfl | hne
  · simpa using he
  · simp [hne]

def Wired (key : Option Obfuscator) (n : Bool → ℕ) (fs : Bool → List Frame) (l : Link) : Prop :=
  ∀ x, Channel b3 key l x (n x) (fs x)

theorem init_wired (auth : AuthRequest) (mux : Bool) (psk : Option Bytes) :
    Wired b3 (psk.map (Obfuscator.new b3)) (fun _ => 0) (fun _ => [])
      (init auth mux fun _ => psk.map (Obfuscator.new b3)) := by
  set key := psk.map (Obfuscator.new b3) with hkey
  have hob : ∀ x, ((init auth mux fun _ => key).ends x).obfuscation = key := by
    rintro (_ | _) <;> rfl
  have hseals : Seals key 0 key := by
    cases psk with
    | none => exact trivial
    | some k => exact ⟨⟨rfl,rfl⟩,rfl⟩
  have hopens : Opens key 0 key := by
    cases psk with
    | none => exact trivial
    | some k => exact ⟨⟨rfl,rfl⟩,ReplayFilter.new_counts _⟩
  intro x
  exact ⟨rfl,by rw [hob]; exact hseals,by rw [hob]; exact hopens⟩

section
variable {b3} {key : Option Obfuscator} {n : Bool → ℕ} {fs : Bool → List Frame} {l : Link}
  (h : Wired b3 key n fs l) (x : Bool) (e : Endpoint)
include h

theorem own_wired (he : e.obfuscation = (l.ends x).obfuscation) :
    Wired b3 key n fs (l.setEnd x e) := by
  have hob := setEnd_obfuscation l x e he
  intro y
  exact ⟨(h y).coded,by rw [hob]; exact (h y).seals,by rw [hob]; exact (h y).opens⟩

theorem write_wired (salt : Salt) (f : Frame)
    (he : e.obfuscation = (outbound b3 salt f (l.ends x).obfuscation).2) :
    Wired b3 key n (Function.update fs x (fs x++[f])) ((l.setEnd x e).setWire x
      (l.wire x++[(OutMsg.frame f).message b3 salt (l.ends x).obfuscation])) := by
  obtain ⟨hcode,hseal,hopen⟩ := outbound_codes b3 key _ _ salt f (h x).seals
  rw [← he] at hseal hopen
  intro y
  rcases Bool.eq_or_eq_not y x with rfl | rfl
  · refine ⟨?_,?_,?_⟩
    · rw [setWire_wire, Function.update_self, Function.update_self]
      exact coded_append b3 key _ _ _ f _ (h y).coded hcode
    · simpa [← Nat.add_assoc] using hseal
    · simpa using (h y).opens
  · refine ⟨by simpa using (h (!x)).coded,by simpa using (h (!x)).seals,?_⟩
    have ho := (h (!x)).opens
    rw [Bool.not_not] at ho
    simpa using hopen _ ho

theorem pong_wired (he : e.obfuscation = (l.ends x).obfuscation) :
    Wired b3 key n fs ((l.setEnd x e).setWire x (l.wire x++[.other])) := by
  have hown := own_wired h x e he
  intro y
  refine ⟨?_,(hown y).seals,(hown y).opens⟩
  rcases eq_or_ne y x with rfl | hne
  · rw [setWire_wire, Function.update_self]
    exact coded_append_other b3 key _ _ _ (h y).coded
  · simpa [hne] using (h y).coded

theorem taken_wired (rest : List WsMessage) (f : Frame) (gs : List Frame)
    (hfs : fs (!x) = f::gs) (hcoded : Coded b3 key (n (!x)+1) rest gs)
    (hseal : ∀ m, Seals key m (l.ends x).obfuscation → Seals key m e.obfuscation)
    (hopen : Opens key (n (!x)+1) e.obfuscation) :
    Wired b3 key (Function.update n (!x) (n (!x)+1)) (Function.update fs (!x) gs)
      ((l.setEnd x e).setWire (!x) rest) := by
  intro y
  rcases Bool.eq_or_eq_not y x with rfl | rfl
  · exact ⟨by simpa using (h y).coded,by simpa using hseal _ (h y).seals,by simpa using (h y).opens⟩
  · refine ⟨by simpa using hcoded,?_,by simpa using hopen⟩
    have hn : n (!x)+(f::gs).length = n (!x)+1+gs.length := by
      rw [List.length_cons]
      omega
    have hs := (h (!x)).seals
    rw [hfs, hn] at hs
    simpa using hs

theorem skipped_wired (rest : List WsMessage) (hw : l.wire (!x) = .other::rest)
    (he : e.obfuscation = (l.ends x).obfuscation) :
    Wired b3 key n fs ((l.setEnd x e).setWire (!x) rest) := by
  have hown := own_wired h x e he
  intro y
  refine ⟨?_,(hown y).seals,(hown y).opens⟩
  rcases eq_or_ne y (!x) with rfl | hne
  · have hc := (h (!x)).coded
    rw [hw] at hc
    rw [setWire_wire, Function.update_self]
    exact hc
  · simpa [hne] using (h y).coded

end

end Link
end Ws
end Hydr
