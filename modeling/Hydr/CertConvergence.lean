import Mathlib
import Hydr.CertReload

/-!
# When a renewed certificate is served

What the task knows about the certificate file is the mtime of the last look at
it. That is enough while every look under this mtime was followed by a load that
went well; a load that fails on a half-written pair is not tried again.
-/

set_option autoImplicit false

namespace Hydr.CertReload
open Transition

variable {Cert Key Fp : Type}
variable (certFingerprint : Cert → Fp) (pairs : Cert → Key → Bool)

def Holds (s : State Cert Key Fp) (fp : Fp) : Prop :=
  ∀ file, s.certFile = some file → some file.mtime = s.lastMtime →
    file.content.map certFingerprint = some fp

structure Remembers (s : State Cert Key Fp) : Prop where
  fp : s.currentFp = certFingerprint s.served
  idle : s.phase = .idle → s.failed = false → s.reused = false →
    Holds certFingerprint s s.currentFp
  holding : ∀ cert, s.phase = .holding cert → s.reused = false →
    Holds certFingerprint s (certFingerprint cert)

theorem start_remembers (cert : Cert) (key : Key) (certMtime keyMtime : ℕ) :
    Remembers certFingerprint (.start certFingerprint cert key certMtime keyMtime :
      State Cert Key Fp) where
  fp := rfl
  idle _ _ _ _ _ := nofun
  holding _ := nofun

section Remembers

variable {certFingerprint} {s : State Cert Key Fp}

theorem holds_certEvent (e : FileEvent Cert) (fp : Fp)
    (h : s.reused = false → Holds certFingerprint s fp) (hr : (s.certEvent e).reused = false) :
    Holds certFingerprint (s.certEvent e) fp := by
  intro file hf hm
  cases e with
  | rewrite content readable mtime =>
    obtain rfl := Option.some.inj hf
    exact absurd hm (of_decide_eq_false hr)
  | chmod readable =>
    obtain ⟨old,ho,rfl⟩ := Option.map_eq_some_iff.mp (show s.certFile.map _ = some file from hf)
    exact h hr old ho hm
  | remove => cases hf

theorem Remembers.certEvent (h : Remembers certFingerprint s) (e : FileEvent Cert) :
    Remembers certFingerprint (s.certEvent e) where
  fp := h.fp
  idle hp hf := holds_certEvent e s.currentFp (h.idle hp hf)
  holding cert hp := holds_certEvent e (certFingerprint cert) (h.holding cert hp)

theorem Remembers.keyEvent (h : Remembers certFingerprint s) (e : FileEvent Key) :
    Remembers certFingerprint (s.keyEvent e) := ⟨h.fp,h.idle,h.holding⟩

theorem Remembers.fail (h : Remembers certFingerprint s) : Remembers certFingerprint s.fail :=
  ⟨h.fp,nofun,nofun⟩

theorem Remembers.wake (h : Remembers certFingerprint s) (hup : Bool) :
    Remembers certFingerprint (s.wake hup) := by
  unfold State.wake
  split_ifs
  · exact h
  · exact ⟨h.fp,nofun,nofun⟩

theorem Remembers.loadOrGenerate (h : Remembers certFingerprint s) :
    Remembers certFingerprint s.loadOrGenerate := by
  unfold State.loadOrGenerate
  split
  · exact ⟨h.fp,nofun,nofun⟩
  · exact ⟨h.fp,nofun,nofun⟩
  · exact h.fail

theorem fromPemFile_content {α : Type} {file : Option (PemFile α)} {f : PemFile α} {a : α}
    (h : PemFile.fromPemFile file = some a) (hf : file = some f) : f.content = some a := by
  subst hf
  simp only [PemFile.fromPemFile, Option.bind_some] at h
  split_ifs at h
  exact h

theorem Remembers.readCert (h : Remembers certFingerprint s) :
    Remembers certFingerprint s.readCert := by
  unfold State.readCert
  cases hc : PemFile.fromPemFile s.certFile with
  | none => exact h.fail
  | some cert =>
    refine ⟨h.fp,nofun,?_⟩
    rintro _ ⟨⟩ - file hf -
    rw [fromPemFile_content hc hf]
    rfl

variable [DecidableEq Fp]

theorem Remembers.install (h : Remembers certFingerprint s) (cert : Cert) (key : Key)
    (hh : s.reused = false → Holds certFingerprint s (certFingerprint cert)) :
    Remembers certFingerprint (s.install certFingerprint pairs cert key) := by
  unfold State.install
  split_ifs with hfp hp
  · exact ⟨h.fp,fun _ _ hr => hfp ▸ hh hr,nofun⟩
  · exact ⟨rfl,fun _ _ hr => hh hr,nofun⟩
  · exact h.fail

theorem Remembers.readKey (h : Remembers certFingerprint s) (cert : Cert)
    (hp : s.phase = .holding cert) :
    Remembers certFingerprint (s.readKey certFingerprint pairs cert) := by
  unfold State.readKey
  cases PemFile.fromPemFile s.keyFile with
  | none => exact h.fail
  | some key => exact h.install pairs cert key (h.holding cert hp)

theorem Remembers.generate (h : Remembers certFingerprint s) (cert : Cert) (key : Key)
    (certMtime keyMtime : ℕ) (certOk keyOk : Bool) : Remembers certFingerprint
      (s.generate certFingerprint pairs cert key certMtime keyMtime certOk keyOk) := by
  have hc := h.certEvent (.rewrite (some cert) true certMtime)
  unfold State.generate
  split_ifs with h1 h2
  · refine (hc.keyEvent (.rewrite (some key) true keyMtime)).install pairs cert key ?_
    rintro - file hf -
    obtain rfl := Option.some.inj hf
    rfl
  · exact hc.fail
  · exact h.fail

end Remembers

theorem Complete.files {s : State Cert Key Fp} {cert : Cert} {key : Key}
    (h : Complete pairs s cert key) :
    ∃ c k, s.certFile = some c ∧ s.keyFile = some k := by
  obtain ⟨hc,hk,-⟩ := h
  obtain ⟨c,hcf,-⟩ := Option.bind_eq_some_iff.mp hc
  obtain ⟨k,hkf,-⟩ := Option.bind_eq_some_iff.mp hk
  exact ⟨c,k,hcf,hkf⟩

theorem sound_noticed (s : State Cert Key Fp) (a : Act Cert Key)
    (h : Remembers certFingerprint s) (hs : Sound s a) : Noticed certFingerprint pairs s a := by
  cases a with
  | wake hup =>
    cases hup with
    | true => trivial
    | false =>
      intro hp cert key hc hnew hm
      obtain ⟨hf,hr⟩ := hs hm
      obtain ⟨c,-,hcf,-⟩ := hc.files
      have hcm : some c.mtime = s.lastMtime := by rw [← hm, State.mtime, hcf]; rfl
      have hcc := h.idle hp hf hr c hcf hcm
      rw [fromPemFile_content hc.1 hcf] at hcc
      exact hnew (Option.some.inj hcc)
  | _ => trivial

theorem distinct_of_injective (hinj : Function.Injective certFingerprint) (s : State Cert Key Fp)
    (a : Act Cert Key) (h : Remembers certFingerprint s) : Distinct certFingerprint pairs s a := by
  cases a with
  | wake hup => exact fun _ _ _ _ hfp => hinj (hfp.trans h.fp)
  | _ => trivial

variable [DecidableEq Fp]

theorem step_remembers (s : State Cert Key Fp) (a : Act Cert Key) (t : State Cert Key Fp) (h : Remembers certFingerprint s)
    (hst : step certFingerprint pairs s a = some t) : Remembers certFingerprint t := by
  cases a with
  | cert e =>
    simp only [step] at hst
    split_ifs at hst
    cases hst
    exact h.certEvent e
  | key e =>
    simp only [step] at hst
    split_ifs at hst
    cases hst
    exact h.keyEvent e
  | wake hup =>
    cases hp : s.phase <;> simp only [step, hp] at hst <;> cases hst
    exact h.wake hup
  | loadOrGenerate =>
    cases hp : s.phase <;> simp only [step, hp] at hst <;> cases hst
    exact h.loadOrGenerate
  | readCert =>
    cases hp : s.phase <;> simp only [step, hp] at hst <;> cases hst
    exact h.readCert
  | readKey =>
    cases hp : s.phase with
    | holding cert =>
      simp only [step, hp] at hst
      cases hst
      exact h.readKey pairs cert hp
    | _ => simp [step, hp] at hst
  | generate cert key certMtime keyMtime certOk keyOk =>
    cases hp : s.phase <;> simp only [step, hp] at hst <;> cases hst
    exact h.generate pairs cert key certMtime keyMtime certOk keyOk

section Tick

variable {s : State Cert Key Fp} {cert : Cert} {key : Key}

theorem tick_skips (hp : s.phase = .idle) (hm : s.mtime = s.lastMtime) :
    tick certFingerprint pairs s false = some s := by
  have hw : s.wake false = s := if_pos ⟨rfl,hm⟩
  simp only [tick, hw, hp]

/-- A tick that looks into a complete pair swaps the certificate unless the two
have the same fingerprint. -/
theorem tick_loads (hc : Complete pairs s cert key) (hup : Bool)
    (hm : ¬(hup = false ∧ s.mtime = s.lastMtime)) : ∃ t,
      tick certFingerprint pairs s hup = some t ∧
        t.served = if certFingerprint cert = s.currentFp then s.served else cert := by
  obtain ⟨c,k,hcf,hkf⟩ := hc.files
  obtain ⟨hc,hk,hpairs⟩ := hc
  have hw : s.wake hup = { s with lastMtime := s.mtime, phase := .loading, reused := false } :=
    if_neg hm
  refine ⟨({ s with
    lastMtime := s.mtime
    phase := .holding cert
    reused := false } : State Cert Key Fp).install certFingerprint pairs cert key,?_,?_⟩
  · simp only [tick, hw, run, step, State.loadOrGenerate, hcf, hkf, State.readCert,
      State.readKey, Option.bind_some]
    simp only [← hcf, ← hkf, hc, hk, Option.bind_some]
  · unfold State.install
    by_cases hfp : certFingerprint cert = s.currentFp
    · rw [if_pos hfp, if_pos hfp]
    · rw [if_neg hfp, if_pos hpairs, if_neg hfp]

theorem tick_same (hp : s.phase = .idle) (hc : Complete pairs s cert key) (hup : Bool)
    (hfp : certFingerprint cert = s.currentFp) :
    ∃ t, tick certFingerprint pairs s hup = some t ∧ t.served = s.served := by
  by_cases hm : hup = false ∧ s.mtime = s.lastMtime
  · obtain ⟨rfl,hm⟩ := hm
    exact ⟨s,tick_skips certFingerprint pairs hp hm,rfl⟩
  · obtain ⟨t,ht,hs⟩ := tick_loads certFingerprint pairs hc hup hm
    exact ⟨t,ht,hs.trans (if_pos hfp)⟩

end Tick

theorem converges_iff_noticed (s : State Cert Key Fp) (a : Act Cert Key)
    (h : Remembers certFingerprint s) : Converges certFingerprint pairs s a ↔
      Noticed certFingerprint pairs s a ∧ Distinct certFingerprint pairs s a := by
  cases a with
  | wake hup =>
    constructor
    · intro hcv
      constructor
      · cases hup with
        | true => trivial
        | false =>
          intro hp cert key hc hnew hm
          obtain ⟨t,ht,hs⟩ := hcv hp cert key hc
          obtain rfl := Option.some.inj ((tick_skips certFingerprint pairs hp hm).symm.trans ht)
          exact hnew (hs ▸ h.fp.symm)
      · intro hp cert key hc hfp
        obtain ⟨t,ht,hs⟩ := hcv hp cert key hc
        obtain ⟨u,hu,hsame⟩ := tick_same certFingerprint pairs hp hc hup hfp
        obtain rfl := Option.some.inj (hu.symm.trans ht)
        exact hs.symm.trans hsame
    · rintro ⟨hn,hd⟩ hp cert key hc
      by_cases hfp : certFingerprint cert = s.currentFp
      · obtain ⟨t,ht,hs⟩ := tick_same certFingerprint pairs hp hc hup hfp
        exact ⟨t,ht,hs.trans (hd hp cert key hc hfp).symm⟩
      · have hm : ¬(hup = false ∧ s.mtime = s.lastMtime) := by
          rintro ⟨rfl,hm⟩
          exact hn hp cert key hc hfp hm
        obtain ⟨t,ht,hs⟩ := tick_loads certFingerprint pairs hc hup hm
        exact ⟨t,ht,hs.trans (if_neg hfp)⟩
  | _ => exact iff_of_true trivial ⟨trivial,trivial⟩

/-- Every tick over a complete pair ends with its certificate exactly in the runs
in which each new certificate shows in the mtime and in the fingerprint. It does
show in the mtime as long as no tick goes by the mtime of a check that failed or
of another version, and in the fingerprint if no two certificates have the same. -/
theorem cert_reload_iff (cert : Cert) (key : Key) (certMtime keyMtime : ℕ)
    (as : List (Act Cert Key)) :
    (Meets (step certFingerprint pairs) (Converges certFingerprint pairs) as
        (.start certFingerprint cert key certMtime keyMtime) ↔
      Meets (step certFingerprint pairs)
        (fun s a => Noticed certFingerprint pairs s a ∧ Distinct certFingerprint pairs s a) as
        (.start certFingerprint cert key certMtime keyMtime)) ∧
    (Meets (step certFingerprint pairs) Sound as
        (.start certFingerprint cert key certMtime keyMtime) →
      Meets (step certFingerprint pairs) (Noticed certFingerprint pairs) as
        (.start certFingerprint cert key certMtime keyMtime)) ∧
    (Function.Injective certFingerprint →
      Meets (step certFingerprint pairs) (Distinct certFingerprint pairs) as
        (.start certFingerprint cert key certMtime keyMtime)) := by
  have hs := start_remembers certFingerprint cert key certMtime keyMtime
  have hstep := step_remembers certFingerprint pairs
  refine ⟨?_,fun h => ?_,fun hinj => ?_⟩
  · exact meets_iff_along (fun s a t hi _ => hstep s a t hi)
      (fun s a => converges_iff_noticed certFingerprint pairs s a) as _ hs
  · exact meets_of_invariant (fun s a t hi _ => hstep s a t hi)
      (fun s a => sound_noticed certFingerprint pairs s a) as _ h hs
  · exact meets_always hstep (fun s a => distinct_of_injective certFingerprint pairs hinj s a) as _ hs

def sameNumber (cert key : ℕ) : Bool := cert == key

def renewal : List (Act ℕ ℕ) :=
  [.cert (.rewrite (some 1) true 20),.key (.rewrite (some 1) true 20),.wake false,
    .loadOrGenerate,.readCert,.readKey]

theorem renewal_converges :
    Meets (step id sameNumber) (Converges id sameNumber) renewal (.start id 0 0 10 10) := by
  have hsound : Meets (step id sameNumber) Sound renewal (.start id 0 0 10 10) := by
    refine ⟨trivial,fun s hs => ⟨trivial,fun t ht => ⟨?_,fun u _ => ⟨trivial,fun _ _ =>
      ⟨trivial,fun _ _ => ⟨trivial,fun _ _ => trivial⟩⟩⟩⟩⟩⟩
    intro hm
    obtain rfl := Option.some.inj (show some _ = some s from hs)
    obtain rfl := Option.some.inj (show some _ = some t from ht)
    exact absurd hm (by decide)
  obtain ⟨hiff,hnoticed,hdistinct⟩ := cert_reload_iff id sameNumber 0 0 10 10 renewal
  exact hiff.mpr ((meets_and _ _).mpr ⟨hnoticed hsound,hdistinct Function.injective_id⟩)

def halfWritten : List (Act ℕ ℕ) :=
  [.cert (.rewrite (some 1) true 20),.wake false,.loadOrGenerate,.readCert,.readKey,
    .key (.rewrite (some 1) true 30)]

/-- The pair is complete, and the old certificate stays. -/
theorem half_written_pair_not_retried :
    ¬∀ as : List (Act ℕ ℕ), Meets (step id sameNumber) (Converges id sameNumber) as
      (.start id 0 0 10 10) := by
  intro h
  have hr : ∃ s, run (step id sameNumber) halfWritten (.start id 0 0 10 10) = some s ∧
      s.phase = .idle ∧ Complete sameNumber s 1 1 ∧ s.mtime = s.lastMtime ∧ s.served = 0 :=
    ⟨_,rfl,rfl,⟨rfl,rfl,rfl⟩,rfl,rfl⟩
  obtain ⟨s,hr,hp,hc,hm,hs⟩ := hr
  have hcv : Converges id sameNumber s (.wake false) :=
    meets_at halfWritten [] (.wake false) _ s (h (halfWritten++[.wake false])) hr
  obtain ⟨t,ht,hserved⟩ := hcv hp 1 1 hc
  obtain rfl := Option.some.inj ((tick_skips id sameNumber hp hm).symm.trans ht)
  rw [hs] at hserved
  cases hserved

end Hydr.CertReload
