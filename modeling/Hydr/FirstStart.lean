import Mathlib
import Hydr.Varint

/-!
# The first start of a server

A server without certificate and key makes a pair and writes each file beside
its place before it moves it there. Either file comes to its place whole or not
at all, but the pair does not: what fails after the certificate is in its place
leaves it there without its key, and such a pair is refused from then on.
-/

set_option autoImplicit false

namespace Hydr.FirstStart

structure Path where
  stem : String
  extension : Option String
  deriving DecidableEq

def Path.withExtension (p : Path) (extension : String) : Path := { p with extension := some extension }

abbrev Files : Type := Path → Option Bytes

inductive Op where
  | create
  | write
  | sync
  | rename
  deriving DecidableEq

structure Faults where
  fails : Op → Bool
  torn : ℕ

def noFaults : Faults := ⟨fun _ => false,0⟩

structure Pki where
  generated : Option (Bytes × Bytes)
  base64 : Bytes → Bytes
  certFromPem : Bytes → Option Bytes
  keyFromPem : Bytes → Option Bytes

inductive Failure where
  | message (text : String)
  | generate
  | pem
  | cert (op : Op)
  | key (op : Op)
  deriving DecidableEq

def pemText (b64 : Bytes) (tag : String) : Bytes :=
  ascii ("-----BEGIN "++tag++"-----\n")++((b64.toChunks 64).map fun chunk => chunk++[10]).flatten++
    ascii ("-----END "++tag++"-----\n")

def rename (fs : Files) (source target : Path) : Files :=
  if source = target then fs
  else Function.update (Function.update fs target (fs source)) source none

def writePem (faults : Faults) (path : Path) (pem : Bytes) (fs : Files) : Option Op × Files :=
  let tmp := path.withExtension "tmp"
  if faults.fails .create then (some .create,fs)
  else if faults.fails .write then
    (some .write,Function.update fs tmp (some (pem.take faults.torn)))
  else if faults.fails .sync then (some .sync,Function.update fs tmp (some pem))
  else if faults.fails .rename then (some .rename,Function.update fs tmp (some pem))
  else (none,rename (Function.update fs tmp (some pem)) tmp path)

variable (pki : Pki) (onCert onKey : Faults)

def load (cert key : Bytes) : Except Failure (Bytes × Bytes) :=
  match pki.certFromPem cert with
  | none => .error .pem
  | some certDer =>
    match pki.keyFromPem key with
    | none => .error .pem
    | some keyDer => .ok (certDer,keyDer)

def store (cp kp : Path) (pair : Bytes × Bytes) (fs : Files) :
    Except Failure (Bytes × Bytes) × Files :=
  match writePem onCert cp (pemText (pki.base64 pair.1) "CERTIFICATE") fs with
  | (some op,fs) => (.error (.cert op),fs)
  | (none,fs) =>
    match writePem onKey kp (pemText (pki.base64 pair.2) "PRIVATE KEY") fs with
    | (some op,fs) => (.error (.key op),fs)
    | (none,fs) => (.ok pair,fs)

def loadOrGenerateSelfSigned (certPath keyPath : Option Path) (fs : Files) :
    Except Failure (Bytes × Bytes) × Files :=
  match certPath, keyPath with
  | some cp, some kp =>
    match fs cp, fs kp with
    | some cert, some key => (load pki cert key,fs)
    | none, none =>
      match pki.generated with
      | none => (.error .generate,fs)
      | some pair => store pki onCert onKey cp kp pair fs
    | _, _ => (.error (.message "cert and key must either both exist or both be absent"),fs)
  | none, none =>
    match pki.generated with
    | none => (.error .generate,fs)
    | some pair => (.ok pair,fs)
  | _, _ => (.error (.message "cert and key paths must be set together"),fs)

variable (cp kp : Path) (fs : Files)

def SameExistence (fs' : Files) : Prop :=
  (fs' cp).isSome = (fs cp).isSome ∧ (fs' kp).isSome = (fs kp).isSome

def Interrupted (r : Except Failure (Bytes × Bytes)) : Prop :=
  ∃ op, r = .error (.cert op) ∨ r = .error (.key op)

/-- The call makes the pair or leaves things as they were: where it errs the same
files are there, after a failed operation the next call without failures succeeds,
and a pair that is there stays as it is. -/
structure Atomic : Prop where
  unchanged : (loadOrGenerateSelfSigned pki onCert onKey (some cp) (some kp) fs).1.isOk = false →
    SameExistence cp kp fs (loadOrGenerateSelfSigned pki onCert onKey (some cp) (some kp) fs).2
  retried : Interrupted (loadOrGenerateSelfSigned pki onCert onKey (some cp) (some kp) fs).1 →
    ∀ later : Pki, later.generated.isSome = true →
      (loadOrGenerateSelfSigned later noFaults noFaults (some cp) (some kp)
        (loadOrGenerateSelfSigned pki onCert onKey (some cp) (some kp) fs).2).1.isOk = true
  kept : (fs cp).isSome = true → (fs kp).isSome = true →
    (loadOrGenerateSelfSigned pki onCert onKey (some cp) (some kp) fs).2 = fs

/-- Where a new pair is written, nothing fails, or the first operation does, or
another on the certificate does whose temporary file is neither of the two. -/
def FailsInTime : Prop :=
  fs cp = none → fs kp = none → pki.generated.isSome = true →
    (∀ op, onCert.fails op = false ∧ onKey.fails op = false) ∨ onCert.fails .create = true ∨
      (∃ op, onCert.fails op = true) ∧ cp.withExtension "tmp" ≠ cp ∧ cp.withExtension "tmp" ≠ kp

section
variable (faults : Faults) (path : Path) (pem : Bytes)

theorem writePem_done (h : ∀ op, faults.fails op = false) : writePem faults path pem fs =
    (none,rename (Function.update fs (path.withExtension "tmp") (some pem))
      (path.withExtension "tmp") path) := by
  simp [writePem, h]

/-- After the create a failure leaves something in the temporary file, and nothing else. -/
theorem writePem_torn (hc : faults.fails .create = false) (h : ∃ op, faults.fails op = true) :
    ∃ op content, writePem faults path pem fs =
      (some op,Function.update fs (path.withExtension "tmp") (some content)) := by
  obtain ⟨op,ho⟩ := h
  by_cases hw : faults.fails .write = true
  · exact ⟨.write,pem.take faults.torn,by simp [writePem, hc, hw]⟩
  by_cases hs : faults.fails .sync = true
  · exact ⟨.sync,pem,by simp [writePem, hc, hw, hs]⟩
  have hr : faults.fails .rename = true := by
    cases op with
    | create => exact absurd (hc.symm.trans ho) Bool.false_ne_true
    | write => exact absurd ho hw
    | sync => exact absurd ho hs
    | rename => exact ho
  exact ⟨.rename,pem,by simp [writePem, hc, hw, hs, hr]⟩

theorem writePem_failed (h : ∃ op, faults.fails op = true) (other : Path)
    (ho : (fs other).isSome = true) : ∃ op fs', writePem faults path pem fs = (some op,fs') ∧
      (fs' other).isSome = true := by
  cases hc : faults.fails .create with
  | true => exact ⟨.create,fs,by simp [writePem, hc],ho⟩
  | false =>
    obtain ⟨op,content,hw⟩ := writePem_torn fs faults path pem hc h
    refine ⟨op,_,hw,?_⟩
    by_cases he : other = path.withExtension "tmp"
    · subst he
      rw [Function.update_self]
      rfl
    · rwa [Function.update_of_ne he]

theorem rename_target (source target : Path) :
    rename (Function.update fs source (some pem)) source target target = some pem := by
  by_cases h : source = target
  · rw [rename, if_pos h, ← h, Function.update_self]
  · rw [rename, if_neg h, Function.update_of_ne (Ne.symm h), Function.update_self,
      Function.update_self]

end

section
variable {pki onCert onKey cp kp fs}

theorem fresh_ok (hc : fs cp = none) (hk : fs kp = none) (hg : pki.generated.isSome = true) :
    (loadOrGenerateSelfSigned pki noFaults noFaults (some cp) (some kp) fs).1.isOk = true := by
  obtain ⟨pair,hg⟩ := Option.isSome_iff_exists.mp hg
  simp only [loadOrGenerateSelfSigned, hc, hk, hg, store, writePem_done _ noFaults _ _ fun _ => rfl]
  rfl

theorem atomic_of_idle {r : Except Failure (Bytes × Bytes)}
    (h : loadOrGenerateSelfSigned pki onCert onKey (some cp) (some kp) fs = (r,fs))
    (hr : ¬Interrupted r) : Atomic pki onCert onKey cp kp fs where
  unchanged _ := by
    rw [h]
    exact ⟨rfl,rfl⟩
  retried hi := by
    rw [h] at hi
    exact absurd hi hr
  kept _ _ := by rw [h]

theorem load_not_interrupted (cert key : Bytes) : ¬Interrupted (load pki cert key) := by
  rintro ⟨op,h | h⟩ <;> unfold load at h <;> split at h <;> try cases h
  all_goals split at h <;> cases h

theorem atomic_of_present (h : ¬(fs cp = none ∧ fs kp = none)) :
    Atomic pki onCert onKey cp kp fs := by
  have hhalf : ¬Interrupted
      (.error (.message "cert and key must either both exist or both be absent")) := by
    rintro ⟨op,hi | hi⟩ <;> cases hi
  cases hc : fs cp with
  | none =>
    cases hk : fs kp with
    | none => exact absurd ⟨hc,hk⟩ h
    | some key => exact atomic_of_idle (by simp only [loadOrGenerateSelfSigned, hc, hk]) hhalf
  | some cert =>
    cases hk : fs kp with
    | none => exact atomic_of_idle (by simp only [loadOrGenerateSelfSigned, hc, hk]) hhalf
    | some key =>
      exact atomic_of_idle (r := load pki cert key)
        (by simp only [loadOrGenerateSelfSigned, hc, hk]) (load_not_interrupted cert key)

variable (hc : fs cp = none) (hk : fs kp = none) {pair : Bytes × Bytes}
  (hg : pki.generated = some pair)
include hc hk hg

/-- Where neither file is there, the call keeps them so or does not fail. -/
theorem atomic_store_iff {r : Except Failure (Bytes × Bytes)} {fs' : Files}
    (h : store pki onCert onKey cp kp pair fs = (r,fs')) (hi : r.isOk = false) :
    Atomic pki onCert onKey cp kp fs ↔ fs' cp = none ∧ fs' kp = none := by
  have hcall : loadOrGenerateSelfSigned pki onCert onKey (some cp) (some kp) fs = (r,fs') := by
    simp only [loadOrGenerateSelfSigned, hc, hk, hg, h]
  constructor
  · intro ha
    have hs := ha.unchanged (by rw [hcall]; exact hi)
    rw [hcall] at hs
    have h1 := hs.1
    have h2 := hs.2
    rw [hc] at h1
    rw [hk] at h2
    exact ⟨Option.isNone_iff_eq_none.mp (by simpa using h1),
      Option.isNone_iff_eq_none.mp (by simpa using h2)⟩
  · rintro ⟨h1,h2⟩
    constructor
    · intro _
      rw [hcall]
      exact ⟨by rw [hc, ← h1],by rw [hk, ← h2]⟩
    · intro _ later hl
      rw [hcall]
      exact fresh_ok h1 h2 hl
    · intro hp
      rw [hc] at hp
      cases hp

theorem atomic_cert_create (hf : onCert.fails .create = true) :
    Atomic pki onCert onKey cp kp fs := by
  have hst : store pki onCert onKey cp kp pair fs = (.error (.cert .create),fs) := by
    simp [store, writePem, hf]
  exact (atomic_store_iff hc hk hg hst rfl).mpr ⟨hc,hk⟩

theorem atomic_cert_torn_iff (hn : onCert.fails .create = false)
    (hf : ∃ op, onCert.fails op = true) : Atomic pki onCert onKey cp kp fs ↔
      cp.withExtension "tmp" ≠ cp ∧ cp.withExtension "tmp" ≠ kp := by
  obtain ⟨op,content,hw⟩ := writePem_torn fs onCert cp
    (pemText (pki.base64 pair.1) "CERTIFICATE") hn hf
  have hst : store pki onCert onKey cp kp pair fs = (.error (.cert op),
      Function.update fs (cp.withExtension "tmp") (some content)) := by
    simp only [store, hw]
  have hupd (p : Path) (hp : fs p = none) :
      Function.update fs (cp.withExtension "tmp") (some content) p = none ↔
        cp.withExtension "tmp" ≠ p := by
    by_cases he : p = cp.withExtension "tmp"
    · simp [← he]
    · simp [Function.update_of_ne he, hp, Ne.symm he]
  rw [atomic_store_iff hc hk hg hst rfl, hupd cp hc, hupd kp hk]

/-- The certificate is in its place, and its key is not. -/
theorem not_atomic_key (hn : ∀ op, onCert.fails op = false) (hf : ∃ op, onKey.fails op = true) :
    ¬Atomic pki onCert onKey cp kp fs := by
  have hw := writePem_done fs onCert cp (pemText (pki.base64 pair.1) "CERTIFICATE") hn
  have ht := rename_target fs (pemText (pki.base64 pair.1) "CERTIFICATE")
    (cp.withExtension "tmp") cp
  generalize rename _ _ _ = placed at hw ht
  obtain ⟨op,fs',hw',hsome⟩ := writePem_failed placed onKey kp
    (pemText (pki.base64 pair.2) "PRIVATE KEY") hf cp (by rw [ht]; rfl)
  have hst : store pki onCert onKey cp kp pair fs = (.error (.key op),fs') := by
    simp only [store, hw, hw']
  rw [atomic_store_iff hc hk hg hst rfl]
  rintro ⟨h,-⟩
  rw [h] at hsome
  cases hsome

theorem atomic_done (hn : ∀ op, onCert.fails op = false) (hn' : ∀ op, onKey.fails op = false) :
    Atomic pki onCert onKey cp kp fs := by
  have hr : (loadOrGenerateSelfSigned pki onCert onKey (some cp) (some kp) fs).1 = .ok pair := by
    simp only [loadOrGenerateSelfSigned, hc, hk, hg, store, writePem_done _ onCert cp _ hn,
      writePem_done _ onKey kp _ hn']
  constructor
  · intro he
    rw [hr] at he
    cases he
  · rintro ⟨op,he | he⟩ <;> rw [hr] at he <;> cases he
  · intro hp
    rw [hc] at hp
    cases hp

end

theorem fails_or_not (faults : Faults) :
    (∃ op, faults.fails op = true) ∨ ∀ op, faults.fails op = false := by
  by_cases h : ∃ op, faults.fails op = true
  · exact Or.inl h
  · exact Or.inr fun op => Bool.eq_false_iff.mpr fun ho => h ⟨op,ho⟩

/-- A first start is atomic exactly when a failure, if there is one, comes before
the certificate is in its place. -/
theorem first_start_iff : Atomic pki onCert onKey cp kp fs ↔ FailsInTime pki onCert onKey cp kp fs := by
  by_cases hn : fs cp = none ∧ fs kp = none
  · obtain ⟨hc,hk⟩ := hn
    cases hg : pki.generated with
    | none =>
      have ha : Atomic pki onCert onKey cp kp fs := by
        refine atomic_of_idle (r := .error .generate)
          (by simp only [loadOrGenerateSelfSigned, hc, hk, hg]) ?_
        rintro ⟨op,hi | hi⟩ <;> cases hi
      refine ⟨fun _ _ _ hs => ?_,fun _ => ha⟩
      rw [hg] at hs
      cases hs
    | some pair =>
      have hgs : pki.generated.isSome = true := by rw [hg]; rfl
      have hiff : FailsInTime pki onCert onKey cp kp fs ↔
          (∀ op, onCert.fails op = false ∧ onKey.fails op = false) ∨ onCert.fails .create = true ∨
            (∃ op, onCert.fails op = true) ∧
              cp.withExtension "tmp" ≠ cp ∧ cp.withExtension "tmp" ≠ kp :=
        ⟨fun h => h hc hk hgs,fun h _ _ _ => h⟩
      rw [hiff]
      rcases fails_or_not onCert with hf | hf
      · obtain ⟨op,ho⟩ := hf
        cases hcc : onCert.fails .create with
        | true => simp [atomic_cert_create hc hk hg hcc]
        | false =>
          have hno : ¬∀ op, onCert.fails op = false ∧ onKey.fails op = false :=
            fun h => Bool.false_ne_true ((h op).1.symm.trans ho)
          rw [atomic_cert_torn_iff hc hk hg hcc ⟨op,ho⟩]
          simp [hno, show ∃ op, onCert.fails op = true from ⟨op,ho⟩]
      · rcases fails_or_not onKey with hf' | hf'
        · obtain ⟨op,ho⟩ := hf'
          have hno : ¬∀ op, onKey.fails op = false :=
            fun h => Bool.false_ne_true ((h op).symm.trans ho)
          simp [not_atomic_key hc hk hg hf ⟨op,ho⟩, hf, hno]
        · simp [atomic_done hc hk hg hf hf', hf, hf']
  · exact ⟨fun _ h1 h2 => absurd ⟨h1,h2⟩ hn,fun _ => atomic_of_present hn⟩

def certPem : Path := ⟨"cert",some "pem"⟩

def keyPem : Path := ⟨"key",some "pem"⟩

/-- The disk is full when the key is written. -/
theorem full_disk_leaves_half : ¬∀ pki onCert onKey cp kp fs, Atomic pki onCert onKey cp kp fs := by
  intro h
  have hx := h ⟨some ([1],[2]),id,some,some⟩ noFaults ⟨fun op => op = .write,0⟩ certPem keyPem
    fun _ => none
  exact not_atomic_key rfl rfl rfl (fun _ => rfl) ⟨.write,rfl⟩ hx

end Hydr.FirstStart
