import Mathlib
import Hydr.Library.Transition

/-!
# Reloading the certificate of a running server

A task wakes up on a timer or on SIGHUP, reads certificate and key again and
gives them to the endpoint. Between its steps others write the two files, each
on its own. On the timer the task goes by the mtime of the certificate file
alone, and it takes note of the mtime before it knows whether the load succeeds.
-/

set_option autoImplicit false

namespace Hydr.CertReload
open Transition

section Files

variable {α : Type}

structure PemFile (α : Type) where
  content : Option α
  readable : Bool
  mtime : ℕ
  deriving DecidableEq

def PemFile.fromPemFile (file : Option (PemFile α)) : Option α :=
  file.bind fun f => if f.readable then f.content else none

inductive FileEvent (α : Type) where
  | rewrite (content : Option α) (readable : Bool) (mtime : ℕ)
  | chmod (readable : Bool)
  | remove

def FileEvent.apply (file : Option (PemFile α)) : FileEvent α → Option (PemFile α)
  | .rewrite content readable mtime => some ⟨content,readable,mtime⟩
  | .chmod readable => file.map fun f => { f with readable := readable }
  | .remove => none

def FileEvent.Touches (file : Option (PemFile α)) : FileEvent α → Prop
  | .rewrite _ _ mtime => file.map PemFile.mtime ≠ some mtime
  | _ => True

instance (file : Option (PemFile α)) (e : FileEvent α) : Decidable (e.Touches file) := by
  cases e <;> unfold FileEvent.Touches <;> infer_instance

end Files

inductive Phase (Cert : Type) where
  | idle
  | loading
  | reading
  | generating
  | holding (cert : Cert)
  deriving DecidableEq

/-- The files, the endpoint and the memory of the task. Two marks are kept for
the proofs: the last check has ended in an error, and the certificate file has
been rewritten under the mtime that was noted last. -/
structure State (Cert Key Fp : Type) where
  certFile : Option (PemFile Cert)
  keyFile : Option (PemFile Key)
  served : Cert
  currentFp : Fp
  lastMtime : Option ℕ
  phase : Phase Cert
  failed : Bool
  reused : Bool

inductive Act (Cert Key : Type) where
  | cert (e : FileEvent Cert)
  | key (e : FileEvent Key)
  | wake (hup : Bool)
  | loadOrGenerate
  | readCert
  | readKey
  | generate (cert : Cert) (key : Key) (certMtime keyMtime : ℕ) (certOk keyOk : Bool)

variable {Cert Key Fp : Type}
variable (certFingerprint : Cert → Fp) (pairs : Cert → Key → Bool)

namespace State

def start (cert : Cert) (key : Key) (certMtime keyMtime : ℕ) : State Cert Key Fp where
  certFile := some ⟨some cert,true,certMtime⟩
  keyFile := some ⟨some key,true,keyMtime⟩
  served := cert
  currentFp := certFingerprint cert
  lastMtime := none
  phase := .idle
  failed := false
  reused := false

def mtime (s : State Cert Key Fp) : Option ℕ := s.certFile.map PemFile.mtime

def certEvent (s : State Cert Key Fp) (e : FileEvent Cert) : State Cert Key Fp :=
  { s with
    certFile := e.apply s.certFile
    reused := match e with
      | .rewrite _ _ mtime => decide (some mtime = s.lastMtime)
      | _ => s.reused }

def keyEvent (s : State Cert Key Fp) (e : FileEvent Key) : State Cert Key Fp :=
  { s with keyFile := e.apply s.keyFile }

def fail (s : State Cert Key Fp) : State Cert Key Fp := { s with phase := .idle, failed := true }

def wake (s : State Cert Key Fp) (hup : Bool) : State Cert Key Fp :=
  if hup = false ∧ s.mtime = s.lastMtime then s
  else { s with lastMtime := s.mtime, phase := .loading, reused := false }

def loadOrGenerate (s : State Cert Key Fp) : State Cert Key Fp :=
  match s.certFile, s.keyFile with
  | some _, some _ => { s with phase := .reading }
  | none, none => { s with phase := .generating }
  | _, _ => s.fail

def readCert (s : State Cert Key Fp) : State Cert Key Fp :=
  match PemFile.fromPemFile s.certFile with
  | none => s.fail
  | some cert => { s with phase := .holding cert }

variable [DecidableEq Fp]

def install (s : State Cert Key Fp) (cert : Cert) (key : Key) : State Cert Key Fp :=
  if certFingerprint cert = s.currentFp then { s with phase := .idle, failed := false }
  else if pairs cert key then { s with
    served := cert
    currentFp := certFingerprint cert
    phase := .idle
    failed := false }
  else s.fail

def readKey (s : State Cert Key Fp) (cert : Cert) : State Cert Key Fp :=
  match PemFile.fromPemFile s.keyFile with
  | none => s.fail
  | some key => s.install certFingerprint pairs cert key

def generate (s : State Cert Key Fp) (cert : Cert) (key : Key) (certMtime keyMtime : ℕ)
    (certOk keyOk : Bool) : State Cert Key Fp :=
  if certOk then
    let s := s.certEvent (.rewrite (some cert) true certMtime)
    if keyOk then (s.keyEvent (.rewrite (some key) true keyMtime)).install certFingerprint pairs cert key
    else s.fail
  else s.fail

end State

def Complete (s : State Cert Key Fp) (cert : Cert) (key : Key) : Prop :=
  PemFile.fromPemFile s.certFile = some cert ∧ PemFile.fromPemFile s.keyFile = some key ∧
    pairs cert key = true

def Noticed (s : State Cert Key Fp) : Act Cert Key → Prop
  | .wake false => s.phase = .idle → ∀ cert key, Complete pairs s cert key →
    certFingerprint cert ≠ s.currentFp → s.mtime ≠ s.lastMtime
  | _ => True

def Distinct (s : State Cert Key Fp) : Act Cert Key → Prop
  | .wake _ => s.phase = .idle → ∀ cert key, Complete pairs s cert key →
    certFingerprint cert = s.currentFp → cert = s.served
  | _ => True

def Sound (s : State Cert Key Fp) : Act Cert Key → Prop
  | .wake false => s.mtime = s.lastMtime → s.failed = false ∧ s.reused = false
  | _ => True

variable [DecidableEq Fp]

def step (s : State Cert Key Fp) : Act Cert Key → Option (State Cert Key Fp)
  | .cert e => if e.Touches s.certFile then some (s.certEvent e) else none
  | .key e => if e.Touches s.keyFile then some (s.keyEvent e) else none
  | .wake hup => match s.phase with
    | .idle => some (s.wake hup)
    | _ => none
  | .loadOrGenerate => match s.phase with
    | .loading => some s.loadOrGenerate
    | _ => none
  | .readCert => match s.phase with
    | .reading => some s.readCert
    | _ => none
  | .readKey => match s.phase with
    | .holding cert => some (s.readKey certFingerprint pairs cert)
    | _ => none
  | .generate cert key certMtime keyMtime certOk keyOk => match s.phase with
    | .generating =>
      some (s.generate certFingerprint pairs cert key certMtime keyMtime certOk keyOk)
    | _ => none

def tick (s : State Cert Key Fp) (hup : Bool) : Option (State Cert Key Fp) :=
  match (s.wake hup).phase with
  | .idle => some (s.wake hup)
  | _ => run (step certFingerprint pairs) [.loadOrGenerate,.readCert,.readKey] (s.wake hup)

def Converges (s : State Cert Key Fp) : Act Cert Key → Prop
  | .wake hup => s.phase = .idle → ∀ cert key, Complete pairs s cert key →
    ∃ t, tick certFingerprint pairs s hup = some t ∧ t.served = cert
  | _ => True

end Hydr.CertReload
