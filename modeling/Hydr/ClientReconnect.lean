import Mathlib
import Hydr.Library.Transition

/-!
# How a client replaces its tunnel

The datagram loop and any number of stream openings share the tunnel, the
handle, the generation and the reconnect lock. Only the openings take the lock
and compare generations; the loop sleeps and reconnects by itself. Between two
awaits a task takes one step. The loop holds the tunnel's mutex while it
receives, a reconnect while it stores its tunnel.
-/

set_option autoImplicit false

namespace Hydr.Reconnect
open Transition

inductive Phase where
  | connecting
  | storing (new : ℕ)
  | writing (handle : ℕ)
  | counting
  deriving DecidableEq

inductive Serve where
  | locking
  | receiving
  | sleeping (failed : ℕ)
  | reconnecting (failed : ℕ) (phase : Phase)
  deriving DecidableEq

inductive Opening where
  | idle
  | opening (handle : ℕ)
  | failed (handle : ℕ)
  | waiting (failed : ℕ) (seen : UInt64)
  | locked (failed : ℕ) (seen : UInt64)
  | reconnecting (failed : ℕ) (phase : Phase)
  | retrying
  | done
  deriving DecidableEq

structure Replacement where
  task : Option ℕ
  failed : ℕ
  replaced : ℕ
  deriving DecidableEq

/-- Tunnels are numbered as they are connected. The datagram loop is `none`
among the tasks. -/
structure Client where
  tunnel : ℕ
  handle : ℕ
  tunnelGen : UInt64
  reconnectLock : Option ℕ
  connected : ℕ
  serve : Serve
  openings : ℕ → Opening
  replacements : List Replacement

def Client.init : Client where
  tunnel := 0
  handle := 0
  tunnelGen := 0
  reconnectLock := none
  connected := 1
  serve := .locking
  openings _ := .idle
  replacements := []

inductive Act where
  | lockTunnel
  | received
  | broken
  | wake
  | call (t : ℕ)
  | opened (t : ℕ)
  | lost (t : ℕ)
  | sample (t : ℕ)
  | lock (t : ℕ)
  | check (t : ℕ)
  | retry (t : ℕ)
  | connect (p : Option ℕ)
  | refused (p : Option ℕ)
  | store (p : Option ℕ)
  | write (p : Option ℕ)
  | count (p : Option ℕ)

namespace Client

def phase (s : Client) : Option ℕ → Option (ℕ × Phase)
  | none =>
    match s.serve with
    | .reconnecting failed phase => some (failed,phase)
    | _ => none
  | some t =>
    match s.openings t with
    | .reconnecting failed phase => some (failed,phase)
    | _ => none

def setOpening (s : Client) (t : ℕ) (o : Opening) : Client :=
  { s with openings := Function.update s.openings t o }

def goto (s : Client) (p : Option ℕ) (failed : ℕ) (phase : Phase) : Client :=
  match p with
  | none => { s with serve := .reconnecting failed phase }
  | some t => s.setOpening t (.reconnecting failed phase)

def leave (s : Client) (p : Option ℕ) (ok : Bool) : Client :=
  match p with
  | none => { s with serve := .locking }
  | some t => { s.setOpening t (if ok then .retrying else .done) with reconnectLock := none }

def step (s : Client) : Act → Option Client
  | .lockTunnel =>
    match s.serve with
    | .locking => some { s with serve := .receiving }
    | _ => none
  | .received =>
    match s.serve with
    | .receiving => some { s with serve := .locking }
    | _ => none
  | .broken =>
    match s.serve with
    | .receiving => some { s with serve := .sleeping s.tunnel }
    | _ => none
  | .wake =>
    match s.serve with
    | .sleeping failed => some { s with serve := .reconnecting failed .connecting }
    | _ => none
  | .call t =>
    match s.openings t with
    | .idle => some (s.setOpening t (.opening s.handle))
    | _ => none
  | .opened t =>
    match s.openings t with
    | .opening _ => some (s.setOpening t .done)
    | _ => none
  | .lost t =>
    match s.openings t with
    | .opening handle => some (s.setOpening t (.failed handle))
    | _ => none
  | .sample t =>
    match s.openings t with
    | .failed failed => some (s.setOpening t (.waiting failed s.tunnelGen))
    | _ => none
  | .lock t =>
    match s.openings t, s.reconnectLock with
    | .waiting failed seen, none =>
      some { s.setOpening t (.locked failed seen) with reconnectLock := some t }
    | _, _ => none
  | .check t =>
    match s.openings t with
    | .locked failed seen =>
      if s.tunnelGen ≠ seen then some { s.setOpening t .retrying with reconnectLock := none }
      else some (s.setOpening t (.reconnecting failed .connecting))
    | _ => none
  | .retry t =>
    match s.openings t with
    | .retrying => some (s.setOpening t .done)
    | _ => none
  | .connect p =>
    match s.phase p with
    | some (failed,.connecting) =>
      some ({ s with connected := s.connected+1 }.goto p failed (.storing s.connected))
    | _ => none
  | .refused p =>
    match s.phase p with
    | some (_,.connecting) => some (s.leave p false)
    | _ => none
  | .store p =>
    match s.phase p, s.serve with
    | _, .receiving => none
    | some (failed,.storing new), _ =>
      some ({ s with
        tunnel := new
        replacements := s.replacements++[Replacement.mk p failed s.tunnel] }.goto p failed (.writing new))
    | _, _ => none
  | .write p =>
    match s.phase p with
    | some (failed,.writing handle) => some ({ s with handle := handle }.goto p failed .counting)
    | _ => none
  | .count p =>
    match s.phase p with
    | some (_,.counting) => some ({ s with tunnelGen := s.tunnelGen+1 }.leave p true)
    | _ => none

def decides (s : Client) : Act → Option (Option ℕ × ℕ)
  | .wake =>
    match s.serve with
    | .sleeping failed => some (none,failed)
    | _ => none
  | .check t =>
    match s.openings t with
    | .locked failed seen => if s.tunnelGen = seen then some (some t,failed) else none
    | _ => none
  | _ => none

@[simp] theorem goto_tunnel (s : Client) (p : Option ℕ) (f : ℕ) (ph : Phase) :
    (s.goto p f ph).tunnel = s.tunnel := by cases p <;> rfl

@[simp] theorem goto_handle (s : Client) (p : Option ℕ) (f : ℕ) (ph : Phase) :
    (s.goto p f ph).handle = s.handle := by cases p <;> rfl

@[simp] theorem goto_connected (s : Client) (p : Option ℕ) (f : ℕ) (ph : Phase) :
    (s.goto p f ph).connected = s.connected := by cases p <;> rfl

@[simp] theorem goto_replacements (s : Client) (p : Option ℕ) (f : ℕ) (ph : Phase) :
    (s.goto p f ph).replacements = s.replacements := by cases p <;> rfl

@[simp] theorem leave_tunnel (s : Client) (p : Option ℕ) (ok : Bool) :
    (s.leave p ok).tunnel = s.tunnel := by cases p <;> rfl

@[simp] theorem leave_handle (s : Client) (p : Option ℕ) (ok : Bool) :
    (s.leave p ok).handle = s.handle := by cases p <;> rfl

@[simp] theorem leave_connected (s : Client) (p : Option ℕ) (ok : Bool) :
    (s.leave p ok).connected = s.connected := by cases p <;> rfl

@[simp] theorem leave_replacements (s : Client) (p : Option ℕ) (ok : Bool) :
    (s.leave p ok).replacements = s.replacements := by cases p <;> rfl

theorem goto_phase (s : Client) (p : Option ℕ) (f : ℕ) (ph : Phase) :
    (s.goto p f ph).phase = Function.update s.phase p (some (f,ph)) := by
  funext k
  by_cases hk : k = p
  · subst hk
    cases k <;> simp [goto, phase, setOpening]
  · rw [Function.update_of_ne hk]
    cases p <;> cases k <;> simp_all [goto, phase, setOpening]

theorem setOpening_phase (s : Client) (t : ℕ) (o : Opening)
    (h : ∀ f ph, o ≠ .reconnecting f ph) :
    (s.setOpening t o).phase = Function.update s.phase (some t) none := by
  funext k
  by_cases hk : k = some t
  · subst hk
    rw [Function.update_self]
    cases o <;> simp_all [phase, setOpening]
  · rw [Function.update_of_ne hk]
    cases k <;> simp_all [phase, setOpening]

theorem leave_phase (s : Client) (p : Option ℕ) (ok : Bool) :
    (s.leave p ok).phase = Function.update s.phase p none := by
  cases p with
  | none =>
    funext k
    cases k <;> simp [leave, phase]
  | some t =>
    have h := setOpening_phase s t (if ok then .retrying else .done) (by cases ok <;> simp)
    rw [← h]
    rfl

structure View where
  tunnel : ℕ
  handle : ℕ
  connected : ℕ
  replacements : List Replacement
  phase : Option ℕ → Option (ℕ × Phase)

def view (s : Client) : View := ⟨s.tunnel,s.handle,s.connected,s.replacements,s.phase⟩

inductive Changes (s : Client) : Act → View → Prop where
  | stays (a : Act) : Changes s a s.view
  | decides (a : Act) (p : Option ℕ) (f : ℕ) (hd : s.decides a = some (p,f))
      (hp : s.phase p = none) :
    Changes s a { s.view with phase := Function.update s.phase p (some (f,.connecting)) }
  | returns (a : Act) (p : Option ℕ) (f : ℕ) (ph : Phase) (hp : s.phase p = some (f,ph))
      (hn : ∀ h, ph ≠ .writing h) :
    Changes s a { s.view with phase := Function.update s.phase p none }
  | connects (p : Option ℕ) (f : ℕ) (hp : s.phase p = some (f,.connecting)) :
    Changes s (.connect p) { s.view with
      connected := s.connected+1
      phase := Function.update s.phase p (some (f,.storing s.connected)) }
  | stores (p : Option ℕ) (f new : ℕ) (hp : s.phase p = some (f,.storing new)) :
    Changes s (.store p) { s.view with
      tunnel := new
      replacements := s.replacements++[⟨p,f,s.tunnel⟩]
      phase := Function.update s.phase p (some (f,.writing new)) }
  | writes (p : Option ℕ) (f h : ℕ) (hp : s.phase p = some (f,.writing h)) :
    Changes s (.write p) { s.view with
      handle := h
      phase := Function.update s.phase p (some (f,.counting)) }

theorem goto_view (s : Client) (p : Option ℕ) (f : ℕ) (ph : Phase) :
    (s.goto p f ph).view = { s.view with phase := Function.update s.phase p (some (f,ph)) } := by
  simp [view, goto_phase]

theorem leave_view (s : Client) (p : Option ℕ) (ok : Bool) :
    (s.leave p ok).view = { s.view with phase := Function.update s.phase p none } := by
  simp [view, leave_phase]

theorem aside_view (s : Client) (t : ℕ) (o : Opening) (lock : Option ℕ)
    (hs : s.phase (some t) = none) (ho : ∀ f ph, o ≠ .reconnecting f ph) :
    ({ s.setOpening t o with reconnectLock := lock } : Client).view = s.view := by
  have hp := setOpening_phase s t o ho
  rw [Function.update_eq_self_iff.mpr hs.symm] at hp
  simp only [view, View.mk.injEq]
  exact ⟨rfl,rfl,rfl,rfl,hp⟩

theorem changes_of_step (s t : Client) (a : Act) (h : s.step a = some t) :
    Changes s a t.view := by
  have hstay : ∀ a, t.view = s.view → Changes s a t.view := fun a he => he ▸ .stays a
  cases a with
  | lockTunnel | received | broken =>
    simp only [step] at h
    split at h
    · rename_i hs
      cases h
      apply hstay
      simp only [view, View.mk.injEq, true_and]
      funext k
      cases k <;> simp [phase, hs]
    · cases h
  | wake =>
    simp only [step] at h
    split at h
    · rename_i f hs
      cases h
      have hp : s.phase none = none := by simp [phase, hs]
      have he := goto_view s none f .connecting
      exact he ▸ .decides .wake none f (by simp [decides, hs]) hp
    · cases h
  | call k | opened k | lost k | sample k | retry k =>
    simp only [step] at h
    split at h
    · rename_i hs
      cases h
      exact hstay _ (aside_view s k _ s.reconnectLock (by simp [phase, hs]) (by simp))
    · cases h
  | lock k =>
    simp only [step] at h
    split at h
    · rename_i hs _
      cases h
      exact hstay _ (aside_view s k _ _ (by simp [phase, hs]) (by simp))
    · cases h
  | check k =>
    simp only [step] at h
    split at h
    · rename_i f seen hs
      have hp : s.phase (some k) = none := by simp [phase, hs]
      split_ifs at h with hg
      · cases h
        exact hstay _ (aside_view s k _ _ hp (by simp))
      · cases h
        have he := goto_view s (some k) f .connecting
        exact he ▸ .decides (.check k) (some k) f (by simp [decides, hs, not_not.mp hg]) hp
    · cases h
  | connect p =>
    simp only [step] at h
    split at h
    · rename_i f hs
      cases h
      rw [goto_view]
      exact .connects p f hs
    · cases h
  | refused p =>
    simp only [step] at h
    split at h
    · rename_i f hs
      cases h
      rw [leave_view]
      exact .returns _ p f _ hs (by simp)
    · cases h
  | store p =>
    simp only [step] at h
    split at h
    · cases h
    · rename_i f new hs _
      cases h
      rw [goto_view]
      exact .stores p f new hs
    · cases h
  | write p =>
    simp only [step] at h
    split at h
    · rename_i f handle hs
      cases h
      rw [goto_view]
      exact .writes p f handle hs
    · cases h
  | count p =>
    simp only [step] at h
    split at h
    · rename_i f hs
      cases h
      rw [leave_view]
      exact .returns _ p f _ hs (by simp)
    · cases h

end Client
end Hydr.Reconnect
