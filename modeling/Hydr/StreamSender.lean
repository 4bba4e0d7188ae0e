import Mathlib
import Hydr.Varint

/-!
# The sending half of a stream

`pump_stream` reads the application's bytes, waits for the window, and puts
each chunk into a short queue that a forwarder task empties into the command
channel. The credit counter is raised after the chunk is queued and lowered,
down to zero at most, by the other side's credits. Waiting for the window is
spelled out check by check, since a credit may fall between any two of them.
A chunk is anything with a size.
-/

set_option autoImplicit false

namespace Hydr

class Chunk (α : Type) where
  size : α → ℕ

instance : Chunk Bytes := ⟨List.length⟩

instance : Chunk ℕ := ⟨id⟩

namespace Stream
open Chunk

def streamOutQueue : ℕ := 8

def recvWindow : ℕ := 512*1024

def creditBatch : ℕ := recvWindow/2

def bufLen : ℕ := 32*1024

inductive StreamFrame (α : Type) where
  | openStream
  | ack (ok : Bool)
  | data (chunk : α)
  | credit (amount : ℕ)
  | close
  deriving DecidableEq

/-- Where `wait_window` is: before its fast check, before it subscribes, at the
three places of the loop, or parked on the notification. -/
inductive Wait where
  | fast
  | subscribe
  | recheck
  | enable
  | finalCheck
  | parked
  deriving DecidableEq

inductive Pump (α : Type) where
  | absent
  | wait (w : Wait)
  | read
  | enqueue (chunk : α)
  | count (n : ℕ)
  | drain
  | close
  | done
  deriving DecidableEq

inductive Forwarder (α : Type) where
  | absent
  | waiting
  | holding (chunk : α)
  | ended
  deriving DecidableEq

/-- The credit counter, the pump with its queue and forwarder, and the history:
the chunks taken from the application, the bytes queued and the bytes granted. -/
structure Sender (α : Type) where
  outstanding : ℕ
  notified : Bool
  pump : Pump α
  q : List α
  forwarder : Forwarder α
  taken : List α
  enqueued : ℕ
  granted : ℕ

inductive SendAct (α : Type) where
  | check
  | chunk (a : α)
  | stop
  | enqueue
  | refuse
  | count
  | take
  | forward (ok : Bool)
  | finish
  | drained
  | close (ok : Bool)

def SendAct.admits {α : Type} (alive : Bool) : SendAct α → Bool
  | .forward ok => ok == alive
  | .close ok => ok == alive
  | _ => true

namespace Sender

variable {α : Type}

def absent : Sender α := ⟨0,false,.absent,[],.absent,[],0,0⟩

def spawn : Sender α := ⟨0,false,.wait .fast,[],.waiting,[],0,0⟩

def subscribed : Pump α → Bool
  | .wait .recheck => true
  | .wait .enable => true
  | .wait .finalCheck => true
  | .wait .parked => true
  | _ => false

def grant (s : Sender α) (n : ℕ) : Sender α :=
  { s with outstanding := s.outstanding-n, granted := s.granted+n }

def notify (s : Sender α) : Sender α :=
  { s with notified := s.notified || subscribed s.pump }

def checkWindow (s : Sender α) (next : Wait) : Sender α :=
  { s with pump := if s.outstanding < recvWindow then .read else .wait next }

def check (s : Sender α) : Wait → Option (Sender α)
  | .fast => some (s.checkWindow .subscribe)
  | .subscribe => some { s with notified := false, pump := .wait .recheck }
  | .recheck => some (s.checkWindow .enable)
  | .enable => some { s with pump := .wait .finalCheck }
  | .finalCheck => some (s.checkWindow .parked)
  | .parked => if s.notified then some { s with pump := .wait .subscribe } else none

variable [Chunk α]

def step (s : Sender α) : SendAct α → Option (Sender α × Option (StreamFrame α))
  | .check =>
    match s.pump with
    | .wait w => (s.check w).map fun t => (t,none)
    | _ => none
  | .chunk a =>
    match s.pump with
    | .read =>
      if 0 < size a ∧ size a ≤ bufLen then
        some ({ s with pump := .enqueue a, taken := s.taken++[a] },none)
      else none
    | _ => none
  | .stop =>
    match s.pump with
    | .read => some ({ s with pump := .drain },none)
    | _ => none
  | .enqueue =>
    match s.pump, s.forwarder with
    | .enqueue _, .ended => none
    | .enqueue a, _ =>
      if s.q.length < streamOutQueue then
        some ({ s with
          pump := .count (size a)
          q := s.q++[a]
          enqueued := s.enqueued+size a },none)
      else none
    | _, _ => none
  | .refuse =>
    match s.pump, s.forwarder with
    | .enqueue _, .ended => some ({ s with pump := .drain },none)
    | _, _ => none
  | .count =>
    match s.pump with
    | .count n => some ({ s with pump := .wait .fast, outstanding := s.outstanding+n },none)
    | _ => none
  | .take =>
    match s.q, s.forwarder with
    | a::q, .waiting => some ({ s with q := q, forwarder := .holding a },none)
    | _, _ => none
  | .forward ok =>
    match s.forwarder with
    | .holding a =>
      if ok then some ({ s with forwarder := .waiting },some (.data a))
      else some ({ s with forwarder := .ended, q := [] },none)
    | _ => none
  | .finish =>
    match s.pump, s.q, s.forwarder with
    | .drain, [], .waiting => some ({ s with forwarder := .ended },none)
    | _, _, _ => none
  | .drained =>
    match s.pump, s.forwarder with
    | .drain, .ended => some ({ s with pump := .close },none)
    | _, _ => none
  | .close ok =>
    match s.pump with
    | .close => some ({ s with pump := .done },if ok then some .close else none)
    | _ => none

inductive Moves (s : Sender α) :
    SendAct α → Sender α → Option (StreamFrame α) → Prop where
  | pass (w : Wait) (hp : s.pump = .wait w) (ho : s.outstanding < recvWindow) :
    Moves s .check { s with pump := .read } none
  | turn (w next : Wait) (hp : s.pump = .wait w) (ho : recvWindow ≤ s.outstanding)
      (hw : w = .fast ∧ next = .subscribe ∨ w = .recheck ∧ next = .enable ∨
        w = .finalCheck ∧ next = .parked) :
    Moves s .check { s with pump := .wait next } none
  | subscribe (hp : s.pump = .wait .subscribe) :
    Moves s .check { s with notified := false, pump := .wait .recheck } none
  | enable (hp : s.pump = .wait .enable) :
    Moves s .check { s with pump := .wait .finalCheck } none
  | wake (hp : s.pump = .wait .parked) (hn : s.notified = true) :
    Moves s .check { s with pump := .wait .subscribe } none
  | chunk (a : α) (hp : s.pump = .read) (h0 : 0 < size a) (hs : size a ≤ bufLen) :
    Moves s (.chunk a) { s with pump := .enqueue a, taken := s.taken++[a] } none
  | stop (hp : s.pump = .read) : Moves s .stop { s with pump := .drain } none
  | enqueue (a : α) (hp : s.pump = .enqueue a) (hf : s.forwarder ≠ .ended)
      (hq : s.q.length < streamOutQueue) :
    Moves s .enqueue { s with
      pump := .count (size a)
      q := s.q++[a]
      enqueued := s.enqueued+size a } none
  | refuse (a : α) (hp : s.pump = .enqueue a) (hf : s.forwarder = .ended) :
    Moves s .refuse { s with pump := .drain } none
  | count (n : ℕ) (hp : s.pump = .count n) :
    Moves s .count { s with pump := .wait .fast, outstanding := s.outstanding+n } none
  | take (a : α) (q : List α) (hq : s.q = a::q) (hf : s.forwarder = .waiting) :
    Moves s .take { s with q := q, forwarder := .holding a } none
  | forward (a : α) (hf : s.forwarder = .holding a) :
    Moves s (.forward true) { s with forwarder := .waiting } (some (.data a))
  | lose (a : α) (hf : s.forwarder = .holding a) :
    Moves s (.forward false) { s with forwarder := .ended, q := [] } none
  | finish (hp : s.pump = .drain) (hq : s.q = []) (hf : s.forwarder = .waiting) :
    Moves s .finish { s with forwarder := .ended } none
  | drained (hp : s.pump = .drain) (hf : s.forwarder = .ended) :
    Moves s .drained { s with pump := .close } none
  | close (ok : Bool) (hp : s.pump = .close) :
    Moves s (.close ok) { s with pump := .done } (if ok then some .close else none)

theorem moves_of_check (s t : Sender α) (w : Wait) (hp : s.pump = .wait w)
    (h : s.check w = some t) : Moves s .check t none := by
  have hc : ∀ next, (w = .fast ∧ next = .subscribe ∨ w = .recheck ∧ next = .enable ∨
      w = .finalCheck ∧ next = .parked) → Moves s .check (s.checkWindow next) none := by
    intro next hw
    unfold checkWindow
    split_ifs with ho
    · exact .pass w hp ho
    · exact .turn w next hp (by omega) hw
  cases w with
  | fast => obtain rfl := Option.some.inj h; exact hc _ (by simp)
  | subscribe => obtain rfl := Option.some.inj h; exact .subscribe hp
  | recheck => obtain rfl := Option.some.inj h; exact hc _ (by simp)
  | enable => obtain rfl := Option.some.inj h; exact .enable hp
  | finalCheck => obtain rfl := Option.some.inj h; exact hc _ (by simp)
  | parked =>
    simp only [check] at h
    split_ifs at h with hn
    obtain rfl := Option.some.inj h
    exact .wake hp hn

theorem moves_of_step (s t : Sender α) (a : SendAct α) (f : Option (StreamFrame α))
    (h : s.step a = some (t,f)) : Moves s a t f := by
  cases a with
  | check =>
    simp only [step] at h
    split at h
    · rename_i w hp
      obtain ⟨u,hu,he⟩ := Option.map_eq_some_iff.mp h
      cases he
      exact moves_of_check s _ w hp hu
    · cases h
  | chunk a =>
    simp only [step] at h
    split at h
    · rename_i hp
      split_ifs at h with hs
      cases h
      exact .chunk a hp hs.1 hs.2
    · cases h
  | stop =>
    simp only [step] at h
    split at h
    · rename_i hp
      cases h
      exact .stop hp
    · cases h
  | enqueue =>
    simp only [step] at h
    split at h
    · cases h
    · rename_i a hp hf
      split_ifs at h with hq
      cases h
      exact .enqueue a hp hf hq
    · cases h
  | refuse =>
    simp only [step] at h
    split at h
    · rename_i a hp hf
      cases h
      exact .refuse a hp hf
    · cases h
  | count =>
    simp only [step] at h
    split at h
    · rename_i n hp
      cases h
      exact .count n hp
    · cases h
  | take =>
    simp only [step] at h
    split at h
    · rename_i a q hq hf
      cases h
      exact .take a q hq hf
    · cases h
  | forward ok =>
    simp only [step] at h
    split at h
    · rename_i a hf
      cases ok <;> cases h
      · exact .lose a hf
      · exact .forward a hf
    · cases h
  | finish =>
    simp only [step] at h
    split at h
    · rename_i hp hq hf
      cases h
      exact .finish hp hq hf
    · cases h
  | drained =>
    simp only [step] at h
    split at h
    · rename_i hp hf
      cases h
      exact .drained hp hf
    · cases h
  | close ok =>
    simp only [step] at h
    split at h
    · rename_i hp
      cases h
      exact .close ok hp
    · cases h

end Sender
end Stream
end Hydr
