import Mathlib
import Hydr.StreamSender

/-!
# The receiving half of a stream

`stream_writer` empties an unbounded queue of chunks into a bounded duplex, in
as many pieces as there is room for. The application reads the duplex through
`CreditReader`, which returns what was read to the sender in batches, as far as
the command queue has a free slot at that moment.
-/

set_option autoImplicit false

namespace Hydr.Stream
open Chunk

def duplexLen : ℕ := 64*1024

inductive Writer (α : Type) where
  | absent
  | recv
  | writing (chunk : α) (done : ℕ)
  | failed (chunk : α) (done : ℕ)
  | shut
  deriving DecidableEq

/-- The writer's queue and the duplex, the reader's unreturned bytes, whether
the application waits for more or has dropped the stream; then the history: the
chunks written, the bytes read, the bytes returned as credit, and whether the
last attempt to return some was turned away. -/
structure Receiver (α : Type) where
  chan : List α
  writer : Writer α
  duplex : ℕ
  pending : ℕ
  parked : Bool
  dropped : Bool
  written : List α
  appRead : ℕ
  returned : ℕ
  missed : Bool

/-- `refused`: the `try_send` of the credit finds the queue full or closed. -/
inductive RecvAct where
  | recv
  | write (k : ℕ)
  | finish
  | fail
  | shutdown
  | read (n : ℕ) (refused : Bool)
  | park
  | drop

def RecvAct.admits (alive : Bool) : RecvAct → Bool
  | .read _ refused => refused || alive
  | _ => true

namespace Receiver

variable {α : Type}

def absent : Receiver α := ⟨[],.absent,0,0,false,false,[],0,0,false⟩

def spawn : Receiver α := ⟨[],.recv,0,0,false,false,[],0,0,false⟩

def deliver (r : Receiver α) (a : α) : Receiver α :=
  match r.writer with
  | .recv => { r with chan := r.chan++[a] }
  | .writing _ _ => { r with chan := r.chan++[a] }
  | _ => r

def credit (r : Receiver α) (n : ℕ) (refused : Bool) : Receiver α × Option (StreamFrame α) :=
  let pending := r.pending+n
  let r := { r with duplex := r.duplex-n, appRead := r.appRead+n }
  if pending < creditBatch then ({ r with pending := pending },none)
  else if refused then ({ r with pending := pending, missed := true },none)
  else ({ r with pending := 0, returned := r.returned+pending, missed := false },
    some (.credit pending))

variable [Chunk α]

/-- `closed`: the loop has dropped its end of the writer's queue. -/
def step (closed : Bool) (r : Receiver α) :
    RecvAct → Option (Receiver α × Option (StreamFrame α))
  | .recv =>
    match r.writer, r.chan with
    | .recv, a::chan => some ({ r with chan := chan, writer := .writing a 0 },none)
    | _, _ => none
  | .write k =>
    match r.writer with
    | .writing a i =>
      if 0 < k ∧ i+k ≤ size a ∧ r.duplex+k ≤ duplexLen ∧ r.dropped = false then
        some ({ r with writer := .writing a (i+k), duplex := r.duplex+k, parked := false },none)
      else none
    | _ => none
  | .finish =>
    match r.writer with
    | .writing a i =>
      if i = size a then some ({ r with writer := .recv, written := r.written++[a] },none)
      else none
    | _ => none
  | .fail =>
    match r.writer with
    | .writing a i =>
      if r.dropped ∧ i < size a then some ({ r with writer := .failed a i, chan := [] },none)
      else none
    | _ => none
  | .shutdown =>
    match r.writer, r.chan with
    | .recv, [] => if closed then some ({ r with writer := .shut, parked := false },none) else none
    | _, _ => none
  | .read n refused =>
    if 0 < n ∧ n ≤ r.duplex ∧ r.dropped = false then some (r.credit n refused) else none
  | .park =>
    match r.writer with
    | .absent => none
    | .shut => none
    | _ => if r.duplex = 0 ∧ r.dropped = false then some ({ r with parked := true },none) else none
  | .drop =>
    match r.writer with
    | .absent => none
    | _ => some ({ r with dropped := true, parked := false },none)

inductive Moves (closed : Bool) (r : Receiver α) :
    RecvAct → Receiver α → Option (StreamFrame α) → Prop where
  | recv (a : α) (chan : List α) (hw : r.writer = .recv) (hc : r.chan = a::chan) :
    Moves closed r .recv { r with chan := chan, writer := .writing a 0 } none
  | write (a : α) (i k : ℕ) (hw : r.writer = .writing a i) (h0 : 0 < k) (hs : i+k ≤ size a)
      (hd : r.duplex+k ≤ duplexLen) (ha : r.dropped = false) :
    Moves closed r (.write k)
      { r with writer := .writing a (i+k), duplex := r.duplex+k, parked := false } none
  | finish (a : α) (hw : r.writer = .writing a (size a)) :
    Moves closed r .finish { r with writer := .recv, written := r.written++[a] } none
  | fail (a : α) (i : ℕ) (hw : r.writer = .writing a i) (ha : r.dropped = true)
      (hi : i < size a) :
    Moves closed r .fail { r with writer := .failed a i, chan := [] } none
  | shutdown (hw : r.writer = .recv) (hc : r.chan = []) (hcl : closed = true) :
    Moves closed r .shutdown { r with writer := .shut, parked := false } none
  | keep (n : ℕ) (refused : Bool) (h0 : 0 < n) (hn : n ≤ r.duplex) (ha : r.dropped = false)
      (hp : r.pending+n < creditBatch) :
    Moves closed r (.read n refused) { r with
      duplex := r.duplex-n
      appRead := r.appRead+n
      pending := r.pending+n } none
  | miss (n : ℕ) (h0 : 0 < n) (hn : n ≤ r.duplex) (ha : r.dropped = false)
      (hp : creditBatch ≤ r.pending+n) :
    Moves closed r (.read n true) { r with
      duplex := r.duplex-n
      appRead := r.appRead+n
      pending := r.pending+n
      missed := true } none
  | giveBack (n : ℕ) (h0 : 0 < n) (hn : n ≤ r.duplex) (ha : r.dropped = false)
      (hp : creditBatch ≤ r.pending+n) :
    Moves closed r (.read n false) { r with
      duplex := r.duplex-n
      appRead := r.appRead+n
      pending := 0
      returned := r.returned+(r.pending+n)
      missed := false } (some (.credit (r.pending+n)))
  | park (hb : r.writer ≠ .absent) (hw : r.writer ≠ .shut) (hd : r.duplex = 0) (ha : r.dropped = false) :
    Moves closed r .park { r with parked := true } none
  | drop (hb : r.writer ≠ .absent) : Moves closed r .drop { r with dropped := true, parked := false } none

theorem moves_of_step (closed : Bool) (r t : Receiver α) (a : RecvAct)
    (f : Option (StreamFrame α)) (h : r.step closed a = some (t,f)) : Moves closed r a t f := by
  cases a with
  | recv =>
    simp only [step] at h
    split at h
    · rename_i a chan hw hc
      cases h
      exact .recv a chan hw hc
    · cases h
  | write k =>
    simp only [step] at h
    split at h
    · rename_i a i hw
      split_ifs at h with hk
      cases h
      exact .write a i k hw hk.1 hk.2.1 hk.2.2.1 hk.2.2.2
    · cases h
  | finish =>
    simp only [step] at h
    split at h
    · rename_i a i hw
      split_ifs at h with hi
      cases h
      exact .finish a (hi ▸ hw)
    · cases h
  | fail =>
    simp only [step] at h
    split at h
    · rename_i a i hw
      split_ifs at h with hi
      cases h
      exact .fail a i hw hi.1 hi.2
    · cases h
  | shutdown =>
    simp only [step] at h
    split at h
    · rename_i hw hc
      split_ifs at h with hcl
      cases h
      exact .shutdown hw hc hcl
    · cases h
  | read n refused =>
    simp only [step, credit] at h
    split_ifs at h with hn hp hr
    · cases h
      exact .keep n refused hn.1 hn.2.1 hn.2.2 hp
    · cases h
      subst hr
      exact .miss n hn.1 hn.2.1 hn.2.2 (by omega)
    · cases h
      obtain rfl := Bool.eq_false_iff.mpr hr
      exact .giveBack n hn.1 hn.2.1 hn.2.2 (by omega)
  | park =>
    simp only [step] at h
    split at h
    · cases h
    · cases h
    · rename_i hb hw
      split_ifs at h with hd
      cases h
      exact .park hb hw hd.1 hd.2
  | drop =>
    simp only [step] at h
    split at h
    · cases h
    · rename_i hb
      cases h
      exact .drop hb

end Receiver
end Hydr.Stream
