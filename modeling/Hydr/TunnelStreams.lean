import Mathlib
import Hydr.StreamFlow

/-!
# The streams of one tunnel

All streams that the callers of one end open, with the tables of both loops keyed
by stream id. Side `false` opens, side `true` accepts. A stream is named by the
order of the calls; its id is what the caller gave or what the counter gave. Every
command and frame carries the id, and for the record the stream it was made for:
the loops look at the id alone. On the wire an id has its low 62 bits.
-/

set_option autoImplicit false

namespace Hydr.Ws
open Hydr.Stream

structure Tagged (α : Type) where
  stream : ℕ
  id : ℕ
  frame : StreamFrame α

structure Tasks (α : Type) where
  id : ℕ
  out : Sender α
  inn : Receiver α

inductive Duty where
  | free
  | pend (stream id : ℕ)
  | register (stream id : ℕ)
  | granting (stream : ℕ)
  | ended
  deriving DecidableEq

/-- `ids` are those of the calls so far, `callers` the streams whose command waits
for room, and `offers` the incoming streams that are not answered. -/
structure Streams (α : Type) where
  nextStreamId : ℕ
  ids : List ℕ
  callers : List ℕ
  pending : Bool → ℕ → Option ℕ
  credits : Bool → ℕ → Option ℕ
  streams : Bool → ℕ → Option ℕ
  tasks : Bool → ℕ → Tasks α
  cmds : Bool → List (Tagged α)
  wire : Bool → List (Tagged α)
  offers : Bool → List (ℕ × ℕ)
  duty : Bool → Duty

inductive TunnelAct (α : Type) where
  | openStream
  | openStreamAs (id : ℕ)
  | enter (t : ℕ)
  | ship (x : Bool)
  | bind (x : Bool)
  | handle (x : Bool) (offer : Offer)
  | notify (x : Bool)
  | reply (x : Bool) (t id : ℕ) (ok : Bool)
  | send (x : Bool) (t : ℕ) (a : SendAct α)
  | recv (x : Bool) (t : ℕ) (a : RecvAct)
  | lose (x : Bool) (n : ℕ)
  | endLoop (x : Bool)

namespace Streams

variable {α : Type}

def init : Streams α where
  nextStreamId := 0
  ids := []
  callers := []
  pending _ _ := none
  credits _ _ := none
  streams _ _ := none
  tasks _ _ := ⟨0,.absent,.absent⟩
  cmds _ := []
  wire _ := []
  offers _ := []
  duty _ := .free

def alive (s : Streams α) (x : Bool) : Bool := s.duty x != .ended

@[simps] def setTasks (s : Streams α) (x : Bool) (t : ℕ) (k : Tasks α) : Streams α :=
  { s with tasks := Function.update s.tasks x (Function.update (s.tasks x) t k) }

@[simps] def setDuty (s : Streams α) (x : Bool) (d : Duty) : Streams α :=
  { s with duty := Function.update s.duty x d }

@[simps] def setPending (s : Streams α) (x : Bool) (id : ℕ) (t : Option ℕ) : Streams α :=
  { s with pending := Function.update s.pending x (Function.update (s.pending x) id t) }

@[simps] def emit (s : Streams α) (x : Bool) (t id : ℕ) (f : Option (StreamFrame α)) : Streams α :=
  { s with cmds := Function.update s.cmds x (s.cmds x++(f.map (Tagged.mk t id)).toList) }

def request (s : Streams α) (id : ℕ) : Streams α :=
  { s with
    ids := s.ids++[id]
    callers := if s.alive false then s.callers++[s.ids.length] else s.callers }

def register (s : Streams α) (x : Bool) (t id : ℕ) : Streams α :=
  { s.setTasks x t ⟨id,.spawn,.spawn⟩ with
    credits := Function.update s.credits x (Function.update (s.credits x) id (some t))
    streams := Function.update s.streams x (Function.update (s.streams x) id (some t)) }

def close (s : Streams α) (x : Bool) (id : ℕ) : Streams α :=
  { s with
    credits := Function.update s.credits x (Function.update (s.credits x) id none)
    streams := Function.update s.streams x (Function.update (s.streams x) id none) }

def afterShip (m : Tagged α) : Duty :=
  match m.frame with
  | .openStream => .pend m.stream m.id
  | .ack true => .register m.stream m.id
  | _ => .free

def handleFrame (s : Streams α) (x : Bool) (offer : Offer) (m : Tagged α) : Streams α :=
  match m.frame with
  | .openStream =>
    match offer with
    | .accept => { s with offers := Function.update s.offers x (s.offers x++[(m.stream,m.id)]) }
    | .reject =>
      { s with cmds := Function.update s.cmds x (⟨m.stream,m.id,.ack false⟩::s.cmds x) }
    | .ignore => s
  | .ack ok =>
    match s.pending x m.id with
    | some t =>
      let s := s.setPending x m.id none
      if ok then s.register x t m.id else s
    | none => s
  | .data a =>
    match s.streams x m.id with
    | some t => s.setTasks x t { s.tasks x t with inn := (s.tasks x t).inn.deliver a }
    | none => s
  | .credit n =>
    match s.credits x m.id with
    | some t =>
      if m.id ≠ 0 then
        (s.setTasks x t { s.tasks x t with out := (s.tasks x t).out.grant n }).setDuty x (.granting t)
      else s
    | none => s
  | .close => s.close x m.id

/-- The id that the reader of a stream returns its credits under: the caller's own
at the side that opened it. -/
def readerId (s : Streams α) (x : Bool) (t : ℕ) : ℕ :=
  if x then (s.tasks x t).id else s.ids.getD t 0

def endLoop (s : Streams α) (x : Bool) : Streams α :=
  { s.setDuty x .ended with
    callers := if x then s.callers else []
    pending := Function.update s.pending x fun _ => none
    credits := Function.update s.credits x fun _ => none
    streams := Function.update s.streams x fun _ => none
    cmds := Function.update s.cmds x [] }

variable [Chunk α]

def step (s : Streams α) : TunnelAct α → Option (Streams α)
  | .openStream =>
    some ({ s with nextStreamId := (s.nextStreamId+1)%2^64 }.request ((s.nextStreamId+1)%2^64))
  | .openStreamAs id => some (s.request id)
  | .enter t =>
    if t ∈ s.callers then
      some ({ s with callers := s.callers.erase t }.emit false t (s.ids.getD t 0) (some .openStream))
    else none
  | .ship x =>
    match s.cmds x, s.duty x with
    | m::rest, .free =>
      some ({ s with
        cmds := Function.update s.cmds x rest
        wire := Function.update s.wire x (s.wire x++[{ m with id := m.id%2^62 }]) }.setDuty x
          (afterShip m))
    | _, _ => none
  | .bind x =>
    match s.duty x with
    | .pend t id => some ((s.setPending x id (some t)).setDuty x .free)
    | .register t id => some ((s.register x t id).setDuty x .free)
    | _ => none
  | .handle x offer =>
    match s.wire (!x), s.duty x with
    | m::rest, .free =>
      some ({ s with wire := Function.update s.wire (!x) rest }.handleFrame x offer m)
    | _, _ => none
  | .notify x =>
    match s.duty x with
    | .granting t =>
      some ((s.setTasks x t { s.tasks x t with out := (s.tasks x t).out.notify }).setDuty x .free)
    | _ => none
  | .reply x t id ok =>
    if (t,id) ∈ s.offers x ∧ s.alive x then
      some ({ s with offers := Function.update s.offers x ((s.offers x).erase (t,id)) }.emit x t id
        (some (.ack ok)))
    else none
  | .send x t a =>
    if a.admits (s.alive x) then
      ((s.tasks x t).out.step a).map fun (out,f) =>
        (s.setTasks x t { s.tasks x t with out := out }).emit x t (s.tasks x t).id f
    else none
  | .recv x t a =>
    if a.admits (s.alive x) then
      ((s.tasks x t).inn.step (s.streams x (s.tasks x t).id != some t) a).map fun (inn,f) =>
        (s.setTasks x t { s.tasks x t with inn := inn }).emit x t (s.readerId x t) f
    else none
  | .lose x n => some { s with wire := Function.update s.wire x ((s.wire x).take n) }
  | .endLoop x => if s.duty x = .free then some (s.endLoop x) else none

inductive Moves (s : Streams α) : TunnelAct α → Streams α → Prop where
  | openStream : Moves s .openStream
      ({ s with nextStreamId := (s.nextStreamId+1)%2^64 }.request ((s.nextStreamId+1)%2^64))
  | openStreamAs (id : ℕ) : Moves s (.openStreamAs id) (s.request id)
  | enter (t : ℕ) (ht : t ∈ s.callers) :
    Moves s (.enter t) ({ s with callers := s.callers.erase t }.emit false t (s.ids.getD t 0)
      (some .openStream))
  | ship (x : Bool) (m : Tagged α) (rest : List (Tagged α)) (hc : s.cmds x = m::rest)
      (hd : s.duty x = .free) :
    Moves s (.ship x) ({ s with
      cmds := Function.update s.cmds x rest
      wire := Function.update s.wire x (s.wire x++[{ m with id := m.id%2^62 }]) }.setDuty x
        (afterShip m))
  | pend (x : Bool) (t id : ℕ) (hd : s.duty x = .pend t id) :
    Moves s (.bind x) ((s.setPending x id (some t)).setDuty x .free)
  | register (x : Bool) (t id : ℕ) (hd : s.duty x = .register t id) :
    Moves s (.bind x) ((s.register x t id).setDuty x .free)
  | handle (x : Bool) (offer : Offer) (m : Tagged α) (rest : List (Tagged α))
      (hw : s.wire (!x) = m::rest) (hd : s.duty x = .free) :
    Moves s (.handle x offer)
      ({ s with wire := Function.update s.wire (!x) rest }.handleFrame x offer m)
  | notify (x : Bool) (t : ℕ) (hd : s.duty x = .granting t) :
    Moves s (.notify x)
      ((s.setTasks x t { s.tasks x t with out := (s.tasks x t).out.notify }).setDuty x .free)
  | reply (x : Bool) (t id : ℕ) (ok : Bool) (ho : (t,id) ∈ s.offers x) (ha : s.alive x = true) :
    Moves s (.reply x t id ok)
      ({ s with offers := Function.update s.offers x ((s.offers x).erase (t,id)) }.emit x t id
        (some (.ack ok)))
  | send (x : Bool) (t : ℕ) (a : SendAct α) (out : Sender α) (f : Option (StreamFrame α))
      (hm : Sender.Moves (s.tasks x t).out a out f) :
    Moves s (.send x t a)
      ((s.setTasks x t { s.tasks x t with out := out }).emit x t (s.tasks x t).id f)
  | recv (x : Bool) (t : ℕ) (a : RecvAct) (inn : Receiver α) (f : Option (StreamFrame α))
      (hm : Receiver.Moves (s.streams x (s.tasks x t).id != some t) (s.tasks x t).inn a inn f) :
    Moves s (.recv x t a)
      ((s.setTasks x t { s.tasks x t with inn := inn }).emit x t (s.readerId x t) f)
  | lose (x : Bool) (n : ℕ) :
    Moves s (.lose x n) { s with wire := Function.update s.wire x ((s.wire x).take n) }
  | endLoop (x : Bool) (hd : s.duty x = .free) : Moves s (.endLoop x) (s.endLoop x)

theorem moves_of_step (s t : Streams α) (a : TunnelAct α) (h : s.step a = some t) : Moves s a t := by
  cases a with
  | openStream =>
    cases h
    exact .openStream
  | openStreamAs id =>
    cases h
    exact .openStreamAs id
  | enter i =>
    simp only [step] at h
    split_ifs at h with hi
    cases h
    exact .enter i hi
  | ship x =>
    simp only [step] at h
    split at h
    · rename_i m rest hc hd
      cases h
      exact .ship x m rest hc hd
    · cases h
  | bind x =>
    simp only [step] at h
    split at h
    · rename_i i id hd
      cases h
      exact .pend x i id hd
    · rename_i i id hd
      cases h
      exact .register x i id hd
    · cases h
  | handle x offer =>
    simp only [step] at h
    split at h
    · rename_i m rest hw hd
      cases h
      exact .handle x offer m rest hw hd
    · cases h
  | notify x =>
    simp only [step] at h
    split at h
    · rename_i i hd
      cases h
      exact .notify x i hd
    · cases h
  | reply x i id ok =>
    simp only [step] at h
    split_ifs at h with ho
    cases h
    exact .reply x i id ok ho.1 ho.2
  | send x i a =>
    simp only [step] at h
    split_ifs at h with ha
    obtain ⟨⟨out,f⟩,hm,he⟩ := Option.map_eq_some_iff.mp h
    cases he
    exact .send x i a out f (Sender.moves_of_step _ _ _ _ hm)
  | recv x i a =>
    simp only [step] at h
    split_ifs at h with ha
    obtain ⟨⟨inn,f⟩,hm,he⟩ := Option.map_eq_some_iff.mp h
    cases he
    exact .recv x i a inn f (Receiver.moves_of_step _ _ _ _ _ hm)
  | lose x n =>
    cases h
    exact .lose x n
  | endLoop x =>
    simp only [step] at h
    split_ifs at h with hd
    cases h
    exact .endLoop x hd

end Streams
end Hydr.Ws
