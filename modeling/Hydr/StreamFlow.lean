import Mathlib
import Hydr.Library.Transition
import Hydr.StreamReceiver

/-!
# One stream between two run loops

Everything that concerns one stream id: both halves on both sides, the frames
of the stream in the command channel (`cmds`) and beyond it (`wire`) in each
direction, the entries that each loop holds for it, and what keeps the loop
from taking the next frame. Side `false` opens the stream, side `true` accepts
it. Whatever else shares the connection shows as the moments at which a step is
taken, and as refused attempts to queue a credit.
-/

set_option autoImplicit false

namespace Hydr.Stream
open Chunk

@[simp] theorem update_other {β : Type} (f : Bool → β) (x : Bool) (b : β) :
    Function.update f x b (!x) = f (!x) := by
  apply Function.update_of_ne
  cases x <;> decide

@[simp] theorem update_other' {β : Type} (f : Bool → β) (x : Bool) (b : β) :
    Function.update f (!x) b x = f x := by
  apply Function.update_of_ne
  cases x <;> decide

inductive Stage where
  | fresh
  | opening
  | offered
  | replied
  | settled
  deriving DecidableEq

/-- The loop takes the next frame, has queued a frame and is about to change its
tables, has lowered a counter and is about to notify, or is gone. -/
inductive Loop where
  | free
  | pend
  | register
  | granting
  | ended
  deriving DecidableEq

/-- One side of the stream: its entries in the two tables of the loop, its two
tasks, and the history of what the loop has handled. -/
structure Half (α : Type) where
  credits : Bool
  streams : Bool
  out : Sender α
  inn : Receiver α
  processed : ℕ
  closeSeen : Bool

/-- `pending` is the opener's entry for the unanswered stream; `credited` is the
sum of the credits that a side has sent. -/
structure Flow (α : Type) where
  stage : Stage
  half : Bool → Half α
  cmds : Bool → List (StreamFrame α)
  wire : Bool → List (StreamFrame α)
  loop : Bool → Loop
  pending : Bool
  credited : Bool → ℕ

inductive Offer where
  | accept
  | reject
  | ignore

inductive Act (α : Type) where
  | ask
  | ship (x : Bool)
  | bind (x : Bool)
  | handle (x : Bool) (offer : Offer)
  | notify (x : Bool)
  | reply (ok : Bool)
  | send (x : Bool) (a : SendAct α)
  | recv (x : Bool) (a : RecvAct)
  | endLoop (x : Bool)

section
variable {α : Type}

def StreamFrame.amount : StreamFrame α → ℕ
  | .credit n => n
  | _ => 0

namespace Half

def absent : Half α := ⟨false,false,.absent,.absent,0,false⟩

def register : Half α := ⟨true,true,.spawn,.spawn,0,false⟩

def deliver (h : Half α) (a : α) : Half α :=
  if h.streams then { h with inn := h.inn.deliver a } else h

def credit (h : Half α) (n : ℕ) : Half α :=
  let h := { h with processed := h.processed+n }
  if h.credits then { h with out := h.out.grant n } else h

def close (h : Half α) : Half α :=
  { h with credits := false, streams := false, closeSeen := true }

def orphan (h : Half α) : Half α := { h with credits := false, streams := false }

end Half

namespace Flow

def init : Flow α where
  stage := .fresh
  half _ := .absent
  cmds _ := []
  wire _ := []
  loop _ := .free
  pending := false
  credited _ := 0

def alive (s : Flow α) (x : Bool) : Bool := s.loop x != .ended

@[simps] def setHalf (s : Flow α) (x : Bool) (h : Half α) : Flow α :=
  { s with half := Function.update s.half x h }

@[simps] def setLoop (s : Flow α) (x : Bool) (l : Loop) : Flow α :=
  { s with loop := Function.update s.loop x l }

@[simps] def emit (s : Flow α) (x : Bool) (f : Option (StreamFrame α)) : Flow α :=
  { s with
    cmds := Function.update s.cmds x (s.cmds x++f.toList)
    credited := Function.update s.credited x (s.credited x+(f.map StreamFrame.amount).getD 0) }

def afterShip : StreamFrame α → Loop
  | .openStream => .pend
  | .ack true => .register
  | _ => .free

theorem afterShip_register (f : StreamFrame α) : afterShip f = .register ↔ f = .ack true := by
  rcases f with _ | (_ | _) | _ | _ | _ <;> simp [afterShip]

def handleFrame (s : Flow α) (x : Bool) (offer : Offer) : StreamFrame α → Flow α
  | .openStream =>
    match offer with
    | .accept => { s with stage := .offered }
    | .reject => { s with
      stage := .replied
      cmds := Function.update s.cmds x (.ack false::s.cmds x) }
    | .ignore => { s with stage := .settled }
  | .ack ok =>
    if !x && s.pending then
      let s := { s with stage := .settled, pending := false }
      if ok then s.setHalf x .register else s
    else { s with stage := .settled }
  | .data a => s.setHalf x ((s.half x).deliver a)
  | .credit n =>
    let s' := s.setHalf x ((s.half x).credit n)
    if (s.half x).credits then s'.setLoop x .granting else s'
  | .close => s.setHalf x (s.half x).close

@[simp] theorem handleFrame_wire (s : Flow α) (x : Bool) (offer : Offer) (f : StreamFrame α) :
    (s.handleFrame x offer f).wire = s.wire := by
  cases f with
  | openStream => cases offer <;> rfl
  | ack ok | credit n =>
    simp only [handleFrame]
    split_ifs <;> rfl
  | _ => rfl

@[simp] theorem handleFrame_credited (s : Flow α) (x : Bool) (offer : Offer)
    (f : StreamFrame α) : (s.handleFrame x offer f).credited = s.credited := by
  cases f with
  | openStream => cases offer <;> rfl
  | ack ok | credit n =>
    simp only [handleFrame]
    split_ifs <;> rfl
  | _ => rfl

theorem handleFrame_alive (s : Flow α) (x : Bool) (offer : Offer) (f : StreamFrame α)
    (hl : s.loop x = .free) (y : Bool) : (s.handleFrame x offer f).alive y = s.alive y := by
  cases f with
  | openStream => cases offer <;> rfl
  | ack ok =>
    simp only [handleFrame]
    split_ifs <;> rfl
  | credit n =>
    simp only [handleFrame]
    split_ifs
    · rcases eq_or_ne y x with rfl | hne
      · rw [alive, alive, hl, setLoop_loop, Function.update_self]
        rfl
      · simp [alive, hne]
    · rfl
  | _ => rfl

/-- The only frame that a loop queues by itself is a refusal. -/
theorem handleFrame_cmds (s : Flow α) (x : Bool) (offer : Offer) (f : StreamFrame α) (y : Bool) :
    (s.handleFrame x offer f).cmds y = s.cmds y ∨
      (s.handleFrame x offer f).cmds y = .ack false::s.cmds y := by
  cases f with
  | openStream =>
    cases offer with
    | accept | ignore => exact Or.inl rfl
    | reject =>
      rcases eq_or_ne y x with rfl | hne
      · right
        simp [handleFrame]
      · left
        simp [handleFrame, hne]
  | ack ok | credit n =>
    left
    simp only [handleFrame]
    split_ifs <;> rfl
  | _ => exact Or.inl rfl

theorem handleFrame_other (s : Flow α) (x : Bool) (offer : Offer) (f : StreamFrame α) :
    (s.handleFrame x offer f).half (!x) = s.half (!x) := by
  cases f with
  | openStream => cases offer <;> rfl
  | ack ok =>
    simp only [handleFrame]
    split_ifs <;> simp
  | data a => simp [handleFrame]
  | credit n =>
    simp only [handleFrame]
    split_ifs <;> simp
  | close => simp [handleFrame]

theorem handleFrame_expected (s : Flow α) (offer : Offer) (ok : Bool) (h : s.pending = true) :
    s.handleFrame false offer (.ack ok) = ({ s with stage := .settled, pending := false } :
      Flow α).setHalf false (if ok then .register else s.half false) := by
  cases ok with
  | true => simp [handleFrame, h]
  | false => simp [handleFrame, h, setHalf]

theorem handleFrame_stray (s : Flow α) (offer : Offer) (ok : Bool) (h : s.pending = false) :
    s.handleFrame false offer (.ack ok) = { s with stage := .settled } := by
  simp [handleFrame, h]

theorem handleFrame_granting (s : Flow α) (x : Bool) (offer : Offer) (n : ℕ)
    (h : (s.half x).credits = true) : s.handleFrame x offer (.credit n) =
      (s.setHalf x ((s.half x).credit n)).setLoop x .granting := by
  simp only [handleFrame]
  exact if_pos h

theorem handleFrame_unlisted (s : Flow α) (x : Bool) (offer : Offer) (n : ℕ)
    (h : (s.half x).credits = false) : s.handleFrame x offer (.credit n) =
      s.setHalf x ((s.half x).credit n) := by
  simp only [handleFrame]
  exact if_neg (by simp [h])

/-- Handling a frame leaves the tasks of a sending half alone, or spawns them. -/
theorem handleFrame_out (s : Flow α) (x : Bool) (offer : Offer) (f : StreamFrame α) (y : Bool) :
    (((s.handleFrame x offer f).half y).out.pump = (s.half y).out.pump ∧
      ((s.handleFrame x offer f).half y).out.forwarder = (s.half y).out.forwarder ∧
      ((s.handleFrame x offer f).half y).out.q = (s.half y).out.q ∧
      ((s.handleFrame x offer f).half y).out.taken = (s.half y).out.taken) ∨
    y = x ∧ x = false ∧ f = .ack true ∧ (s.handleFrame x offer f).half y = .register := by
  rcases Bool.eq_or_eq_not y x with rfl | rfl
  · cases f with
    | openStream => cases offer <;> exact Or.inl ⟨rfl,rfl,rfl,rfl⟩
    | ack ok =>
      simp only [handleFrame]
      split_ifs with hy hok
      · right
        exact ⟨trivial,by simpa using (Bool.and_eq_true_iff.mp hy).1,by rw [hok],by simp⟩
      · exact Or.inl ⟨rfl,rfl,rfl,rfl⟩
      · exact Or.inl ⟨rfl,rfl,rfl,rfl⟩
    | data a =>
      left
      simp only [handleFrame, setHalf_half, Function.update_self, Half.deliver]
      split_ifs <;> exact ⟨rfl,rfl,rfl,rfl⟩
    | credit n =>
      left
      simp only [handleFrame, Half.credit]
      split_ifs <;> simp [Sender.grant]
    | close =>
      left
      simp [handleFrame, Half.close]
  · left
    rw [handleFrame_other]
    exact ⟨rfl,rfl,rfl,rfl⟩

variable [Chunk α]

def step (s : Flow α) : Act α → Option (Flow α)
  | .ask =>
    if s.stage = .fresh ∧ s.alive false then
      some ({ s with stage := .opening }.emit false (some .openStream))
    else none
  | .ship x =>
    match s.cmds x with
    | f::cmds =>
      if s.loop x = .free then
        some ({ s with
          cmds := Function.update s.cmds x cmds
          wire := Function.update s.wire x (s.wire x++[f]) }.setLoop x (afterShip f))
      else none
    | [] => none
  | .bind x =>
    match s.loop x with
    | .pend => some ({ s with pending := true }.setLoop x .free)
    | .register => some ((s.setHalf x .register).setLoop x .free)
    | _ => none
  | .handle x offer =>
    match s.wire (!x) with
    | f::rest =>
      if s.loop x = .free then
        some ({ s with wire := Function.update s.wire (!x) rest }.handleFrame x offer f)
      else none
    | [] => none
  | .notify x =>
    match s.loop x with
    | .granting =>
      some ((s.setHalf x { s.half x with out := (s.half x).out.notify }).setLoop x .free)
    | _ => none
  | .reply ok =>
    if s.stage = .offered ∧ s.alive true then
      some ({ s with stage := .replied }.emit true (some (.ack ok)))
    else none
  | .send x a =>
    if a.admits (s.alive x) then
      ((s.half x).out.step a).map fun (out,f) =>
        (s.setHalf x { s.half x with out := out }).emit x f
    else none
  | .recv x a =>
    if a.admits (s.alive x) then
      ((s.half x).inn.step (!(s.half x).streams) a).map fun (inn,f) =>
        (s.setHalf x { s.half x with inn := inn }).emit x f
    else none
  | .endLoop x =>
    if s.loop x = .free then
      some (({ s with cmds := Function.update s.cmds x [] }.setHalf x (s.half x).orphan).setLoop x
        .ended)
    else none

inductive Moves (s : Flow α) : Act α → Flow α → Prop where
  | ask (hs : s.stage = .fresh) (ha : s.alive false = true) :
    Moves s .ask ({ s with stage := .opening }.emit false (some .openStream))
  | ship (x : Bool) (f : StreamFrame α) (cmds : List (StreamFrame α)) (hc : s.cmds x = f::cmds)
      (hl : s.loop x = .free) :
    Moves s (.ship x) ({ s with
      cmds := Function.update s.cmds x cmds
      wire := Function.update s.wire x (s.wire x++[f]) }.setLoop x (afterShip f))
  | pend (x : Bool) (hl : s.loop x = .pend) :
    Moves s (.bind x) ({ s with pending := true }.setLoop x .free)
  | register (x : Bool) (hl : s.loop x = .register) :
    Moves s (.bind x) ((s.setHalf x .register).setLoop x .free)
  | handle (x : Bool) (offer : Offer) (f : StreamFrame α) (rest : List (StreamFrame α))
      (hw : s.wire (!x) = f::rest) (hl : s.loop x = .free) :
    Moves s (.handle x offer)
      ({ s with wire := Function.update s.wire (!x) rest }.handleFrame x offer f)
  | notify (x : Bool) (hl : s.loop x = .granting) :
    Moves s (.notify x)
      ((s.setHalf x { s.half x with out := (s.half x).out.notify }).setLoop x .free)
  | reply (ok : Bool) (hs : s.stage = .offered) (ha : s.alive true = true) :
    Moves s (.reply ok) ({ s with stage := .replied }.emit true (some (.ack ok)))
  | send (x : Bool) (a : SendAct α) (out : Sender α) (f : Option (StreamFrame α))
      (ha : a.admits (s.alive x) = true) (hm : Sender.Moves (s.half x).out a out f) :
    Moves s (.send x a) ((s.setHalf x { s.half x with out := out }).emit x f)
  | recv (x : Bool) (a : RecvAct) (inn : Receiver α) (f : Option (StreamFrame α))
      (ha : a.admits (s.alive x) = true)
      (hm : Receiver.Moves (!(s.half x).streams) (s.half x).inn a inn f) :
    Moves s (.recv x a) ((s.setHalf x { s.half x with inn := inn }).emit x f)
  | endLoop (x : Bool) (hl : s.loop x = .free) :
    Moves s (.endLoop x)
      (({ s with cmds := Function.update s.cmds x [] }.setHalf x (s.half x).orphan).setLoop x
        .ended)

theorem moves_of_step (s t : Flow α) (a : Act α) (h : s.step a = some t) : Moves s a t := by
  cases a with
  | ask =>
    simp only [step] at h
    split_ifs at h with hs
    cases h
    exact .ask hs.1 hs.2
  | ship x =>
    simp only [step] at h
    split at h
    · rename_i f cmds hc
      split_ifs at h with hl
      cases h
      exact .ship x f cmds hc hl
    · cases h
  | bind x =>
    simp only [step] at h
    split at h
    · rename_i hl
      cases h
      exact .pend x hl
    · rename_i hl
      cases h
      exact .register x hl
    · cases h
  | handle x offer =>
    simp only [step] at h
    split at h
    · rename_i f rest hw
      split_ifs at h with hl
      cases h
      exact .handle x offer f rest hw hl
    · cases h
  | notify x =>
    simp only [step] at h
    split at h
    · rename_i hl
      cases h
      exact .notify x hl
    · cases h
  | reply ok =>
    simp only [step] at h
    split_ifs at h with hs
    cases h
    exact .reply ok hs.1 hs.2
  | send x a =>
    simp only [step] at h
    split_ifs at h with ha
    obtain ⟨⟨out,f⟩,hm,he⟩ := Option.map_eq_some_iff.mp h
    cases he
    exact .send x a out f ha (Sender.moves_of_step _ _ _ _ hm)
  | recv x a =>
    simp only [step] at h
    split_ifs at h with ha
    obtain ⟨⟨inn,f⟩,hm,he⟩ := Option.map_eq_some_iff.mp h
    cases he
    exact .recv x a inn f ha (Receiver.moves_of_step _ _ _ _ _ hm)
  | endLoop x =>
    simp only [step] at h
    split_ifs at h with hl
    cases h
    exact .endLoop x hl

end Flow

variable [Chunk α]

structure Half.Stable (C : Half α → ℕ → Prop) (P : Half α → Prop) : Prop where
  register : P .register
  deliver : ∀ h a, P h → P (h.deliver a)
  credit : ∀ h n, C h n → P h → P (h.credit n)
  close : ∀ h, P h → P h.close
  notify : ∀ h, P h → P { h with out := h.out.notify }
  send : ∀ h a out f, Sender.Moves h.out a out f → P h → P { h with out := out }
  recv : ∀ h a inn f, Receiver.Moves (!h.streams) h.inn a inn f → P h → P { h with inn := inn }

namespace Flow

theorem handleFrame_stable {C : Half α → ℕ → Prop} {P : Half α → Prop} (hs : Half.Stable C P)
    (s : Flow α) (x : Bool) (offer : Offer) (f : StreamFrame α)
    (hc : ∀ n, f = .credit n → C (s.half x) n) (h : P (s.half x)) :
    P ((s.handleFrame x offer f).half x) := by
  cases f with
  | openStream => cases offer <;> exact h
  | ack ok =>
    simp only [handleFrame]
    split_ifs
    · simpa using hs.register
    · exact h
    · exact h
  | data a => simpa [handleFrame] using hs.deliver _ a h
  | credit n =>
    have hn := hs.credit _ n (hc n rfl) h
    simp only [handleFrame]
    split_ifs <;> simpa using hn
  | close => simpa [handleFrame] using hs.close _ h

theorem step_alive (s : Flow α) (a : Act α) (t : Flow α) (hst : s.step a = some t) (x : Bool)
    (h : t.alive x = true) : s.alive x = true := by
  have hset : ∀ (u : Flow α) y l, u.loop y ≠ .ended → (u.setLoop y l).alive x = true →
      u.alive x = true := by
    intro u y l hu ha
    rcases eq_or_ne x y with rfl | hne
    · simpa [alive] using hu
    · simpa [alive, hne] using ha
  cases moves_of_step s t a hst with
  | ask | reply | send | recv => exact h
  | ship y f cmds hc hl => exact hset _ y _ (by simp [hl]) h
  | pend y hl => exact hset { s with pending := true } y _ (by simp [hl]) h
  | register y hl | notify y hl => exact hset _ y _ (by simp [hl]) h
  | handle y offer f rest hw hl =>
    rw [handleFrame_alive] at h
    · exact h
    · exact hl
  | endLoop y hl => exact hset _ y _ (by simp [hl]) h

theorem step_stable {C : Half α → ℕ → Prop} {P : Half α → Prop} (hs : Half.Stable C P)
    (s : Flow α) (a : Act α) (t : Flow α) (hst : s.step a = some t) (x : Bool)
    (hc : ∀ offer n rest, a = .handle x offer → s.loop x = .free →
      s.wire (!x) = .credit n::rest → C (s.half x) n)
    (h : P (s.half x)) :
    P (t.half x) ∨ t.half x = (s.half x).orphan ∧ t.loop x = .ended := by
  cases moves_of_step s t a hst with
  | ask | ship | pend | reply => exact Or.inl h
  | register y =>
    left
    rcases Bool.eq_or_eq_not x y with rfl | rfl
    · simpa using hs.register
    · simpa using h
  | handle y offer f rest hw hl =>
    left
    rcases Bool.eq_or_eq_not x y with rfl | rfl
    · apply handleFrame_stable hs
      · intro n hf
        exact hc offer n rest rfl hl (hf ▸ hw)
      · exact h
    · rw [handleFrame_other]
      exact h
  | notify y =>
    left
    rcases Bool.eq_or_eq_not x y with rfl | rfl
    · simpa using hs.notify _ h
    · simpa using h
  | send y a out f _ hm =>
    left
    rcases Bool.eq_or_eq_not x y with rfl | rfl
    · simpa using hs.send _ a out f hm h
    · simpa using h
  | recv y a inn f _ hm =>
    left
    rcases Bool.eq_or_eq_not x y with rfl | rfl
    · simpa using hs.recv _ a inn f hm h
    · simpa using h
  | endLoop y =>
    rcases Bool.eq_or_eq_not x y with rfl | rfl
    · right
      simp
    · left
      simpa using h

end Flow
end
end Hydr.Stream
